/-
  `coredump`: a memory image is written to a file.

  Model. Addresses and lengths are numbers below `2 ^ 32`. `write` appends the bytes at an
  address, which wraps, to the file; what it returns is decided by the environment for each
  call (`Writes`): an error, or a count that is positive, at most what was asked for, and an
  `int`. Everything else is computed. `doWrite` needs no fuel, as every write that does not
  fail makes progress; the loop that rounds the size up has fuel. `valAtZero` is an object
  of its own, apart from the memory that is dumped.

  Proved:
  * `doWrite_cases`: a write loop that no error stops has written the bytes in order.
  * `roundLoop_eq`: the size is rounded up to the least power of two.
  * `coredump_exact`: whatever the writes return, `coredump` returns, and what it reports as
    a success is an exact image.
  * `coredump_succeeds`: where no write fails, it is a success.
  * `roundLoop_hangs`: above `2 ^ 31` the rounding never ends.
  * `roundsUp_iff`: for which sizes the rounding does what it is for.
-/
import SsrlApps.Lib.Memory
import Mathlib.Data.Nat.Log

namespace SsrlApps.MiscUtils

/-! ## The functions -/

/-- The result of `write` with `len` bytes: `none` is an error. -/
abbrev WriteResult (len : Nat) := Option { n : Nat // 0 < n ∧ n ≤ len ∧ n < 2 ^ 31 }

/-- What the `k`-th call of `write` returns. -/
abbrev Writes := Nat → (len : Nat) → WriteResult len

/-- The `n` bytes from `a` on, in an address space of 32 bits. -/
def span (m : Bytes) (a n : Nat) : List UInt8 :=
  (List.range n).map fun i => m ((a + i) % 2 ^ 32)

/-- An unsigned number of 32 bits as an `int`. -/
def int32 (x : Nat) : Int := if x < 2 ^ 31 then x else (x : Int) - 2 ^ 32

/-- The bytes of the file, and the results of the calls of `write` up to now. -/
structure Written where
  file : List UInt8
  results : List (Option Nat)

/-- The loop of `doWrite`, at `here` with `len` bytes to go. -/
def doWriteLoop (m : Bytes) (w : Writes) (start here len : Nat) (out : Written) :
    Int × Written :=
  if h : 0 < len then
    match w out.results.length len with
    | none => (-1, { out with results := out.results ++ [none] })
    | some n =>
      doWriteLoop m w start ((here + n.1) % 2 ^ 32) (len - n.1)
        ⟨out.file ++ span m here n.1, out.results ++ [some n.1]⟩
  else (int32 ((here + 2 ^ 32 - start) % 2 ^ 32), out)
termination_by len
decreasing_by
  exact Nat.sub_lt h n.2.1

def doWrite (m : Bytes) (w : Writes) (start len : Nat) (out : Written) : Int × Written :=
  doWriteLoop m w start start len out

/-- `for ( mem_size=1; mem_size<size; mem_size<<=1)` -/
def roundLoop : Nat → Nat → Nat → Option Nat
  | 0, _, _ => none
  | fuel + 1, memSize, size =>
    if memSize < size then roundLoop fuel (memSize * 2 % 2 ^ 32) size else some memSize

inductive OpenFlag
  | wronly
  | creat
  | excl
  | trunc
deriving DecidableEq

/-- `flags`, without `O_EXCL` if the write is forced. -/
def openFlags (forceWrite : Bool) : List OpenFlag :=
  if forceWrite then [.wronly, .creat, .trunc] else [.wronly, .creat, .excl, .trunc]

/-- What is printed, in the order of the source. -/
inductive DumpLine
  | unableToGuess
  | openFailed
  | dumping (memSize start : Nat)
  | unableToWrite
  | done
deriving DecidableEq

/-- What `coredump` finds and gets from the system. -/
structure DumpEnv where
  bspMemSize : Nat
  /-- The descriptor that `open` returns, or a negative number. -/
  openFile : List OpenFlag → Int
  writes : Writes
  /-- Where the variable `valAtZero` is. -/
  valAtZero : Fin (2 ^ 32)

/-- The value that is returned, the results of the writes, the contents of the file if it
    was opened, and the descriptors that were closed. -/
structure Dump where
  rval : Nat
  results : List (Option Nat)
  file : Option (List UInt8)
  closed : List Int
  lines : List DumpLine

/-- `(unsigned)-1` -/
def minusOne : Nat := 2 ^ 32 - 1

/-- What follows the first word, which is in the file. -/
def dumpRest (env : DumpEnv) (m : Bytes) (start memSize : Nat) (fd : Int)
    (lines : List DumpLine) (out : Written) : Dump :=
  let rest := doWrite m env.writes ((start + 4) % 2 ^ 32) ((memSize + 2 ^ 32 - 4) % 2 ^ 32) out
  if rest.1 < 0 then
    ⟨minusOne, rest.2.results, some rest.2.file, [fd],
      lines ++ if none ∈ rest.2.results then [.unableToWrite] else []⟩
  else ⟨memSize, rest.2.results, some rest.2.file, [fd], lines ++ [.done]⟩

/-- From the first write on, with the file open under `fd`. -/
def dumpImage (env : DumpEnv) (m : Bytes) (start memSize : Nat) (fd : Int) : Dump :=
  let lines := [.dumping memSize start]
  let object : Bytes := fun a => m (start + (a + 2 ^ 32 - env.valAtZero.1) % 2 ^ 32)
  let first := doWrite object env.writes env.valAtZero.1 4 ⟨[], []⟩
  if first.1 < 0 then
    ⟨minusOne, first.2.results, some first.2.file, [fd], lines ++ [.unableToWrite]⟩
  else dumpRest env m start memSize fd lines first.2

def coredump (fuel : Nat) (env : DumpEnv) (m : Bytes) (start size : Nat) (forceWrite : Bool) :
    Option Dump :=
  let size := if size = 0 then env.bspMemSize else size
  if size = 0 then some ⟨minusOne, [], none, [], [.unableToGuess]⟩
  else
    let fd := env.openFile (openFlags forceWrite)
    if fd < 0 then some ⟨minusOne, [], none, [], [.openFailed]⟩
    else (roundLoop fuel 1 size).map fun memSize => dumpImage env m start memSize fd

/-! ## The rounding -/

/-- `p` is the least power of two that is not below `size`. -/
structure LeastPow2 (size p : Nat) : Prop where
  pow : ∃ j, p = 2 ^ j
  le : size ≤ p
  least : ∀ k, size ≤ 2 ^ k → p ≤ 2 ^ k

theorem roundLoop_eq {size j k fuel : Nat} (hp : LeastPow2 size (2 ^ j)) (hj : j < 32)
    (hk : k ≤ j) (hfuel : j < k + fuel) : roundLoop fuel (2 ^ k) size = some (2 ^ j) := by
  induction fuel generalizing k with
  | zero => omega
  | succ fuel ih =>
    unfold roundLoop
    rcases Nat.lt_or_eq_of_le hk with hlt | rfl
    · have hless : 2 ^ k < size := by
        by_contra hge
        have hle := hp.least k (Nat.le_of_not_lt hge)
        exact absurd hle (Nat.not_le_of_lt (Nat.pow_lt_pow_right (by decide) hlt))
      have hnext : 2 ^ k * 2 % 2 ^ 32 = 2 ^ (k + 1) := by
        rw [← Nat.pow_succ]
        exact Nat.mod_eq_of_lt (Nat.pow_lt_pow_right (by decide) (by omega))
      rw [if_pos hless, hnext]
      exact ih hlt (by omega)
    · rw [if_neg (Nat.not_lt_of_le hp.le)]

/-! ## The writes -/

theorem span_append (m : Bytes) (a n k : Nat) :
    span m a (n + k) = span m a n ++ span m ((a + n) % 2 ^ 32) k := by
  unfold span
  rw [List.range_add, List.map_append, List.map_map]
  refine congrArg (_ ++ ·) (List.map_congr_left ?_)
  intro i _
  show m ((a + (n + i)) % 2 ^ 32) = m (((a + n) % 2 ^ 32 + i) % 2 ^ 32)
  rw [Nat.mod_add_mod, Nat.add_assoc]

/-- One turn of the loop. -/
theorem doWriteLoop_succ (m : Bytes) (w : Writes) (start here : Nat) {len : Nat}
    (h : 0 < len) (out : Written) : doWriteLoop m w start here len out =
      match w out.results.length len with
      | none => (-1, { out with results := out.results ++ [none] })
      | some n => doWriteLoop m w start ((here + n.1) % 2 ^ 32) (len - n.1)
          ⟨out.file ++ span m here n.1, out.results ++ [some n.1]⟩ := by
  rw [doWriteLoop, dif_pos h]

/-- A write loop ends with an error in its log, or it has appended all its bytes and returns
    their number, as an `int`. -/
theorem doWrite_cases (m : Bytes) (w : Writes) (start len here : Nat) (out : Written)
    (hhere : here < 2 ^ 32) (hlog : none ∉ out.results) :
    ((doWriteLoop m w start here len out).1 = -1 ∧
        none ∈ (doWriteLoop m w start here len out).2.results) ∨
      ((doWriteLoop m w start here len out).1 =
          int32 (((here + len) % 2 ^ 32 + 2 ^ 32 - start) % 2 ^ 32) ∧
        (doWriteLoop m w start here len out).2.file = out.file ++ span m here len ∧
        none ∉ (doWriteLoop m w start here len out).2.results) := by
  induction len using Nat.strongRecOn generalizing here out with
  | ind len ih =>
    rcases Nat.eq_zero_or_pos len with rfl | hpos
    · refine Or.inr ?_
      have hmod : (here + 0) % 2 ^ 32 = here := Nat.mod_eq_of_lt hhere
      rw [hmod, doWriteLoop, dif_neg (Nat.lt_irrefl 0)]
      exact ⟨rfl, (List.append_nil _).symm, hlog⟩
    · rw [doWriteLoop_succ m w start here hpos]
      cases hw : w out.results.length len with
      | none => exact Or.inl ⟨rfl, List.mem_append_right _ List.mem_cons_self⟩
      | some n =>
        obtain ⟨hn0, hn, -⟩ := n.2
        have hlog' : none ∉ out.results ++ [some n.1] := by
          simp [hlog]
        have hrest := ih (len - n.1) (by omega) ((here + n.1) % 2 ^ 32)
          ⟨out.file ++ span m here n.1, out.results ++ [some n.1]⟩
          (Nat.mod_lt _ (by decide)) hlog'
        have hend : ((here + n.1) % 2 ^ 32 + (len - n.1)) % 2 ^ 32 = (here + len) % 2 ^ 32 := by
          rw [Nat.mod_add_mod, Nat.add_assoc, Nat.add_sub_cancel' hn]
        have hspan : span m here n.1 ++ span m ((here + n.1) % 2 ^ 32) (len - n.1) =
            span m here len := by
          rw [← span_append, Nat.add_sub_cancel' hn]
        rw [hend, List.append_assoc, hspan] at hrest
        exact hrest

/-! ## The image -/

/-- Bytes that lie in the address space are listed as they are. -/
theorem span_getElem {m : Bytes} {a n i : Nat} (hi : i < n) (ha : a + n ≤ 2 ^ 32) :
    (span m a n)[i]? = some (m (a + i)) := by
  unfold span
  rw [List.getElem?_map, List.getElem?_range hi, Option.map_some,
    Nat.mod_eq_of_lt (by omega)]

theorem span_length (m : Bytes) (a n : Nat) : (span m a n).length = n := by
  unfold span
  rw [List.length_map, List.length_range]

/-- What a dump owes: a value other than -1 is the size of the image, which is in the file
    as it is in memory, and after a failed write the value is -1. -/
structure ExactImage (m : Bytes) (start p : Nat) (r : Dump) : Prop where
  image : r.rval ≠ minusOne → r.rval = p ∧ ∃ file, r.file = some file ∧ file.length = p ∧
    ∀ i, i < p → file[i]? = some (m (start + i))
  failure : none ∈ r.results → r.rval = minusOne

/-- Nothing but -1 is reported. -/
theorem exactImage_failed {m : Bytes} {start p : Nat} {r : Dump} (h : r.rval = minusOne) :
    ExactImage m start p r :=
  ⟨fun hne => absurd h hne, fun _ => h⟩

theorem int32_neg {x : Nat} (h : 2 ^ 31 ≤ x) (hx : x < 2 ^ 32) : int32 x < 0 := by
  unfold int32
  rw [if_neg (Nat.not_lt_of_le h)]
  omega

theorem int32_nonneg {x : Nat} (h : x < 2 ^ 31) : ¬ int32 x < 0 := by
  unfold int32
  rw [if_pos h]
  omega

/-- `here - start`, when the loop has gone `len` bytes. -/
theorem gone {start len : Nat} (hs : start < 2 ^ 32) (hl : len < 2 ^ 32) :
    ((start + len) % 2 ^ 32 + 2 ^ 32 - start) % 2 ^ 32 = len := by
  omega

/-- The variable holds the first word. -/
theorem span_object (m : Bytes) (start : Nat) (a : Fin (2 ^ 32)) :
    span (fun b => m (start + (b + 2 ^ 32 - a.1) % 2 ^ 32)) a.1 4 =
      (List.range 4).map fun i => m (start + i) := by
  refine List.map_congr_left ?_
  intro i hi
  have hi4 := List.mem_range.mp hi
  dsimp only
  rw [gone a.2 (by omega)]

/-- Behind the first word. Below an image of four bytes the length wraps, and the loop
    returns a negative number; from there on the bytes follow the word. -/
theorem dumpRest_exact (env : DumpEnv) (m : Bytes) {start j : Nat} (fd : Int)
    (lines : List DumpLine) {out : Written} (hj : j < 32) (htop : start + 2 ^ j ≤ 2 ^ 32)
    (hlog : none ∉ out.results) (hfile : out.file = (List.range 4).map fun i => m (start + i)) :
    ExactImage m start (2 ^ j) (dumpRest env m start (2 ^ j) fd lines out) := by
  have hpos : 0 < 2 ^ j := Nat.two_pow_pos j
  have hmax : 2 ^ j ≤ 2 ^ 31 := Nat.pow_le_pow_right (by decide) (by omega)
  have hstart : (start + 4) % 2 ^ 32 < 2 ^ 32 := Nat.mod_lt _ (by decide)
  have hlen : (2 ^ j + 2 ^ 32 - 4) % 2 ^ 32 < 2 ^ 32 := Nat.mod_lt _ (by decide)
  have hrest := doWrite_cases m env.writes ((start + 4) % 2 ^ 32)
    ((2 ^ j + 2 ^ 32 - 4) % 2 ^ 32) _ out hstart hlog
  unfold dumpRest doWrite
  dsimp only
  rcases hrest with ⟨hret, -⟩ | ⟨hret, hwritten, hlog'⟩
  · rw [hret, if_pos (by decide)]
    exact exactImage_failed rfl
  · rw [gone hstart hlen] at hret
    rw [hret]
    rcases Nat.lt_or_ge (2 ^ j) 4 with hsmall | hbig
    · have hwrap : 2 ^ 31 ≤ (2 ^ j + 2 ^ 32 - 4) % 2 ^ 32 := by omega
      rw [if_pos (int32_neg hwrap hlen)]
      exact exactImage_failed rfl
    · have hgo : (2 ^ j + 2 ^ 32 - 4) % 2 ^ 32 = 2 ^ j - 4 := by omega
      have himage : out.file ++ span m ((start + 4) % 2 ^ 32) (2 ^ j - 4) =
          span m start (2 ^ j) := by
        have hword : (List.range 4).map (fun i => m (start + i)) = span m start 4 := by
          refine List.map_congr_left ?_
          intro i hi
          have hi4 := List.mem_range.mp hi
          rw [Nat.mod_eq_of_lt (by omega)]
        rw [hfile, hword, ← span_append, Nat.add_sub_cancel' hbig]
      rw [hgo, himage] at hwritten
      rw [hgo, if_neg (int32_nonneg (by omega))]
      rw [hgo] at hlog'
      refine ⟨fun _ => ⟨rfl, _, rfl, ?_, ?_⟩, fun hmem => absurd hmem hlog'⟩
      · rw [hwritten, span_length]
      · intro i hi
        rw [hwritten]
        exact span_getElem hi htop

theorem dumpImage_exact (env : DumpEnv) (m : Bytes) {start j : Nat} (fd : Int)
    (hj : j < 32) (htop : start + 2 ^ j ≤ 2 ^ 32) :
    ExactImage m start (2 ^ j) (dumpImage env m start (2 ^ j) fd) := by
  have hfirst := doWrite_cases (fun b => m (start + (b + 2 ^ 32 - env.valAtZero.1) % 2 ^ 32))
    env.writes env.valAtZero.1 4 _ ⟨[], []⟩ env.valAtZero.2 List.not_mem_nil
  unfold dumpImage doWrite
  dsimp only
  rcases hfirst with ⟨hret, -⟩ | ⟨hret, hfile, hlog⟩
  · rw [hret, if_pos (by decide)]
    exact exactImage_failed rfl
  · rw [gone env.valAtZero.2 (by decide)] at hret
    rw [span_object, List.nil_append] at hfile
    rw [hret, if_neg (int32_nonneg (by decide))]
    exact dumpRest_exact env m fd _ hj htop hlog hfile

theorem LeastPow2.lt {size j : Nat} (hp : LeastPow2 size (2 ^ j)) (hhi : size ≤ 2 ^ 31) :
    j < 32 := by
  have hle := hp.least 31 hhi
  by_contra hge
  have hlt : 2 ^ 31 < 2 ^ j := Nat.pow_lt_pow_right (by decide) (by omega)
  omega

/-- The run of `coredump` for a size that it can round up. -/
theorem coredump_rounded (env : DumpEnv) (m : Bytes) (start : Nat) (forceWrite : Bool)
    {size j fuel : Nat} (hlo : 1 ≤ size) (hhi : size ≤ 2 ^ 31) (hp : LeastPow2 size (2 ^ j))
    (hfuel : 32 ≤ fuel) :
    coredump fuel env m start size forceWrite =
      some (if env.openFile (openFlags forceWrite) < 0 then ⟨minusOne, [], none, [], [.openFailed]⟩
        else dumpImage env m start (2 ^ j) (env.openFile (openFlags forceWrite))) := by
  have hne : size ≠ 0 := by omega
  have hj : j < 0 + fuel := by
    have := hp.lt hhi
    omega
  have hround : roundLoop fuel 1 size = some (2 ^ j) :=
    roundLoop_eq (k := 0) hp (hp.lt hhi) (Nat.zero_le j) hj
  unfold coredump
  dsimp only
  rw [if_neg hne, if_neg hne, hround]
  split
  · rfl
  · rfl

/-- **`coredump` returns, whatever the writes return, and a success is an exact image.** A
    value other than -1 is the least power of two that is not below the size; the file has
    that many bytes, those of the memory from `start` on; and after a failed write the value
    is -1. -/
theorem coredump_exact (env : DumpEnv) (m : Bytes) (forceWrite : Bool) {start size p fuel : Nat}
    (hlo : 1 ≤ size) (hhi : size ≤ 2 ^ 31) (hp : LeastPow2 size p) (htop : start + p ≤ 2 ^ 32)
    (hfuel : 32 ≤ fuel) :
    ∃ r, coredump fuel env m start size forceWrite = some r ∧ ExactImage m start p r := by
  obtain ⟨j, rfl⟩ := hp.pow
  rw [coredump_rounded env m start forceWrite hlo hhi hp hfuel]
  split
  · exact ⟨_, rfl, exactImage_failed rfl⟩
  · exact ⟨_, rfl, dumpImage_exact env m _ (hp.lt hhi) htop⟩

/-- No write fails. -/
def DumpEnv.Good (env : DumpEnv) : Prop := ∀ k len, 0 < len → env.writes k len ≠ none

theorem doWrite_good {env : DumpEnv} (hgood : env.Good) (m : Bytes) (start here len : Nat)
    {out : Written} (hlog : none ∉ out.results) :
    none ∉ (doWriteLoop m env.writes start here len out).2.results := by
  induction len using Nat.strongRecOn generalizing here out with
  | ind len ih =>
    rcases Nat.eq_zero_or_pos len with rfl | hpos
    · rw [doWriteLoop, dif_neg (Nat.lt_irrefl 0)]
      exact hlog
    · rw [doWriteLoop_succ m env.writes start here hpos]
      cases hw : env.writes out.results.length len with
      | none => exact absurd hw (hgood _ _ hpos)
      | some n =>
        have hlog' : none ∉ out.results ++ [some n.1] := by
          simp [hlog]
        exact ih (len - n.1) (Nat.sub_lt hpos n.2.1) _ hlog'

/-- A write loop of less than `2 ^ 31` bytes succeeds where no write fails. -/
theorem doWrite_returns {env : DumpEnv} (hgood : env.Good) (m : Bytes) {start len : Nat}
    (hstart : start < 2 ^ 32) (hlen : len < 2 ^ 31) {out : Written} (hlog : none ∉ out.results) :
    ¬ (doWrite m env.writes start len out).1 < 0 ∧
      none ∉ (doWrite m env.writes start len out).2.results := by
  have hlog' := doWrite_good hgood m start start len hlog
  unfold doWrite
  rcases doWrite_cases m env.writes start len start out hstart hlog with ⟨-, hfail⟩ | ⟨hret, -⟩
  · exact absurd hfail hlog'
  · rw [hret, gone hstart (by omega)]
    exact ⟨int32_nonneg hlen, hlog'⟩

/-- **Where no write fails, `coredump` succeeds**, but for the sizes 1 and 2. -/
theorem coredump_succeeds {env : DumpEnv} (hgood : env.Good) (m : Bytes) {forceWrite : Bool}
    (hopen : 0 ≤ env.openFile (openFlags forceWrite)) (start : Nat) {size p fuel : Nat}
    (hlo : 3 ≤ size) (hhi : size ≤ 2 ^ 31) (hp : LeastPow2 size p) (hfuel : 32 ≤ fuel) :
    ∃ r, coredump fuel env m start size forceWrite = some r ∧ r.rval = p := by
  obtain ⟨j, rfl⟩ := hp.pow
  have hj := hp.lt hhi
  have hfour : 4 ≤ 2 ^ j := by
    have htwo : 2 ≤ j := by
      by_contra h
      have hle : 2 ^ j ≤ 2 ^ 1 := Nat.pow_le_pow_right (by decide) (by omega)
      have hsize := hp.le
      omega
    exact Nat.pow_le_pow_right Nat.two_pos htwo
  have hmax : 2 ^ j ≤ 2 ^ 31 := Nat.pow_le_pow_right (by decide) (by omega)
  refine ⟨_, coredump_rounded env m start forceWrite (by omega) hhi hp hfuel, ?_⟩
  have hnone : none ∉ (⟨[], []⟩ : Written).results := List.not_mem_nil
  obtain ⟨hfirst, hlog⟩ := doWrite_returns hgood
    (fun a => m (start + (a + 2 ^ 32 - env.valAtZero.1) % 2 ^ 32)) env.valAtZero.2
    (by decide : 4 < 2 ^ 31) hnone
  have hstart : (start + 4) % 2 ^ 32 < 2 ^ 32 := Nat.mod_lt _ (by decide)
  have hlen : (2 ^ j + 2 ^ 32 - 4) % 2 ^ 32 < 2 ^ 31 := by omega
  have hrest := (doWrite_returns hgood m hstart hlen hlog).1
  rw [if_neg (Int.not_lt.mpr hopen)]
  unfold dumpImage dumpRest
  dsimp only
  rw [if_neg hfirst, if_neg hrest]

/-- The file is open as 3, and no write takes more than three bytes. -/
def slowDisk : DumpEnv where
  bspMemSize := 0
  openFile _ := 3
  writes _ len := if h : 0 < len then some ⟨min 3 len, by omega⟩ else none
  valAtZero := 0x8000

theorem leastPow2_five : LeastPow2 5 8 where
  pow := ⟨3, rfl⟩
  le := by decide
  least := by
    intro k hk
    by_contra hlt
    have hk2 : k ≤ 2 := by
      by_contra h
      have hge : 2 ^ 3 ≤ 2 ^ k := Nat.pow_le_pow_right (by decide) (by omega)
      exact hlt hge
    have hle : 2 ^ k ≤ 2 ^ 2 := Nat.pow_le_pow_right (by decide) hk2
    omega

theorem slowDisk_good : slowDisk.Good := by
  intro k len hlen
  unfold slowDisk
  dsimp only
  rw [dif_pos hlen]
  exact nofun

theorem coredump_exact_five : ∃ r, coredump 32 slowDisk UInt8.ofNat 0x1000 5 false = some r ∧
    r.rval = 8 ∧ r.file = some [0, 1, 2, 3, 4, 5, 6, 7] := by
  obtain ⟨r, hret, hexact⟩ := coredump_exact slowDisk UInt8.ofNat false (by decide) (by decide)
    leastPow2_five (by decide : 0x1000 + 8 ≤ 2 ^ 32) (Nat.le_refl 32)
  obtain ⟨r', hret', hrval⟩ := coredump_succeeds slowDisk_good UInt8.ofNat
    (by decide : 0 ≤ slowDisk.openFile (openFlags false)) 0x1000 (by decide) (by decide)
    leastPow2_five (Nat.le_refl 32)
  rw [hret] at hret'
  cases hret'
  obtain ⟨-, file, hfile, hlen, hbytes⟩ := hexact.image (by rw [hrval]; decide)
  have himage : file = (List.range 8).map fun i => UInt8.ofNat (0x1000 + i) := by
    refine List.ext_getElem? fun i => ?_
    rcases Nat.lt_or_ge i 8 with hi | hi
    · rw [hbytes i hi, List.getElem?_map, List.getElem?_range hi]
      rfl
    · rw [List.getElem?_eq_none (by omega), List.getElem?_eq_none]
      rw [List.length_map, List.length_range]
      exact hi
  exact ⟨r, hret, hrval, by rw [hfile, himage]; rfl⟩

/-! ## Sizes without a power of two -/

/-- The loop that rounds up has come to a power of two, or to 0 behind the last one. -/
def Doubling (memSize : Nat) : Prop := memSize = 0 ∨ ∃ k, k ≤ 31 ∧ memSize = 2 ^ k

theorem doubling_step {memSize : Nat} (h : Doubling memSize) :
    Doubling (memSize * 2 % 2 ^ 32) := by
  rcases h with rfl | ⟨k, hk, rfl⟩
  · exact Or.inl rfl
  · rw [← Nat.pow_succ]
    rcases Nat.lt_or_eq_of_le hk with hlt | rfl
    · refine Or.inr ⟨k + 1, hlt, ?_⟩
      exact Nat.mod_eq_of_lt (Nat.pow_lt_pow_right (by decide) (by omega))
    · exact Or.inl (Nat.mod_self _)

theorem doubling_le {memSize : Nat} (h : Doubling memSize) : memSize ≤ 2 ^ 31 := by
  rcases h with rfl | ⟨k, hk, rfl⟩
  · exact Nat.zero_le _
  · exact Nat.pow_le_pow_right (by decide) hk

/-- Above `2 ^ 31` no fuel is enough: `mem_size` stays below the size. -/
theorem roundLoop_hangs {size memSize : Nat} (hsize : 2 ^ 31 < size) (h : Doubling memSize)
    (fuel : Nat) : roundLoop fuel memSize size = none := by
  induction fuel generalizing memSize with
  | zero => rfl
  | succ fuel ih =>
    have hless : memSize < size := Nat.lt_of_le_of_lt (doubling_le h) hsize
    unfold roundLoop
    rw [if_pos hless]
    exact ih (doubling_step h)

theorem leastPow2_clog (size : Nat) : LeastPow2 size (2 ^ Nat.clog 2 size) where
  pow := ⟨_, rfl⟩
  le := Nat.le_pow_clog (by decide) size
  least := fun _ hk => Nat.pow_le_pow_right (by decide) (Nat.clog_le_of_le_pow hk)

theorem roundLoop_ends {size : Nat} (hsize : size ≤ 2 ^ 31) :
    ∃ p, roundLoop 32 1 size = some p ∧ LeastPow2 size p := by
  have hlog : Nat.clog 2 size ≤ 31 := Nat.clog_le_of_le_pow hsize
  have hround : roundLoop 32 (2 ^ 0) size = some (2 ^ Nat.clog 2 size) :=
    roundLoop_eq (leastPow2_clog size) (by omega) (Nat.zero_le _) (by omega)
  exact ⟨_, hround, leastPow2_clog size⟩

/-- The size that `coredump` is about. -/
def requested (env : DumpEnv) (size : Nat) : Nat := if size = 0 then env.bspMemSize else size

/-- What the rounding is for. -/
structure RoundsUp (env : DumpEnv) (m : Bytes) (start size : Nat) (forceWrite : Bool) :
    Prop where
  /-- `coredump` comes to its end. -/
  returns : ∃ fuel r, coredump fuel env m start size forceWrite = some r
  /-- If there is a power of two that is not below the size, the loop ends with the least. -/
  rounds : (∃ k, k < 32 ∧ requested env size ≤ 2 ^ k) →
    ∃ fuel p, roundLoop fuel 1 (requested env size) = some p ∧ LeastPow2 (requested env size) p
  /-- If there is none, the size is rejected. -/
  rejects : (¬ ∃ k, k < 32 ∧ requested env size ≤ 2 ^ k) →
    ∃ fuel r, coredump fuel env m start size forceWrite = some r ∧ r.rval = minusOne

theorem le_of_pow {n k : Nat} (hk : k < 32) (hn : n ≤ 2 ^ k) : n ≤ 2 ^ 31 :=
  Nat.le_trans hn (Nat.pow_le_pow_right (by decide) (by omega))

/-- The run up to the rounding. -/
theorem coredump_open {env : DumpEnv} {size : Nat} (hne : requested env size ≠ 0) (fuel : Nat)
    (m : Bytes) (start : Nat) (forceWrite : Bool) :
    coredump fuel env m start size forceWrite =
      if env.openFile (openFlags forceWrite) < 0 then some ⟨minusOne, [], none, [], [.openFailed]⟩
      else (roundLoop fuel 1 (requested env size)).map fun memSize =>
        dumpImage env m start memSize (env.openFile (openFlags forceWrite)) := by
  unfold coredump
  exact if_neg hne

/-- **The rounding ends for sizes up to `2 ^ 31`, and only for these.** A call with a nonzero
    size, be it the argument or `BSP_mem_size`, rounds it up to the least power of two, or
    rejects it, exactly if the size is at most `2 ^ 31` or the file cannot be opened. -/
theorem roundsUp_iff (env : DumpEnv) (m : Bytes) (start size : Nat) (forceWrite : Bool)
    (hne : requested env size ≠ 0) : RoundsUp env m start size forceWrite ↔
      requested env size ≤ 2 ^ 31 ∨ env.openFile (openFlags forceWrite) < 0 := by
  have hopen := coredump_open hne
  constructor
  · intro h
    by_contra hcond
    rw [not_or, Nat.not_le] at hcond
    obtain ⟨fuel, r, hret⟩ := h.returns
    have hhang := roundLoop_hangs hcond.1 (Or.inr ⟨0, by decide, rfl⟩ : Doubling 1) fuel
    rw [hopen, if_neg hcond.2, hhang] at hret
    cases hret
  · rintro (hle | hfail)
    · obtain ⟨p, hround, hp⟩ := roundLoop_ends hle
      refine ⟨⟨32, ?_⟩, fun _ => ⟨32, p, hround, hp⟩, fun hno => absurd ⟨31, by decide, hle⟩ hno⟩
      rw [hopen, hround]
      split
      · exact ⟨_, rfl⟩
      · exact ⟨_, rfl⟩
    · refine ⟨⟨0, ?_⟩, ?_, fun _ => ⟨0, ?_⟩⟩
      · rw [hopen, if_pos hfail]
        exact ⟨_, rfl⟩
      · rintro ⟨k, hk, hle⟩
        exact ⟨32, roundLoop_ends (le_of_pow hk hle)⟩
      · rw [hopen, if_pos hfail]
        exact ⟨_, rfl, rfl⟩

theorem roundsUp_iff_five : RoundsUp slowDisk UInt8.ofNat 0x1000 5 false :=
  (roundsUp_iff slowDisk UInt8.ofNat 0x1000 5 false (by decide)).mpr (Or.inl (by decide))

/-- One byte more than 2 GB: the file is created, and `coredump` does not return. -/
theorem coredump_hangs : (∀ fuel, coredump fuel slowDisk UInt8.ofNat 0 0x80000001 false = none) ∧
    ¬ RoundsUp slowDisk UInt8.ofNat 0 0x80000001 false := by
  have hsize : 2 ^ 31 < requested slowDisk 0x80000001 := by decide
  have hfd : ¬ slowDisk.openFile (openFlags false) < 0 := by decide
  have hnone : ∀ fuel, coredump fuel slowDisk UInt8.ofNat 0 0x80000001 false = none := by
    intro fuel
    rw [coredump_open (by decide), if_neg hfd,
      roundLoop_hangs hsize (Or.inr ⟨0, by decide, rfl⟩ : Doubling 1) fuel]
    rfl
  refine ⟨hnone, fun h => ?_⟩
  obtain ⟨fuel, r, hret⟩ := h.returns
  rw [hnone fuel] at hret
  cases hret

end SsrlApps.MiscUtils
