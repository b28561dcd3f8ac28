/-
  `mm`: memory is shown and modified word by word, as an operator types.

  Model. The input is a list of bytes, behind which it ends. `fgets` takes up to 39 bytes
  of it, and at its end leaves the buffer as it is; a buffer is the list of the bytes in
  front of its NUL, at first what the stack held. Addresses have 32 bits. The loop runs
  with fuel: `none` says that it has not ended yet. What is shown at each turn is recorded
  (`Prompt`), with the input that was unread then and the value that was stored.

  `mmSpec` says what the loop is for: one step for each line, up to the first line that
  begins with '.', or to the end of the input, where a last prompt stays unanswered.

  Proved:
  * `mmBody_eq`: one turn of the loop is the step of the line in the buffer.
  * `mmSpec_exact`: what the fold over the lines does to memory and cursor.
  * `mm_ok_iff`: `mm` is that fold exactly if a line begins with '.' and those before it
    fit into the buffer and do not begin with NUL.
-/
import SsrlApps.MiscUtils.Cksum

namespace SsrlApps.MiscUtils

open Bytes

/-! ## Words -/

/-- The word sizes of `mm`; any other size means 4. -/
inductive Width
  | byte
  | half
  | word
deriving DecidableEq

namespace Width

def bytes : Width → Nat
  | byte => 1
  | half => 2
  | word => 4

/-- `switch (size) { default: size = DEFSIZE; case 1: case 2: case 4: }` -/
def ofSize (size : Int) : Width :=
  if size = 1 then byte else if size = 2 then half else word

end Width

def readWord (e : Endian) (m : Bytes) (w : Width) (a : BitVec 32) : Nat :=
  match e with
  | .big => m.load w.bytes a.toNat
  | .little => m.loadLE w.bytes a.toNat

def writeWord (e : Endian) (m : Bytes) (w : Width) (a : BitVec 32) (v : Nat) : Bytes :=
  match e with
  | .big => m.store w.bytes a.toNat v
  | .little => m.storeLE w.bytes a.toNat v

/-! ## The C library -/

def newline : UInt8 := 0x0a

def dot : UInt8 := 0x2e

def isSpace (c : UInt8) : Bool := c == 0x20 || (0x09 ≤ c && c ≤ 0x0d)

/-- The value of a digit, in any base up to 36. -/
def digitValue (c : UInt8) : Option Nat :=
  if 0x30 ≤ c ∧ c ≤ 0x39 then some (c.toNat - 0x30)
  else if 0x41 ≤ c ∧ c ≤ 0x5a then some (c.toNat - 0x41 + 10)
  else if 0x61 ≤ c ∧ c ≤ 0x7a then some (c.toNat - 0x61 + 10)
  else none

def isDigit (base : Nat) (c : UInt8) : Bool :=
  match digitValue c with
  | some d => decide (d < base)
  | none => false

/-- The digits that a number in `base` starts with. -/
def digits (base : Nat) (s : List UInt8) : List Nat :=
  (s.takeWhile (isDigit base)).filterMap digitValue

/-- The base that a prefix stands for, and what follows the prefix. -/
def basePrefix : List UInt8 → Nat × List UInt8
  | 0x30 :: x :: d :: s =>
    if (x = 0x78 ∨ x = 0x58) ∧ isDigit 16 d then (16, d :: s) else (8, 0x30 :: x :: d :: s)
  | 0x30 :: s => (8, 0x30 :: s)
  | s => (10, s)

def sign : List UInt8 → Bool × List UInt8
  | 0x2d :: s => (true, s)
  | 0x2b :: s => (false, s)
  | s => (false, s)

/-- `strtoul(s, &endp, 0)` with 32 bits; `none` if `endp == s`. -/
def strtoul (s : List UInt8) : Option Nat :=
  let (neg, s) := sign (s.dropWhile isSpace)
  let (base, s) := basePrefix s
  match digits base s with
  | [] => none
  | ds =>
    let n := ds.foldl (fun n d => n * base + d) 0
    if 2 ^ 32 ≤ n then some (2 ^ 32 - 1)
    else if neg then some ((2 ^ 32 - n) % 2 ^ 32)
    else some n

def toupper (c : UInt8) : UInt8 := if 0x61 ≤ c ∧ c ≤ 0x7a then c - 0x20 else c

/-- The loop of `fgets`: up to `n` bytes, or to the end of the line. -/
def fgetsLoop : Nat → List UInt8 → List UInt8 × List UInt8
  | 0, s => ([], s)
  | _ + 1, [] => ([], [])
  | n + 1, c :: s =>
    if c = newline then ([c], s)
    else
      let r := fgetsLoop n s
      (c :: r.1, r.2)

/-- The bytes that are put into the buffer up to a NUL among them. -/
def cString (s : List UInt8) : List UInt8 := s.takeWhile (· ≠ 0)

/-- `LBSZ` -/
def lineSize : Nat := 40

/-- `fgets(buf, LBSZ, stdin)`: the buffer, and what is left to read. -/
def fgets (buf input : List UInt8) : List UInt8 × List UInt8 :=
  match input with
  | [] => (buf, [])
  | c :: s =>
    let r := fgetsLoop (lineSize - 1) (c :: s)
    (cString r.1, r.2)

/-! ## The function -/

structure MmState where
  mem : Bytes
  address : BitVec 32
  width : Width
  /-- `size` is negative. -/
  back : Bool

namespace MmState

/-- `size`, as it is added to an address. -/
def size (st : MmState) : BitVec 32 :=
  if st.back then -BitVec.ofNat 32 st.width.bytes else BitVec.ofNat 32 st.width.bytes

def advance (st : MmState) : MmState := { st with address := st.address + st.size }

end MmState

/-- `buf[0]` -/
def firstByte (buf : List UInt8) : UInt8 := buf.headD 0

/-- One turn of the loop behind `fgets`, and the value it stores, if it does. `size` is
    plus or minus 1, 2 or 4, so that there is a case for its absolute value. -/
def mmBody (e : Endian) (st : MmState) (buf : List UInt8) : MmState × Option Nat :=
  match strtoul buf with
  | some v => (MmState.advance { st with mem := writeWord e st.mem st.width st.address v }, some v)
  | none =>
    let c := toupper (firstByte buf)
    let st :=
      if c = 0x5e then { st with back := true }
      else if c = 0x56 then { st with back := false }
      else if c = newline ∨ c = 0x0d then st
      else { st with address := st.address - st.size }
    (st.advance, none)

/-- What is shown, "0x%08x:  " and the word there, with what is still to be read. -/
structure Prompt where
  unread : List UInt8
  address : BitVec 32
  shown : Nat
  stored : Option Nat
deriving DecidableEq

structure MmResult where
  final : MmState
  prompts : List Prompt

/-- `strlen(buf) && '.' != buf[0]` -/
def goesOn (buf : List UInt8) : Bool := decide (buf.length ≠ 0) && decide (dot ≠ firstByte buf)

def mmLoop (e : Endian) : Nat → MmState → List UInt8 → List UInt8 → Option MmResult
  | 0, _, _, _ => none
  | fuel + 1, st, buf, input =>
    let r := fgets buf input
    let b := mmBody e st r.1
    let p : Prompt := ⟨input, st.address, readWord e st.mem st.width st.address, b.2⟩
    if goesOn r.1 then
      (mmLoop e fuel b.1 r.1 r.2).map fun q => ⟨q.final, p :: q.prompts⟩
    else some ⟨b.1, [p]⟩

/-- `mm(address, size)` with `junk` in the buffer. -/
def mm (e : Endian) (fuel : Nat) (m : Bytes) (address : BitVec 32) (size : Int)
    (junk input : List UInt8) : Option MmResult :=
  mmLoop e fuel ⟨m, address, Width.ofSize size, false⟩ junk input

/-! ## What the operator typed -/

/-- A line of any length, without its newline. -/
structure TypedLine where
  text : List UInt8
  clean : newline ∉ text

namespace TypedLine

def bytes (l : TypedLine) : List UInt8 := l.text ++ [newline]

/-- The line ends the session. -/
def Ends (l : TypedLine) : Prop := l.text.head? = some dot

/-- The line fits into the buffer with its newline, and does not begin with NUL. -/
def Fits (l : TypedLine) : Prop := l.text.length + 1 < lineSize ∧ l.text.head? ≠ some 0

end TypedLine

/-- The input that the lines make. -/
def typed (ls : List TypedLine) : List UInt8 := ls.flatMap TypedLine.bytes

inductive Command
  /-- A number is stored. -/
  | value (v : Nat)
  | up
  | down
  | next
  | stay

/-- What a line, as a C string, asks for. -/
def command (s : List UInt8) : Command :=
  match strtoul s with
  | some v => .value v
  | none =>
    if s.head? = some 0x5e then .up
    else if s.head? = some 0x76 ∨ s.head? = some 0x56 then .down
    else if s.head? = some newline ∨ s.head? = some 0x0d then .next
    else .stay

/-- The step of one command, and the value it stores. -/
def obey (e : Endian) (st : MmState) : Command → MmState × Option Nat
  | .value v =>
    (MmState.advance { st with mem := writeWord e st.mem st.width st.address v }, some v)
  | .up => (MmState.advance { st with back := true }, none)
  | .down => (MmState.advance { st with back := false }, none)
  | .next => (st.advance, none)
  | .stay => (st, none)

/-- One step for each line, up to the first that begins with '.', or to the end. -/
def mmSpec (e : Endian) (st : MmState) : List TypedLine → MmResult
  | [] => ⟨st, [⟨[], st.address, readWord e st.mem st.width st.address, none⟩]⟩
  | l :: ls =>
    let b := obey e st (command (cString l.bytes))
    let p : Prompt :=
      ⟨typed (l :: ls), st.address, readWord e st.mem st.width st.address, b.2⟩
    if l.text.head? = some dot then ⟨b.1, [p]⟩
    else
      let q := mmSpec e b.1 ls
      ⟨q.final, p :: q.prompts⟩

/-- The store of a prompt, to the address that it shows. -/
def Prompt.apply (e : Endian) (w : Width) (m : Bytes) (p : Prompt) : Bytes :=
  match p.stored with
  | some v => writeWord e m w p.address v
  | none => m

/-- The result is that of the lines, and what this means for memory and cursor. -/
structure Exact (e : Endian) (st : MmState) (ls : List TypedLine) (r : MmResult) : Prop where
  fold : r = mmSpec e st ls
  stores : (r.prompts.filter fun p => p.stored.isSome).length ≤ ls.length
  /-- Memory changes by the stores of the prompts only. -/
  own : r.final.mem = r.prompts.foldl (Prompt.apply e st.width) st.mem
  cursor : ∀ a, (a = r.final.address ∨ ∃ p ∈ r.prompts, a = p.address) →
    a.toNat % st.width.bytes = st.address.toNat % st.width.bytes
  frame : ∀ b, (∀ p ∈ r.prompts, p.stored ≠ none → Outside p.address.toNat st.width.bytes b) →
    r.final.mem b = st.mem b

/-- `mm` ends, and has done what was typed. -/
def MmOk (e : Endian) (m : Bytes) (address : BitVec 32) (size : Int) (junk : List UInt8)
    (ls : List TypedLine) : Prop :=
  ∃ fuel r, mm e fuel m address size junk (typed ls) = some r ∧
    Exact e ⟨m, address, Width.ofSize size, false⟩ ls r

/-- Some line ends the session, and those before it fit into the buffer; or nothing is
    typed, and what the stack held ends the loop. -/
def Ending (junk : List UInt8) (ls : List TypedLine) : Prop :=
  (∃ pre l post, ls = pre ++ l :: post ∧ l.Ends ∧ ∀ x ∈ pre, x.Fits) ∨
    ls = [] ∧ goesOn junk = false

/-! ## One turn -/

theorem toupper_toNat (c : UInt8) : (toupper c).toNat =
    if 0x61 ≤ c.toNat ∧ c.toNat ≤ 0x7a then c.toNat - 0x20 else c.toNat := by
  have hlo : (0x61 : UInt8) ≤ c ↔ 0x61 ≤ c.toNat := UInt8.le_iff_toNat_le
  have hhi : c ≤ (0x7a : UInt8) ↔ c.toNat ≤ 0x7a := UInt8.le_iff_toNat_le
  unfold toupper
  by_cases hc : (0x61 : UInt8) ≤ c ∧ c ≤ 0x7a
  · have hn := hc
    rw [hlo, hhi] at hn
    rw [if_pos hc, if_pos hn, UInt8.toNat_sub_of_le]
    · rfl
    · rw [UInt8.le_iff_toNat_le]
      exact le_trans (by decide) hn.1
  · have hn := hc
    rw [hlo, hhi] at hn
    rw [if_neg hc, if_neg hn]

/-- A character that is not a capital letter is the upper case of itself only. -/
theorem toupper_eq {x : UInt8} (hx : ¬ (0x41 ≤ x.toNat ∧ x.toNat ≤ 0x5a))
    (hl : ¬ (0x61 ≤ x.toNat ∧ x.toNat ≤ 0x7a)) (c : UInt8) : toupper c = x ↔ c = x := by
  rw [← UInt8.toNat_inj, ← UInt8.toNat_inj, toupper_toNat]
  split <;> omega

theorem toupper_v (c : UInt8) : toupper c = 0x56 ↔ c = 0x76 ∨ c = 0x56 := by
  have hv : UInt8.toNat 0x76 = 0x76 := rfl
  have hV : UInt8.toNat 0x56 = 0x56 := rfl
  rw [← UInt8.toNat_inj, ← UInt8.toNat_inj, ← UInt8.toNat_inj, toupper_toNat, hv, hV]
  split <;> omega

/-- One turn of the loop is the step of what is in the buffer. -/
theorem mmBody_eq (e : Endian) (st : MmState) (buf : List UInt8) :
    mmBody e st buf = obey e st (command buf) := by
  unfold mmBody command
  cases strtoul buf with
  | some v => rfl
  | none =>
    have hstay : MmState.advance { st with address := st.address - st.size } = st := by
      unfold MmState.advance
      show ({ st with address := st.address - st.size + st.size } : MmState) = st
      rw [BitVec.sub_add_cancel]
    cases buf with
    | nil =>
      show (MmState.advance { st with address := st.address - st.size }, none) = (st, none)
      rw [hstay]
    | cons c s =>
      have hcr := toupper_eq (x := 0x0d) (by decide) (by decide) c
      have hnl := toupper_eq (x := newline) (by decide) (by decide) c
      have hup := toupper_eq (x := 0x5e) (by decide) (by decide) c
      simp only [firstByte, List.headD_cons, List.head?_cons, Option.some.injEq, hup,
        toupper_v, hnl, hcr]
      split
      · rfl
      · split
        · rfl
        · split
          · rfl
          · exact congrArg (fun x => (x, none)) hstay

/-! ## Reading a line -/

theorem typed_cons (l : TypedLine) (ls : List TypedLine) :
    typed (l :: ls) = l.text ++ newline :: typed ls := by
  show l.text ++ [newline] ++ typed ls = _
  rw [List.append_assoc]
  rfl

theorem not_mem_cons {c d : UInt8} {s : List UInt8} (h : c ∉ d :: s) : c ≠ d ∧ c ∉ s := by
  rw [List.mem_cons, not_or] at h
  exact h

theorem fgetsLoop_cons {c : UInt8} (hc : c ≠ newline) (n : Nat) (s : List UInt8) :
    fgetsLoop (n + 1) (c :: s) = (c :: (fgetsLoop n s).1, (fgetsLoop n s).2) :=
  if_neg hc

/-- A line with room for its newline is read as a whole. -/
theorem fgetsLoop_whole {text : List UInt8} (hclean : newline ∉ text) {n : Nat}
    (hn : text.length < n) (rest : List UInt8) :
    fgetsLoop n (text ++ newline :: rest) = (text ++ [newline], rest) := by
  induction text generalizing n with
  | nil =>
    obtain ⟨k, rfl⟩ : ∃ k, n = k + 1 := ⟨n - 1, by omega⟩
    rfl
  | cons c text ih =>
    obtain ⟨hc, htext⟩ := not_mem_cons hclean
    obtain ⟨k, rfl⟩ : ∃ k, n = k + 1 := ⟨n - 1, by omega⟩
    have hk : text.length < k := by
      rw [List.length_cons] at hn
      omega
    rw [List.cons_append, fgetsLoop_cons (Ne.symm hc), ih htext hk]
    rfl

/-- A longer line is cut. -/
theorem fgetsLoop_cut {text : List UInt8} (hclean : newline ∉ text) {n : Nat}
    (hn : n ≤ text.length) (rest : List UInt8) :
    fgetsLoop n (text ++ newline :: rest) = (text.take n, text.drop n ++ newline :: rest) := by
  induction text generalizing n with
  | nil =>
    obtain rfl : n = 0 := Nat.le_zero.mp hn
    rfl
  | cons c text ih =>
    cases n with
    | zero => rfl
    | succ k =>
      obtain ⟨hc, htext⟩ := not_mem_cons hclean
      have hk : k ≤ text.length := Nat.le_of_succ_le_succ hn
      rw [List.cons_append, fgetsLoop_cons (Ne.symm hc), ih htext hk]
      rfl

theorem fgets_ne_nil {input : List UInt8} (hne : input ≠ []) (buf : List UInt8) :
    fgets buf input =
      (cString (fgetsLoop (lineSize - 1) input).1, (fgetsLoop (lineSize - 1) input).2) := by
  cases input with
  | nil => exact absurd rfl hne
  | cons c s => rfl

theorem typed_ne_nil (l : TypedLine) (ls : List TypedLine) : typed (l :: ls) ≠ [] := by
  rw [typed_cons]
  exact List.append_ne_nil_of_right_ne_nil _ (List.cons_ne_nil _ _)

theorem fgets_whole {l : TypedLine} (hl : l.text.length + 1 < lineSize) (ls : List TypedLine)
    (buf : List UInt8) : fgets buf (typed (l :: ls)) = (cString l.bytes, typed ls) := by
  have hlt : l.text.length < lineSize - 1 := by omega
  rw [fgets_ne_nil (typed_ne_nil l ls), typed_cons, fgetsLoop_whole l.clean hlt]
  rfl

theorem fgets_cut {l : TypedLine} (hl : lineSize ≤ l.text.length + 1) (ls : List TypedLine)
    (buf : List UInt8) : fgets buf (typed (l :: ls)) =
      (cString (l.text.take (lineSize - 1)),
        l.text.drop (lineSize - 1) ++ newline :: typed ls) := by
  have hle : lineSize - 1 ≤ l.text.length := by omega
  rw [fgets_ne_nil (typed_ne_nil l ls), typed_cons, fgetsLoop_cut l.clean hle]

/-- What is read from a line begins as the line does. -/
theorem fgets_head (l : TypedLine) (ls : List TypedLine) (buf : List UInt8) :
    ∃ s, (fgets buf (typed (l :: ls))).1 = cString s ∧ s.head? = l.bytes.head? := by
  rcases Nat.lt_or_ge (l.text.length + 1) lineSize with hl | hl
  · rw [fgets_whole hl]
    exact ⟨l.bytes, rfl, rfl⟩
  · rw [fgets_cut hl]
    refine ⟨_, rfl, ?_⟩
    unfold TypedLine.bytes
    cases htext : l.text with
    | nil =>
      rw [htext] at hl
      exact absurd hl (by decide)
    | cons c text => rfl

/-! ## Where the loop ends -/

theorem cString_head {s : List UInt8} {c : UInt8} (hs : s.head? = some c) (hc : c ≠ 0) :
    (cString s).head? = some c := by
  cases s with
  | nil => cases hs
  | cons d s =>
    obtain rfl := Option.some.inj hs
    unfold cString
    rw [List.takeWhile_cons_of_pos (by simpa using hc)]
    rfl

theorem cString_nul {s : List UInt8} (hs : s.head? = some 0) : cString s = [] := by
  cases s with
  | nil => cases hs
  | cons d s =>
    obtain rfl := Option.some.inj hs
    rfl

theorem goesOn_head {buf : List UInt8} {c : UInt8} (hbuf : buf.head? = some c) :
    goesOn buf = true ↔ c ≠ dot := by
  cases buf with
  | nil => cases hbuf
  | cons d s =>
    obtain rfl := Option.some.inj hbuf
    show (decide ((d :: s).length ≠ 0) && decide (dot ≠ d)) = true ↔ d ≠ dot
    rw [Bool.and_eq_true, decide_eq_true_iff, decide_eq_true_iff]
    exact ⟨fun h => h.2.symm, fun h => ⟨Nat.succ_ne_zero s.length, h.symm⟩⟩

theorem strtoul_dot (s : List UInt8) : strtoul (dot :: s) = none := by
  simp [strtoul, dot, isSpace, sign, basePrefix, digits, isDigit, digitValue]

/-- '.' is not a number, nor a direction, nor an empty line. -/
theorem command_dot {s : List UInt8} (hs : s.head? = some dot) : command s = .stay := by
  cases s with
  | nil => cases hs
  | cons c s =>
    obtain rfl := Option.some.inj hs
    unfold command
    rw [strtoul_dot]
    rfl

/-- With a buffer that does not end it, the loop does not end once the input has. -/
theorem mmLoop_stuck (e : Endian) {buf : List UInt8} (hbuf : goesOn buf = true) (fuel : Nat)
    (st : MmState) : mmLoop e fuel st buf [] = none := by
  induction fuel generalizing st with
  | zero => rfl
  | succ fuel ih =>
    show (if goesOn buf then (mmLoop e fuel (mmBody e st buf).1 buf []).map _ else _) = none
    rw [if_pos hbuf, ih]
    rfl

/-! ## The fold over the lines -/

/-- A signed size is a multiple of the size. -/
theorem size_mod (back : Bool) (w : Width) :
    (if back then -BitVec.ofNat 32 w.bytes else BitVec.ofNat 32 w.bytes).toNat % w.bytes = 0 := by
  cases back <;> cases w <;> decide

theorem advance_address (st : MmState) :
    st.advance.address.toNat % st.width.bytes = st.address.toNat % st.width.bytes := by
  have hdvd : st.width.bytes ∣ 2 ^ 32 := by
    cases st.width <;> decide
  have hsize : st.size.toNat % st.width.bytes = 0 := size_mod st.back st.width
  show (st.address + st.size).toNat % st.width.bytes = _
  rw [BitVec.toNat_add, Nat.mod_mod_of_dvd _ hdvd, Nat.add_mod, hsize, Nat.add_zero,
    Nat.mod_mod]

/-- What the step of a command does: the width stays, memory changes by the store only, and
    the cursor moves by whole words. -/
theorem obey_spec (e : Endian) (st : MmState) (c : Command) (unread : List UInt8)
    (shown : Nat) :
    (obey e st c).1.width = st.width ∧
      (obey e st c).1.mem =
        Prompt.apply e st.width st.mem ⟨unread, st.address, shown, (obey e st c).2⟩ ∧
      (obey e st c).1.address.toNat % st.width.bytes = st.address.toNat % st.width.bytes := by
  cases c with
  | value v => exact ⟨rfl, rfl, advance_address { st with mem := _ }⟩
  | up => exact ⟨rfl, rfl, advance_address { st with back := true }⟩
  | down => exact ⟨rfl, rfl, advance_address { st with back := false }⟩
  | next => exact ⟨rfl, rfl, advance_address st⟩
  | stay => exact ⟨rfl, rfl, rfl⟩

theorem writeWord_outside (e : Endian) {m : Bytes} {w : Width} {a : BitVec 32} {b : Nat}
    (h : Outside a.toNat w.bytes b) (v : Nat) : writeWord e m w a v b = m b := by
  cases e with
  | big => exact store_outside h
  | little => exact storeLE_outside h

/-- A stored word is the value, cut to the word size. -/
theorem readWord_writeWord (e : Endian) (m : Bytes) (w : Width) (a : BitVec 32) (v : Nat) :
    readWord e (writeWord e m w a v) w a = v % 256 ^ w.bytes := by
  cases e with
  | big =>
    have h := load_store_suffix m w.bytes a.toNat v w.bytes (Nat.le_refl _)
    rw [Nat.add_sub_cancel] at h
    exact h
  | little => exact load_storeLE m w.bytes a.toNat v

theorem apply_frame (e : Endian) (w : Width) {ps : List Prompt} {b : Nat}
    (h : ∀ p ∈ ps, p.stored ≠ none → Outside p.address.toNat w.bytes b) (m : Bytes) :
    ps.foldl (Prompt.apply e w) m b = m b := by
  induction ps generalizing m with
  | nil => rfl
  | cons p ps ih =>
    have hhead : Prompt.apply e w m p b = m b := by
      unfold Prompt.apply
      cases hv : p.stored with
      | none => rfl
      | some v => exact writeWord_outside e (h p List.mem_cons_self (by simp [hv])) v
    rw [List.foldl_cons, ih (fun q hq => h q (List.mem_cons_of_mem p hq)), hhead]

/-- The fold over the lines stores no more often than there are lines, to the addresses
    that are shown, in whole words from the start. -/
theorem mmSpec_exact (e : Endian) (st : MmState) (ls : List TypedLine) :
    Exact e st ls (mmSpec e st ls) := by
  have hmem : ∀ st, (mmSpec e st ls).final.mem =
      (mmSpec e st ls).prompts.foldl (Prompt.apply e st.width) st.mem := by
    induction ls with
    | nil => intro st; rfl
    | cons l ls ih =>
      intro st
      obtain ⟨hwidth, hhead, -⟩ := obey_spec e st (command (cString l.bytes))
        (typed (l :: ls)) (readWord e st.mem st.width st.address)
      unfold mmSpec
      dsimp only
      split
      · exact hhead
      · dsimp only
        rw [List.foldl_cons, ih, hwidth, hhead]
  refine ⟨rfl, ?_, hmem st, ?_, ?_⟩
  · clear hmem
    induction ls generalizing st with
    | nil => exact Nat.le_refl 0
    | cons l ls ih =>
      have htail := ih (obey e st (command (cString l.bytes))).1
      unfold mmSpec
      dsimp only
      split
      · exact le_trans (List.length_filter_le _ _) (Nat.le_add_left 1 ls.length)
      · rw [List.filter_cons, List.length_cons]
        split
        · exact Nat.succ_le_succ htail
        · exact Nat.le_succ_of_le htail
  · clear hmem
    induction ls generalizing st with
    | nil =>
      rintro a (rfl | ⟨p, hp, rfl⟩)
      · rfl
      · rw [List.mem_singleton.mp hp]
    | cons l ls ih =>
      obtain ⟨hwidth, -, hhead⟩ := obey_spec e st (command (cString l.bytes))
        (typed (l :: ls)) (readWord e st.mem st.width st.address)
      have htail := ih (obey e st (command (cString l.bytes))).1
      rw [hwidth, hhead] at htail
      unfold mmSpec
      dsimp only
      split
      · rintro a (rfl | ⟨p, hp, rfl⟩)
        · exact hhead
        · rw [List.mem_singleton.mp hp]
      · rintro a (rfl | ⟨p, hp, rfl⟩)
        · exact htail _ (Or.inl rfl)
        · rcases List.mem_cons.mp hp with rfl | hp
          · rfl
          · exact htail _ (Or.inr ⟨p, hp, rfl⟩)
  · intro b hb
    rw [hmem st]
    exact apply_frame e st.width hb st.mem

/-! ## The loop and the fold -/

/-- The first prompt of the loop stands before the whole input. -/
theorem mmLoop_unread {e : Endian} {fuel : Nat} {st : MmState} {buf input : List UInt8}
    {r : MmResult} (h : mmLoop e fuel st buf input = some r) :
    ∃ p ps, r.prompts = p :: ps ∧ p.unread = input := by
  cases fuel with
  | zero => cases h
  | succ fuel =>
    unfold mmLoop at h
    dsimp only at h
    split at h
    · obtain ⟨q, -, rfl⟩ := Option.map_eq_some_iff.mp h
      exact ⟨_, _, rfl, rfl⟩
    · obtain rfl := Option.some.inj h
      exact ⟨_, _, rfl, rfl⟩

theorem mmSpec_unread (e : Endian) (st : MmState) (ls : List TypedLine) :
    ∃ p ps, (mmSpec e st ls).prompts = p :: ps ∧ p.unread = typed ls := by
  cases ls with
  | nil => exact ⟨_, _, rfl, rfl⟩
  | cons l ls =>
    unfold mmSpec
    dsimp only
    split
    · exact ⟨_, _, rfl, rfl⟩
    · exact ⟨_, _, rfl, rfl⟩

/-- One turn of the loop. -/
theorem mmLoop_succ (e : Endian) (fuel : Nat) (st : MmState) (buf input : List UInt8) :
    mmLoop e (fuel + 1) st buf input =
      if goesOn (fgets buf input).1 then
        (mmLoop e fuel (obey e st (command (fgets buf input).1)).1 (fgets buf input).1
          (fgets buf input).2).map fun q => ⟨q.final,
            ⟨input, st.address, readWord e st.mem st.width st.address,
              (obey e st (command (fgets buf input).1)).2⟩ :: q.prompts⟩
      else some ⟨(obey e st (command (fgets buf input).1)).1,
        [⟨input, st.address, readWord e st.mem st.width st.address,
          (obey e st (command (fgets buf input).1)).2⟩]⟩ := by
  rw [← mmBody_eq]
  rfl

variable {e : Endian} {l : TypedLine}

theorem bytes_head {c : UInt8} (h : l.text.head? = some c) : l.bytes.head? = some c := by
  unfold TypedLine.bytes
  cases htext : l.text with
  | nil =>
    rw [htext] at h
    cases h
  | cons d text =>
    rw [htext] at h
    exact h

/-- A line that begins with '.' ends the loop, whatever its length. -/
theorem mmLoop_ends (hl : l.Ends) (ls : List TypedLine) (st : MmState) (buf : List UInt8) :
    mmLoop e 1 st buf (typed (l :: ls)) = some (mmSpec e st (l :: ls)) := by
  have hbytes := cString_head (bytes_head hl) (by decide : dot ≠ 0)
  obtain ⟨s, hs, hhead⟩ := fgets_head l ls buf
  have hread := cString_head (hhead.trans (bytes_head hl)) (by decide : dot ≠ 0)
  have hstop : ¬ goesOn (cString s) = true := fun h => (goesOn_head hread).mp h rfl
  have hspec : mmSpec e st (l :: ls) = ⟨st,
      [⟨typed (l :: ls), st.address, readWord e st.mem st.width st.address, none⟩]⟩ := by
    have hdot : l.text.head? = some dot := hl
    unfold mmSpec
    dsimp only
    rw [if_pos hdot, command_dot hbytes]
    rfl
  rw [mmLoop_succ, hs, if_neg hstop, command_dot hread, hspec]
  rfl

/-- A line that fits into the buffer goes on, unless it begins with '.'. -/
theorem goesOn_fits (hl : l.Fits) (hdot : ¬ l.Ends) : goesOn (cString l.bytes) = true := by
  have hhead : ∃ c, l.bytes.head? = some c ∧ c ≠ 0 ∧ c ≠ dot := by
    unfold TypedLine.bytes
    cases htext : l.text with
    | nil => exact ⟨newline, rfl, by decide, by decide⟩
    | cons c text =>
      refine ⟨c, rfl, ?_, ?_⟩
      · rintro rfl
        exact hl.2 (by rw [htext]; rfl)
      · rintro rfl
        exact hdot (by unfold TypedLine.Ends; rw [htext]; rfl)
  obtain ⟨c, hc, hne, hdot'⟩ := hhead
  exact (goesOn_head (cString_head hc hne)).mpr hdot'

/-- Such a line takes one turn. -/
theorem mmLoop_fits (hl : l.Fits) (hdot : ¬ l.Ends) (ls : List TypedLine) (fuel : Nat)
    (st : MmState) (buf : List UInt8) :
    mmLoop e (fuel + 1) st buf (typed (l :: ls)) =
      (mmLoop e fuel (obey e st (command (cString l.bytes))).1 (cString l.bytes)
        (typed ls)).map fun q => ⟨q.final,
          ⟨typed (l :: ls), st.address, readWord e st.mem st.width st.address,
            (obey e st (command (cString l.bytes))).2⟩ :: q.prompts⟩ := by
  rw [mmLoop_succ, fgets_whole hl.1, if_pos (goesOn_fits hl hdot)]

theorem mmSpec_cons (hdot : ¬ l.Ends) (ls : List TypedLine) (st : MmState) :
    mmSpec e st (l :: ls) =
      ⟨(mmSpec e (obey e st (command (cString l.bytes))).1 ls).final,
        ⟨typed (l :: ls), st.address, readWord e st.mem st.width st.address,
          (obey e st (command (cString l.bytes))).2⟩ ::
        (mmSpec e (obey e st (command (cString l.bytes))).1 ls).prompts⟩ := by
  conv_lhs => unfold mmSpec
  exact if_neg hdot

/-- Lines that fit, and one that begins with '.', are read as they were typed. -/
theorem mmLoop_ending {pre : List TypedLine} (hpre : ∀ x ∈ pre, x.Fits) (hl : l.Ends)
    (post : List TypedLine) (st : MmState) (buf : List UInt8) :
    ∃ fuel, mmLoop e fuel st buf (typed (pre ++ l :: post)) =
      some (mmSpec e st (pre ++ l :: post)) := by
  induction pre generalizing st buf with
  | nil => exact ⟨1, mmLoop_ends hl post st buf⟩
  | cons x pre ih =>
    by_cases hx : x.Ends
    · exact ⟨1, mmLoop_ends hx _ st buf⟩
    · obtain ⟨fuel, hfuel⟩ := ih (fun y hy => hpre y (List.mem_cons_of_mem x hy))
        (obey e st (command (cString x.bytes))).1 (cString x.bytes)
      refine ⟨fuel + 1, ?_⟩
      rw [List.cons_append, mmLoop_fits (hpre x List.mem_cons_self) hx, hfuel, mmSpec_cons hx]
      rfl

/-- When nothing is typed, what the stack held may end the loop. -/
theorem mmLoop_junk {junk : List UInt8} (hjunk : goesOn junk = false) (st : MmState) :
    mmLoop e 1 st junk [] = some (mmSpec e st []) := by
  have hstay : command junk = .stay := by
    cases junk with
    | nil => rfl
    | cons c s =>
      refine command_dot (congrArg some ?_)
      by_contra hc
      rw [(goesOn_head rfl).mpr hc] at hjunk
      cases hjunk
  have hread : fgets junk [] = (junk, []) := rfl
  rw [mmLoop_succ, hread, if_neg (by rw [hjunk]; decide), hstay]
  rfl

/-- What is left of a line that was cut is not the input behind the line. -/
theorem drop_ne_typed (text : List UInt8) (n : Nat) (s : List UInt8) :
    text.drop n ++ newline :: s ≠ s := by
  intro h
  have hlen := congrArg List.length h
  rw [List.length_append, List.length_cons] at hlen
  omega

/-- If the loop ends as the lines say, they end it. -/
theorem ending_of_loop {ls : List TypedLine} {fuel : Nat} {st : MmState} {buf : List UInt8}
    (h : mmLoop e fuel st buf (typed ls) = some (mmSpec e st ls)) : Ending buf ls := by
  induction ls generalizing fuel st buf with
  | nil =>
    refine Or.inr ⟨rfl, ?_⟩
    by_contra hgo
    have hstuck := mmLoop_stuck e (Bool.of_not_eq_false hgo) fuel st
    rw [show typed [] = [] from rfl, hstuck] at h
    cases h
  | cons l ls ih =>
    by_cases hdot : l.Ends
    · exact Or.inl ⟨[], l, ls, rfl, hdot, fun x hx => nomatch hx⟩
    obtain ⟨fuel, rfl⟩ : ∃ k, fuel = k + 1 := by
      cases fuel with
      | zero => cases h
      | succ k => exact ⟨k, rfl⟩
    obtain ⟨p, ps, hps, hunread⟩ :=
      mmSpec_unread e (obey e st (command (cString l.bytes))).1 ls
    rw [mmSpec_cons hdot, hps] at h
    by_cases hgo : goesOn (fgets buf (typed (l :: ls))).1 = true
    · rcases Nat.lt_or_ge (l.text.length + 1) lineSize with hlen | hlen
      · have hfits : l.Fits := by
          refine ⟨hlen, ?_⟩
          intro hnul
          rw [fgets_whole hlen, cString_nul (bytes_head hnul)] at hgo
          cases hgo
        rw [mmLoop_fits hfits hdot] at h
        obtain ⟨q, hq, heq⟩ := Option.map_eq_some_iff.mp h
        obtain ⟨hfinal, hprompts⟩ := MmResult.mk.inj heq
        have hspec : q = mmSpec e (obey e st (command (cString l.bytes))).1 ls := by
          have htail := (List.cons.inj hprompts).2
          rw [← hps] at htail
          cases q
          exact congrArg₂ MmResult.mk hfinal htail
        rw [hspec] at hq
        rcases ih hq with ⟨pre, l', post, rfl, hl', hpre⟩ | ⟨-, hstop⟩
        · refine Or.inl ⟨l :: pre, l', post, rfl, hl', ?_⟩
          intro x hx
          rcases List.mem_cons.mp hx with rfl | hx
          · exact hfits
          · exact hpre x hx
        · rw [goesOn_fits hfits hdot] at hstop
          cases hstop
      · rw [mmLoop_succ, if_pos hgo] at h
        obtain ⟨q, hq, heq⟩ := Option.map_eq_some_iff.mp h
        obtain ⟨p', ps', hps', hunread'⟩ := mmLoop_unread hq
        have hsame : p' = p := by
          have htail := (List.cons.inj (MmResult.mk.inj heq).2).2
          rw [hps'] at htail
          exact (List.cons.inj htail).1
        rw [fgets_cut hlen] at hunread'
        rw [← hsame, hunread'] at hunread
        exact absurd hunread (drop_ne_typed _ _ _)
    · rw [mmLoop_succ, if_neg hgo] at h
      have hprompts := (MmResult.mk.inj (Option.some.inj h)).2
      exact nomatch (List.cons.inj hprompts).2

/-- **`mm` does what was typed, exactly if a line begins with '.' and every line before it
    fits into the buffer and does not begin with NUL**, or nothing is typed and what the
    stack held ends the loop. -/
theorem mm_ok_iff (e : Endian) (m : Bytes) (address : BitVec 32) (size : Int)
    (junk : List UInt8) (ls : List TypedLine) :
    MmOk e m address size junk ls ↔ Ending junk ls := by
  constructor
  · rintro ⟨fuel, r, hrun, hexact⟩
    rw [hexact.fold] at hrun
    exact ending_of_loop hrun
  · intro hend
    have hrun : ∃ fuel, mm e fuel m address size junk (typed ls) =
        some (mmSpec e ⟨m, address, Width.ofSize size, false⟩ ls) := by
      rcases hend with ⟨pre, l, post, rfl, hl, hpre⟩ | ⟨rfl, hjunk⟩
      · exact mmLoop_ending hpre hl post _ junk
      · exact ⟨1, mmLoop_junk hjunk _⟩
    obtain ⟨fuel, hfuel⟩ := hrun
    exact ⟨fuel, _, hfuel, mmSpec_exact e _ ls⟩

/-- The line "5". -/
def five : TypedLine := ⟨[0x35], by decide⟩

/-- The one line "5" is typed, and `mm` does not end: it goes on storing 5. -/
theorem mm_five (m : Bytes) (junk : List UInt8) (fuel : Nat) :
    mm .big fuel m 0x1000 4 junk (typed [five]) = none := by
  cases fuel with
  | zero => rfl
  | succ fuel =>
    have hfits : five.Fits := ⟨by decide, by decide⟩
    have hdot : ¬ five.Ends := by
      unfold TypedLine.Ends
      decide
    show mmLoop .big (fuel + 1) _ junk (typed [five]) = none
    rw [mmLoop_fits hfits hdot, show typed [] = [] from rfl,
      mmLoop_stuck .big (goesOn_fits hfits hdot)]
    rfl

theorem mm_not_ok : ¬ ∀ e m address size junk ls, MmOk e m address size junk ls := by
  intro h
  obtain ⟨fuel, r, hrun, -⟩ := h .big (fun _ => 0) 0x1000 4 [] [five]
  rw [mm_five] at hrun
  cases hrun

end SsrlApps.MiscUtils
