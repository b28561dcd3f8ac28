/-
  The TCP transfers of miscUtils/ttcp.c.

  Model. A file descriptor that is read is the stream of what its `read`s will return, in
  pieces of any size; what a `write` accepts is the argument `writes`, by the number of the
  call. `nbytes` is the counter of the source, which is a double there. The counter of the
  calls and the clock are left out, and so is `touchdata`, which changes nothing. `nbuf` is an
  int there, and negative values of `-n`, from which the loop counts down past 0, are left out.

  Proved:
  * `nread_some`, `nread_none`: what `Nread` returns, with and without `mread`.
  * `sinkLoop_count`: the sink counts what arrives, in whatever pieces; with `-B` it loses the
    block that an error interrupts.
  * `copyLoop_begins`, `copyLoop_complete`: what is written, in any run and in a good one.
  * `copyLoop_blocks`: with `-B`, the blocks do not depend on the pieces.
  * `transfer_begins`, `transfer_complete`: from the input of the transmitter to the output of
    the receiver.
  * `pattern_eq`: the printable characters, over and over.
  * `source_bytes`: where each byte of the pattern arrives.
-/
import SsrlApps.Lib.SegStream

namespace SsrlApps.Ttcp

open SegStream

/-! ## Reading -/

/-- The loop of `mread`; `acc` is in the buffer. -/
def mreadLoop (n : Nat) (acc : List UInt8) (s : List (Item UInt8)) :
    Option (List UInt8) × List (Item UInt8) :=
  match _h : read (n - acc.length) s with
  | (none, s') => (none, s')
  | (some b, s') =>
    if _hb : b = [] then (some acc, s')
    else if (acc ++ b).length < n then mreadLoop n (acc ++ b) s'
    else (some (acc ++ b), s')
termination_by size s
decreasing_by
  have hsize := size_read _h
  have hpos := List.length_pos_of_ne_nil _hb
  omega

def mread (n : Nat) (s : List (Item UInt8)) : Option (List UInt8) × List (Item UInt8) :=
  mreadLoop n [] s

/-- `Nread` on a TCP socket: the bytes that it puts into the buffer, `none` for an error. -/
def nread (bFlag : Bool) (count : Nat) (s : List (Item UInt8)) :
    Option (List UInt8) × List (Item UInt8) :=
  if bFlag then mread count s else read count s

/-- What `mread` returns: a full block, or the end of the stream. -/
theorem mreadLoop_some {n : Nat} {acc b : List UInt8} {s s' : List (Item UInt8)}
    (hacc : acc.length < n) (h : mreadLoop n acc s = (some b, s')) :
    ∃ c, b = acc ++ c ∧ content s = c ++ content s' ∧ size s' + c.length = size s ∧
      (Clean s' ↔ Clean s) ∧ b.length ≤ n ∧ (b.length = n ∨ s' = []) := by
  fun_induction mreadLoop n acc s with
  | case1 acc s s'' hread => cases h
  | case2 acc s s'' hread =>
    obtain ⟨rfl, rfl⟩ := by simpa only [Prod.mk.injEq, Option.some.injEq] using h
    have hend := read_nil (Nat.sub_pos_of_lt hacc) hread
    have hcontent := content_read hread
    have hsize := size_read hread
    subst hend
    obtain ⟨-, rfl⟩ := by simpa [SegStream.read] using hread
    exact ⟨[], (List.append_nil acc).symm, rfl, rfl, Iff.rfl, Nat.le_of_lt hacc, Or.inr rfl⟩
  | case3 acc s c s'' hread hne hlt ih =>
    obtain ⟨d, hb, hcontent, hsize, hclean, hle, hend⟩ := ih hlt h
    have hfirst := size_read hread
    refine ⟨c ++ d, by rw [hb, List.append_assoc], ?_, ?_, hclean.trans (clean_read hread), hle, hend⟩
    · rw [content_read hread, hcontent, List.append_assoc]
    · rw [List.length_append]
      omega
  | case4 acc s c s'' hread hne hge =>
    obtain ⟨rfl, rfl⟩ := by simpa only [Prod.mk.injEq, Option.some.injEq] using h
    have hlen := read_length hread
    rw [List.length_append] at hge
    refine ⟨c, rfl, content_read hread, size_read hread, clean_read hread, ?_, Or.inl ?_⟩
    · rw [List.length_append]
      omega
    · rw [List.length_append]
      omega

/-- An error interrupts a block. -/
theorem mreadLoop_none {n : Nat} {acc : List UInt8} {s s' : List (Item UInt8)}
    (hacc : acc.length < n) (h : mreadLoop n acc s = (none, s')) :
    ¬ Clean s ∧ acc.length + (content s).length < n := by
  fun_induction mreadLoop n acc s with
  | case1 acc s s'' hread =>
    obtain ⟨hcontent, hbroken⟩ := read_error hread
    rw [hcontent]
    exact ⟨hbroken, hacc⟩
  | case2 acc s s'' hread => cases h
  | case3 acc s c s'' hread hne hlt ih =>
    obtain ⟨hbroken, hshort⟩ := ih hlt h
    rw [clean_read hread] at hbroken
    rw [List.length_append] at hshort
    rw [content_read hread, List.length_append]
    exact ⟨hbroken, by omega⟩
  | case4 acc s c s'' hread hne hge => cases h

/-- What a successful `Nread` does. -/
structure Took (bFlag : Bool) (n : Nat) (s : List (Item UInt8)) (b : List UInt8)
    (s' : List (Item UInt8)) : Prop where
  content : content s = b ++ content s'
  size : size s' + b.length = size s
  clean : Clean s' ↔ Clean s
  length : b.length ≤ n
  /-- Nothing is returned at the end only. -/
  nil : b = [] → s = []
  /-- With `-B`, blocks are full until the end. -/
  full : bFlag = true → b.length = n ∨ s' = []

theorem nread_some {bFlag : Bool} {n : Nat} (hn : 0 < n) {s s' : List (Item UInt8)}
    {b : List UInt8} (h : nread bFlag n s = (some b, s')) : Took bFlag n s b s' := by
  cases bFlag with
  | false =>
    have h : read n s = (some b, s') := h
    refine ⟨content_read h, size_read h, clean_read h, read_length h, ?_, nofun⟩
    rintro rfl
    exact read_nil hn h
  | true =>
    have h : mreadLoop n [] s = (some b, s') := h
    obtain ⟨c, hb, hcontent, hsize, hclean, hle, hend⟩ := mreadLoop_some hn h
    rw [List.nil_append] at hb
    subst hb
    refine ⟨hcontent, hsize, hclean, hle, ?_, fun _ => hend⟩
    rintro rfl
    have hnil : s' = [] := hend.resolve_left (Nat.ne_of_lt hn)
    subst hnil
    match s, hsize with
    | [], _ => rfl
    | .error :: s, hsize => cases hsize
    | .data x xs :: s, hsize => cases hsize

theorem nread_none {bFlag : Bool} {n : Nat} (hn : 0 < n) {s s' : List (Item UInt8)}
    (h : nread bFlag n s = (none, s')) :
    ¬ Clean s ∧ if bFlag then (content s).length < n else content s = [] := by
  cases bFlag with
  | false =>
    obtain ⟨hcontent, hbroken⟩ := read_error h
    exact ⟨hbroken, hcontent⟩
  | true =>
    have h : mreadLoop n [] s = (none, s') := h
    obtain ⟨hbroken, hshort⟩ := mreadLoop_none hn h
    exact ⟨hbroken, by simpa using hshort⟩

/-- When nothing is asked for, nothing is returned. -/
theorem nread_zero {bFlag : Bool} {s s' : List (Item UInt8)} {b : List UInt8}
    (h : nread bFlag 0 s = (some b, s')) : b = [] := by
  have hread : ∀ {b : List UInt8} {s'}, SegStream.read 0 s = (some b, s') → b = [] := fun h =>
    List.length_eq_zero_iff.mp (Nat.le_zero.mp (read_length h))
  cases bFlag with
  | false => exact hread h
  | true =>
    have h : mreadLoop 0 [] s = (some b, s') := h
    unfold mreadLoop at h
    split at h
    · cases h
    · next c s'' hc =>
      rw [dif_pos (hread hc)] at h
      obtain ⟨rfl, -⟩ := by simpa only [Prod.mk.injEq, Option.some.injEq] using h
      rfl

theorem nread_size {bFlag : Bool} {n : Nat} {s s' : List (Item UInt8)} {b : List UInt8}
    (h : nread bFlag n s = (some b, s')) (hb : b ≠ []) : size s' < size s := by
  rcases Nat.eq_zero_or_pos n with rfl | hn
  · exact absurd (nread_zero h) hb
  · have hsize := (nread_some hn h).size
    have hpos := List.length_pos_of_ne_nil hb
    omega

theorem nread_content {bFlag : Bool} {n : Nat} {s s' : List (Item UInt8)} {b : List UInt8}
    (h : nread bFlag n s = (some b, s')) (hb : b ≠ []) : content s = b ++ content s' := by
  rcases Nat.eq_zero_or_pos n with rfl | hn
  · exact absurd (nread_zero h) hb
  · exact (nread_some hn h).content

/-! ## The sink -/

/-- `while ((cnt = Nread(fd, buf, buflen)) > 0) nbytes += cnt`: the counter, and whether there
    was an error. -/
def sinkLoop (bFlag : Bool) (n : Nat) (s : List (Item UInt8)) : Nat × Bool :=
  match _h : nread bFlag n s with
  | (none, _) => (0, true)
  | (some b, s') =>
    if _hb : b = [] then (0, false)
    else
      let r := sinkLoop bFlag n s'
      (b.length + r.1, r.2)
termination_by size s
decreasing_by exact nread_size _h _hb

/-- The sink counts what arrives before an error, but for the block that `-B` has begun. -/
theorem sinkLoop_count (bFlag : Bool) {n : Nat} (hn : 0 < n) (s : List (Item UInt8)) :
    (Clean s → sinkLoop bFlag n s = ((content s).length, false)) ∧
      (¬ Clean s → sinkLoop bFlag n s =
        (if bFlag then (content s).length / n * n else (content s).length, true)) := by
  fun_induction sinkLoop bFlag n s with
  | case1 s s' hread =>
    obtain ⟨hbroken, hend⟩ := nread_none hn hread
    refine ⟨fun hclean => absurd hclean hbroken, fun _ => ?_⟩
    cases bFlag with
    | false =>
      rw [show content s = [] from hend]
      rfl
    | true =>
      rw [if_pos rfl, Nat.div_eq_of_lt (by simpa using hend), Nat.zero_mul]
  | case2 s s' hread =>
    have hnil := (nread_some hn hread).nil rfl
    subst hnil
    exact ⟨fun _ => rfl, fun hbroken => absurd trivial hbroken⟩
  | case3 s b s' hread hb r ih =>
    have htook := nread_some hn hread
    obtain ⟨hclean, hbroken⟩ := ih
    rw [← htook.clean, htook.content, List.length_append]
    refine ⟨fun hs => ?_, fun hs => ?_⟩
    · show (b.length + (sinkLoop bFlag n s').1, (sinkLoop bFlag n s').2) = _
      rw [hclean hs]
    · show (b.length + (sinkLoop bFlag n s').1, (sinkLoop bFlag n s').2) = _
      rw [hbroken hs]
      cases bFlag with
      | false => rfl
      | true =>
        -- the end of a stream with an error is not reached
        have hfull : b.length = n := (htook.full rfl).resolve_right fun hnil => by
          subst hnil
          exact hs trivial
        rw [if_pos rfl, if_pos rfl, hfull, Nat.add_div_left _ hn, Nat.succ_mul, Nat.add_comm]

/-- Five bytes, and then an error: the last one is lost. -/
theorem sinkLoop_count_five : sinkLoop true 2 [.data 1 [2, 3], .data 4 [5], .error] = (4, true) :=
  (sinkLoop_count true (by decide) [.data 1 [2, 3], .data 4 [5], .error]).2 id

/-! ## Copying -/

/-- What a run of a copying loop leaves behind. -/
structure Copied where
  /-- What the `write`s have accepted. -/
  blocks : List (List UInt8)
  nbytes : Nat
  errno : Bool

def Copied.out (c : Copied) : List UInt8 := c.blocks.flatten

/-- The loop that reads a buffer and writes it, of the transmitter (where it reads the
    standard input) and of the receiver. `writes i` is what the `i`th `write` accepts at most,
    `none` for an error; the loop ends unless all is accepted. -/
def copyLoop (bFlag : Bool) (n : Nat) (writes : Nat → Option Nat) (i : Nat)
    (s : List (Item UInt8)) : Copied :=
  match _h : nread bFlag n s with
  | (none, _) => ⟨[], 0, true⟩
  | (some b, s') =>
    if _hb : b = [] then ⟨[], 0, false⟩
    else
      match writes i with
      | none => ⟨[], 0, true⟩
      | some k =>
        if k < b.length then ⟨[b.take k], 0, false⟩
        else
          let r := copyLoop bFlag n writes (i + 1) s'
          ⟨b :: r.blocks, b.length + r.nbytes, r.errno⟩
termination_by size s
decreasing_by exact nread_size _h _hb

section Copy

variable (bFlag : Bool) (n : Nat) (writes : Nat → Option Nat) (i : Nat) (s : List (Item UInt8))

/-- Nothing is written that was not read, in any run, and no more is counted. -/
theorem copyLoop_begins :
    (copyLoop bFlag n writes i s).out <+: content s ∧
      (copyLoop bFlag n writes i s).nbytes ≤ (copyLoop bFlag n writes i s).out.length := by
  fun_induction copyLoop bFlag n writes i s with
  | case1 i s s' hread => exact ⟨ List.nil_prefix, Nat.le_refl 0⟩
  | case2 i s s' hread => exact ⟨ List.nil_prefix, Nat.le_refl 0⟩
  | case3 i s b s' hread hb hwrite => exact ⟨ List.nil_prefix, Nat.le_refl 0⟩
  | case4 i s b s' hread hb k hwrite hk =>
    have hcontent := nread_content hread hb
    refine ⟨?_, Nat.zero_le _⟩
    show [b.take k].flatten <+: content s
    rw [List.flatten_singleton, hcontent]
    exact ( List.take_prefix k b).trans (List.prefix_append b _)
  | case5 i s b s' hread hb k hwrite hk r ih =>
    have hcontent := nread_content hread hb
    obtain ⟨hbegin, hcount⟩ := ih
    refine ⟨?_, ?_⟩
    · show b ++ (copyLoop bFlag n writes (i + 1) s').out <+: content s
      rw [hcontent]
      exact (List.prefix_append_right_inj b).mpr hbegin
    · show b.length + (copyLoop bFlag n writes (i + 1) s').nbytes ≤
        (b ++ (copyLoop bFlag n writes (i + 1) s').out).length
      rw [List.length_append]
      exact Nat.add_le_add_left hcount _

variable {n writes s} (hn : 0 < n) (hclean : Clean s)
include hn hclean

/-- Without errors, and when all is accepted, all is written and counted. -/
theorem copyLoop_complete (hwrites : ∀ i, ∃ k, writes i = some k ∧ n ≤ k) :
    (copyLoop bFlag n writes i s).out = content s ∧
      (copyLoop bFlag n writes i s).nbytes = (content s).length ∧
        (copyLoop bFlag n writes i s).errno = false := by
  fun_induction copyLoop bFlag n writes i s with
  | case1 i s s' hread => exact absurd hclean (nread_none hn hread).1
  | case2 i s s' hread =>
    have hnil := (nread_some hn hread).nil rfl
    subst hnil
    exact ⟨rfl, rfl, rfl⟩
  | case3 i s b s' hread hb hwrite =>
    obtain ⟨k, hk, -⟩ := hwrites i
    rw [hwrite] at hk
    cases hk
  | case4 i s b s' hread hb k hwrite hk =>
    obtain ⟨k', hk', hle⟩ := hwrites i
    rw [hwrite, Option.some_inj] at hk'
    have hlen := (nread_some hn hread).length
    omega
  | case5 i s b s' hread hb k hwrite hk r ih =>
    have htook := nread_some hn hread
    obtain ⟨hout, hcount, herrno⟩ := ih (htook.clean.mpr hclean)
    rw [htook.content, List.length_append]
    refine ⟨?_, ?_, herrno⟩
    · show b ++ (copyLoop bFlag n writes (i + 1) s').out = _
      rw [hout]
    · show b.length + (copyLoop bFlag n writes (i + 1) s').nbytes = _
      rw [hcount]

end Copy

/-- One round of the loop. -/
theorem copyLoop_step (bFlag : Bool) (n : Nat) (writes : Nat → Option Nat) (i : Nat)
    (s : List (Item UInt8)) :
    copyLoop bFlag n writes i s =
      match nread bFlag n s with
      | (none, _) => ⟨[], 0, true⟩
      | (some b, s') =>
        if b = [] then ⟨[], 0, false⟩
        else
          match writes i with
          | none => ⟨[], 0, true⟩
          | some k =>
            if k < b.length then ⟨[b.take k], 0, false⟩
            else
              let r := copyLoop bFlag n writes (i + 1) s'
              ⟨b :: r.blocks, b.length + r.nbytes, r.errno⟩ := by
  rw [copyLoop]
  split
  · next hread => rw [hread]
  · next hread => rw [hread]; rfl

/-- With `-B`, a stream without errors is taken block by block. -/
theorem nread_block {n : Nat} (hn : 0 < n) {s : List (Item UInt8)} (hclean : Clean s) :
    ∃ s', nread true n s = (some ((content s).take n), s') ∧
      content s' = (content s).drop n ∧ Clean s' := by
  match hread : nread true n s with
  | (none, s') => exact absurd hclean (nread_none hn hread).1
  | (some b, s') =>
    have htook := nread_some hn hread
    refine ⟨s', ?_, ?_, htook.clean.mpr hclean⟩
    · rcases htook.full rfl with hfull | hnil
      · rw [htook.content, ← hfull, List.take_left]
      · have hle := htook.length
        rw [htook.content, hnil, show content ([] : List (Item UInt8)) = [] from rfl,
          List.append_nil, List.take_of_length_le hle]
    · rcases htook.full rfl with hfull | hnil
      · rw [htook.content, ← hfull, List.drop_left]
      · have hle := htook.length
        rw [htook.content, hnil, show content ([] : List (Item UInt8)) = [] from rfl,
          List.append_nil, List.drop_eq_nil_of_le hle]

/-- With `-B`, a run depends on what arrives and not on the pieces, also where a `write`
    fails. -/
theorem copyLoop_blocks {n : Nat} (hn : 0 < n) (writes : Nat → Option Nat) (i : Nat)
    {s t : List (Item UInt8)} (hs : Clean s) (ht : Clean t) (h : content s = content t) :
    copyLoop true n writes i s = copyLoop true n writes i t := by
  induction hlen : (content s).length using Nat.strongRecOn generalizing i s t with
  | ind len ih =>
    obtain ⟨s', hreads, hcontents, hs'⟩ := nread_block hn hs
    obtain ⟨t', hreadt, hcontentt, ht'⟩ := nread_block hn ht
    rw [copyLoop_step, copyLoop_step, hreads, hreadt, ← h]
    rw [← h] at hcontentt
    dsimp only
    split
    · rfl
    · next hne =>
      split
      · rfl
      · split
        · rfl
        · have hshorter : (content s').length < len := by
            have hpos : 0 < (content s).length := List.length_pos_of_ne_nil fun hnil =>
              hne (by rw [hnil, List.take_nil])
            rw [hcontents, List.length_drop]
            omega
          rw [ih _ hshorter (i + 1) hs' ht' (hcontents.trans hcontentt.symm) rfl]

theorem copyLoop_blocks_five :
    copyLoop true 2 (fun _ => some 2) 0 [.data 1 [2, 3], .data 4 [5]] =
      copyLoop true 2 (fun _ => some 2) 0 [.data 1 [], .data 2 [3, 4, 5]] :=
  copyLoop_blocks (by decide) _ 0 trivial trivial rfl

/-! ## From end to end -/

section Transfer

variable (n m : Nat) (bFlag : Bool) (writes writes' : Nat → Option Nat)
  {input net : List (Item UInt8)}

/-- What the receiver writes is the beginning of what the transmitter reads: whatever fails,
    when the connection delivers what was written, in order, up to some point. -/
theorem transfer_begins
    (hnet : content net <+: (copyLoop false n writes 0 input).out) :
    (copyLoop bFlag m writes' 0 net).out <+: content input ∧
      (copyLoop bFlag m writes' 0 net).nbytes ≤ (content input).length := by
  obtain ⟨hsent, -⟩ := copyLoop_begins false n writes 0 input
  obtain ⟨hout, hcount⟩ := copyLoop_begins bFlag m writes' 0 net
  have hbegin := (hout.trans hnet).trans hsent
  exact ⟨hbegin, Nat.le_trans hcount hbegin.length_le⟩

/-- When nothing fails, all arrives, and both sides count the same. -/
theorem transfer_complete (hn : 0 < n) (hm : 0 < m)
    (hwrites : ∀ i, ∃ k, writes i = some k ∧ n ≤ k)
    (hwrites' : ∀ i, ∃ k, writes' i = some k ∧ m ≤ k) (hinput : Clean input) (hclean : Clean net)
    (hnet : content net = (copyLoop false n writes 0 input).out) :
    (copyLoop bFlag m writes' 0 net).out = content input ∧
      (copyLoop bFlag m writes' 0 net).nbytes = (copyLoop false n writes 0 input).nbytes := by
  obtain ⟨hsent, hcounted, -⟩ := copyLoop_complete false 0 hn hinput hwrites
  obtain ⟨hout, hcount, -⟩ := copyLoop_complete bFlag 0 hm hclean hwrites'
  rw [hsent] at hnet
  exact ⟨hout.trans hnet, by rw [hcount, hcounted, hnet]⟩

end Transfer

/-- Five bytes, read in two pieces. -/
theorem five_sent :
    (copyLoop false 2 (fun _ => some 8) 0 [.data 1 [2, 3], .data 4 [5]]).out = [1, 2, 3, 4, 5] := by
  have hclean : Clean ([.data 1 [2, 3], .data 4 [5]] : List (Item UInt8)) := trivial
  exact (copyLoop_complete false 0 Nat.two_pos hclean fun _ => ⟨8, rfl, by decide⟩).1

/-- The connection breaks behind the first byte. -/
theorem transfer_begins_broken :
    (copyLoop true 4 (fun _ => some 8) 0 [.data 1 [], .error]).out <+:
        content [.data 1 [2, 3], .data 4 [5]] ∧
      (copyLoop true 4 (fun _ => some 8) 0 [.data 1 [], .error]).nbytes ≤
        (content ([.data 1 [2, 3], .data 4 [5]] : List (Item UInt8))).length :=
  transfer_begins 2 4 true (fun _ => some 8) (fun _ => some 8) (by rw [five_sent]; decide)

theorem transfer_complete_five :
    (copyLoop true 4 (fun _ => some 8) 0 [.data 1 [], .data 2 [3, 4, 5]]).out =
        content [.data 1 [2, 3], .data 4 [5]] ∧
      (copyLoop true 4 (fun _ => some 8) 0 [.data 1 [], .data 2 [3, 4, 5]]).nbytes =
        (copyLoop false 2 (fun _ => some 8) 0 [.data 1 [2, 3], .data 4 [5]]).nbytes :=
  transfer_complete 2 4 true (fun _ => some 8) (fun _ => some 8) (by decide) (by decide)
    (fun _ => ⟨8, rfl, by decide⟩) (fun _ => ⟨8, rfl, by decide⟩) trivial trivial
    (by rw [five_sent]; rfl)

/-! ## The source -/

/-- `isprint`, of ASCII characters -/
def isprint (c : UInt8) : Bool := 0x20 ≤ c.toNat && c.toNat ≤ 0x7e

theorem and_7f (c : UInt8) : (c &&& 0x7f).toNat = c.toNat % 128 := by
  rw [UInt8.toNat_and]
  exact Nat.and_two_pow_sub_one_eq_mod c.toNat 7

theorem succ_mod (c : UInt8) : (c + 1).toNat % 128 = (c.toNat + 1) % 128 := by
  rw [UInt8.toNat_add]
  have : (1 : UInt8).toNat = 1 := rfl
  omega

theorem isprint_and (c : UInt8) :
    isprint (c &&& 0x7f) = true ↔ 32 ≤ c.toNat % 128 ∧ c.toNat % 128 ≤ 126 := by
  unfold isprint
  rw [and_7f, Bool.and_eq_true, decide_eq_true_eq, decide_eq_true_eq]

/-- `while( !isprint((c&0x7F)) ) c++;` -/
def nextPrintable (c : UInt8) : UInt8 :=
  if isprint (c &&& 0x7f) then c else nextPrintable (c + 1)
termination_by (160 - c.toNat % 128) % 128
decreasing_by
  next hno =>
    have hsucc := succ_mod c
    rw [isprint_and] at hno
    omega

/-- `pattern`, with `c` as it is behind the characters before. -/
def patternFrom (c : UInt8) : Nat → List UInt8
  | 0 => []
  | cnt + 1 => (nextPrintable c &&& 0x7f) :: patternFrom (nextPrintable c + 1) cnt

def pattern (cnt : Nat) : List UInt8 := patternFrom 0 cnt

/-- How many characters before the next one, in a row that begins with a blank. -/
def phase (c : UInt8) : Nat :=
  if 32 ≤ c.toNat % 128 ∧ c.toNat % 128 ≤ 126 then c.toNat % 128 - 32 else 0

theorem nextPrintable_mod (c : UInt8) : (nextPrintable c).toNat % 128 = 32 + phase c := by
  fun_induction nextPrintable c with
  | case1 c hyes =>
    have hrange := (isprint_and c).mp hyes
    unfold phase
    rw [if_pos hrange]
    omega
  | case2 c hno ih =>
    have hsucc := succ_mod c
    rw [isprint_and] at hno
    rw [ih]
    unfold phase
    rw [if_neg hno]
    split <;> omega

theorem phase_succ (c : UInt8) : phase (nextPrintable c + 1) = (phase c + 1) % 95 := by
  have hmod := nextPrintable_mod c
  have hsucc := succ_mod (nextPrintable c)
  have hlt : phase c < 95 := by unfold phase; split <;> omega
  show (if 32 ≤ (nextPrintable c + 1).toNat % 128 ∧ (nextPrintable c + 1).toNat % 128 ≤ 126 then
    (nextPrintable c + 1).toNat % 128 - 32 else 0) = (phase c + 1) % 95
  split <;> omega

theorem patternFrom_getElem (c : UInt8) (cnt : Nat) :
    patternFrom c cnt = (List.range cnt).map fun i => UInt8.ofNat (32 + (phase c + i) % 95) := by
  induction cnt generalizing c with
  | zero => rfl
  | succ cnt ih =>
    have hlt : phase c < 95 := by unfold phase; split <;> omega
    have hhead : nextPrintable c &&& 0x7f = UInt8.ofNat (32 + (phase c + 0) % 95) := by
      refine UInt8.toNat_inj.mp ?_
      rw [and_7f, nextPrintable_mod, UInt8.toNat_ofNat']
      omega
    unfold patternFrom
    rw [List.range_succ_eq_map, List.map_cons, List.map_map, ← hhead, ih, phase_succ]
    refine congrArg (_ :: ·) (List.map_congr_left fun i _ => ?_)
    have hi : ((phase c + 1) % 95 + i) % 95 = (phase c + (i + 1)) % 95 := by omega
    rw [hi]
    rfl

theorem pattern_eq (cnt : Nat) :
    pattern cnt = (List.range cnt).map fun i => UInt8.ofNat (32 + i % 95) := by
  have hzero : phase 0 = 0 := rfl
  unfold pattern
  rw [patternFrom_getElem, hzero]
  simp only [Nat.zero_add]

/-- What a run of the source leaves behind. -/
structure Sourced where
  /-- What the `write`s have accepted. -/
  sent : List UInt8
  nbytes : Nat
  errno : Bool

/-- The loop of the transmitter that sends `buf` up to `nbuf` times. -/
def sourceLoop (buf : List UInt8) (writes : Nat → Option Nat) : Nat → Nat → Sourced
  | _, 0 => ⟨[], 0, false⟩
  | i, nbuf + 1 =>
    match writes i with
    | none => ⟨[], 0, true⟩
    | some k =>
      if k < buf.length then ⟨buf.take k, 0, false⟩
      else
        let r := sourceLoop buf writes (i + 1) nbuf
        ⟨buf ++ r.sent, buf.length + r.nbytes, r.errno⟩

section Source

variable (buf : List UInt8) (writes : Nat → Option Nat)

theorem sourceLoop_begins (i nbuf : Nat) :
    (sourceLoop buf writes i nbuf).sent <+: (List.replicate nbuf buf).flatten := by
  fun_induction sourceLoop buf writes i nbuf with
  | case1 i => exact List.prefix_rfl
  | case2 i nbuf hwrite => exact List.nil_prefix
  | case3 i nbuf k hwrite hk => exact (List.take_prefix k buf).trans (List.prefix_append buf _)
  | case4 i nbuf k hwrite hk r ih => exact (List.prefix_append_right_inj buf).mpr ih

/-- Full buffers are counted, and no others. -/
theorem sourceLoop_nbytes (i nbuf : Nat) :
    (sourceLoop buf writes i nbuf).nbytes =
      (sourceLoop buf writes i nbuf).sent.length / buf.length * buf.length := by
  fun_induction sourceLoop buf writes i nbuf with
  | case1 i => simp
  | case2 i nbuf hwrite => simp
  | case3 i nbuf k hwrite hk =>
    have hless : (buf.take k).length / buf.length = 0 := Nat.div_eq_of_lt (by rw [List.length_take]; omega)
    rw [hless, Nat.zero_mul]
  | case4 i nbuf k hwrite hk r ih =>
    show buf.length + (sourceLoop buf writes (i + 1) nbuf).nbytes =
      (buf ++ (sourceLoop buf writes (i + 1) nbuf).sent).length / buf.length * buf.length
    rw [ih, List.length_append]
    rcases Nat.eq_zero_or_pos buf.length with hzero | hpos
    · rw [hzero, Nat.mul_zero, Nat.mul_zero]
    · rw [Nat.add_div_left _ hpos, Nat.succ_mul, Nat.add_comm]

theorem flatten_replicate_getElem (j i : Nat) (hi : i < j * buf.length) :
    (List.replicate j buf).flatten[i]? = buf[i % buf.length]? := by
  induction j generalizing i with
  | zero => rw [Nat.zero_mul] at hi; exact absurd hi (Nat.not_lt_zero i)
  | succ j ih =>
    rw [List.replicate_succ, List.flatten_cons]
    by_cases hlt : i < buf.length
    · rw [List.getElem?_append_left hlt, Nat.mod_eq_of_lt hlt]
    · have hge : buf.length ≤ i := Nat.not_lt.mp hlt
      rw [Nat.succ_mul] at hi
      rw [List.getElem?_append_right hge, ih _ (by omega), ← Nat.mod_eq_sub_mod hge]

end Source

/-- Whatever fails, and in whatever pieces the bytes arrive: byte `i` at the receiver is that of
    the pattern at `i` modulo the size of the buffer. The transmitter counts full buffers. -/
theorem source_bytes (buflen nbuf : Nat) (writes : Nat → Option Nat) {net : List (Item UInt8)}
    (hnet : content net <+: (sourceLoop (pattern buflen) writes 0 nbuf).sent) :
    (∀ i < (content net).length,
      (content net)[i]? = some (UInt8.ofNat (32 + i % buflen % 95))) ∧
      (sourceLoop (pattern buflen) writes 0 nbuf).nbytes =
        (sourceLoop (pattern buflen) writes 0 nbuf).sent.length / buflen * buflen := by
  have hlen : (pattern buflen).length = buflen := by
    rw [pattern_eq, List.length_map, List.length_range]
  refine ⟨fun i hi => ?_, ?_⟩
  · obtain ⟨rest, hrest⟩ := hnet.trans (sourceLoop_begins (pattern buflen) writes 0 nbuf)
    have hlt : i < nbuf * (pattern buflen).length := by
      have htotal := congrArg List.length hrest
      rw [List.length_append, List.length_flatten, List.map_replicate,
        List.sum_replicate_nat] at htotal
      omega
    have hpos : 0 < buflen := by
      rcases Nat.eq_zero_or_pos buflen with rfl | hpos
      · rw [hlen, Nat.mul_zero] at hlt
        exact absurd hlt (Nat.not_lt_zero i)
      · exact hpos
    have hsame : (content net ++ rest)[i]? = (content net)[i]? := List.getElem?_append_left hi
    rw [← hsame, hrest, flatten_replicate_getElem _ _ _ hlt,
      hlen, pattern_eq, List.getElem?_map, List.getElem?_range (Nat.mod_lt i hpos)]
    rfl
  · have hcount := sourceLoop_nbytes (pattern buflen) writes 0 nbuf
    rwa [hlen] at hcount

/-- Two buffers of three bytes, of which the connection delivers four. -/
theorem source_bytes_four :
    (∀ i < (content ([.data 32 [33], .data 34 [32], .error] : List (Item UInt8))).length,
      (content ([.data 32 [33], .data 34 [32], .error] : List (Item UInt8)))[i]? =
        some (UInt8.ofNat (32 + i % 3 % 95))) ∧
      (sourceLoop (pattern 3) (fun _ => some 3) 0 2).nbytes =
        (sourceLoop (pattern 3) (fun _ => some 3) 0 2).sent.length / 3 * 3 := by
  refine source_bytes 3 2 (fun _ => some 3) ?_
  rw [pattern_eq]
  decide

end SsrlApps.Ttcp
