/-
  Whole runs of `vec_malloc`, `vec_calloc` and `vec_free`.

  Every request of such a run can be counted by `size_t` with the 16 bytes of the header
  (`Plain`); `malloc` may fail at any time. What the clients hold is the table `held` of
  the allocator's model; `mallocs` and `ops` say what an event gets from `malloc`, and what
  it reads and frees. A request that `size_t` cannot count is treated at the end.

  Proved:
  * `AllocInv.fresh`: a new block is not under a pointer that is held.
  * `alloc_balance`: in every step, the raw blocks that `malloc` returned are those that
    are freed and those that stand behind a pointer.
  * `vecAlloc_runs`: the blocks are laid out and apart, zeroed blocks are zero, and each
    raw block is freed once, by the pointer that stands for it.
  * `request_held_iff`: which requests get a block that is large enough, or none.
-/
import SsrlApps.Altivec.Realloc

namespace SsrlApps.Altivec

open Heap Bytes

/-! ## What an event gets and frees -/

/-- What `malloc` returns to `vec_malloc(s)`, if it is called and does not fail. -/
def got (abi : Abi) (os : Rtems) (s : Nat) : List Nat :=
  if s = 0 then [] else ((os.malloc (abi.add s 16)).map RawBlock.base).toList

/-- The raw pointers that `malloc` returns during the event. -/
def mallocs (abi : Abi) (st : AllocState) : AllocEvent → List Nat
  | .malloc s os => got abi os s
  | .calloc nmemb s os => got abi os (callocSize abi nmemb s)
  | .realloc p s os =>
    if os.refuses = true ∨ s = 0 then []
    else if p = 0 ∨ os.resizeSegment (st.heap.mem.load abi.word (abi.below p))
        (abi.add s 16) = .unsatisfied then got abi os s
    else []
  | _ => []

/-- What the event reads and frees. -/
def ops (abi : Abi) (st : AllocState) : AllocEvent → List HeapOp
  | .realloc p s os => (vecRealloc abi os st.heap p s).ops
  | .free p => (vecFree abi st.heap p).2
  | _ => []

/-- The block at `a` stands behind a pointer. -/
def Backs (st : AllocState) (a : Nat) : Prop := ∃ p g, st.held p = some g ∧ g.raw = a

/-- No call of `vec_realloc`, and `size_t` can count what is asked for with the header. -/
def Plain (abi : Abi) : AllocEvent → Prop
  | .malloc s _ => s + 16 < abi.space
  | .calloc nmemb s _ => s * nmemb + 16 < abi.space
  | .realloc _ _ _ => False
  | _ => True

/-! ## What a run owes -/

/-- Two pointers' bytes, with the words below them, do not meet. -/
def ExtentsApart (abi : Abi) (p : Nat) (g : Grant) (q : Nat) (k : Grant) : Prop :=
  p + g.size ≤ q - abi.word ∨ q + k.size ≤ p - abi.word

/-- Every block is laid out in its raw block, and apart from the others. -/
structure BlocksOk (abi : Abi) (st : AllocState) : Prop where
  layout : ∀ p g, st.held p = some g → Layout abi st.heap p g
  apart : ∀ p q g k, st.held p = some g → st.held q = some k → p ≠ q → ExtentsApart abi p g q k

/-- What a call owes: `vec_calloc` a zeroed block, `vec_free` that it frees the block
    behind the pointer, which is live, and nothing else. -/
def Pays (abi : Abi) (st : AllocState) : AllocEvent → Prop
  | .calloc nmemb s os =>
    let r := vecCalloc abi os st.heap nmemb s
    r.2 ≠ 0 → ∀ i, i < s * nmemb → r.1.mem (r.2 + i) = 0
  | .free p =>
    p = 0 ∧ ops abi st (.free p) = [] ∨
      ∃ g, st.held p = some g ∧ st.heap.size g.raw ≠ none ∧
        ops abi st (.free p) = [.read (p - abi.word) abi.word, .free g.raw]
  | _ => True

/-! ## The blocks of a state -/

variable {abi : Abi} {st : AllocState} {os : Rtems}

theorem AllocInv.apart (hi : AllocInv abi st) {p q : Nat} {g k : Grant}
    (hp : st.held p = some g) (hq : st.held q = some k) (hne : p ≠ q) :
    ExtentsApart abi p g q k := by
  have hlp := hi.layout p g hp
  have hlq := hi.layout q k hq
  obtain ⟨n, hn, hfit⟩ := hlp.live
  obtain ⟨m, hm, hfit'⟩ := hlq.live
  have hraw : k.raw ≠ g.raw := fun heq => hne (hi.inj p q g k hp hq heq.symm)
  have hheader := hlp.header
  have hheader' := hlq.header
  rcases (hi.wf g.raw n hn).apart k.raw m hraw hm with happart | happart
  · exact Or.inl (by omega)
  · exact Or.inr (by omega)

theorem AllocInv.blocksOk (hi : AllocInv abi st) : BlocksOk abi st where
  layout := hi.layout
  apart := by
    intro p q g k hp hq hne
    exact hi.apart hp hq hne

/-- The aligned pointer to a new block is not held, and the block stands behind none. -/
theorem AllocInv.fresh {b : RawBlock} {s : Nat} (hi : AllocInv abi st)
    (ho : os.Honest abi st.heap) (ha : Ample abi os s) (hs : s ≠ 0)
    (hb : os.malloc (abi.add s 16) = some b) :
    st.held (abi.aligned b.base) = none ∧ ¬ Backs st b.base := by
  obtain ⟨-, -, hnew, hfits⟩ := ho.malloc _ b hb
  have hl := (stamp_layout ho ha hs hb).1
  have hheader : b.base + abi.word ≤ abi.aligned b.base := hl.header
  have hroom := (ha hs b hb).2
  have hold : ¬ Backs st b.base := by
    rintro ⟨p, g, hp, hraw⟩
    obtain ⟨n, hn, -⟩ := (hi.layout p g hp).live
    rw [hraw, hnew] at hn
    cases hn
  refine ⟨?_, hold⟩
  cases hp : st.held (abi.aligned b.base) with
  | none => rfl
  | some g =>
    have hlg := hi.layout _ g hp
    obtain ⟨n, hn, hfit⟩ := hlg.live
    have hheader' := hlg.header
    have hpos := hlg.nonempty
    have hne : g.raw ≠ b.base := fun heq => hold ⟨_, g, hp, heq⟩
    rcases hfits.apart g.raw n hne hn with happart | happart
    · omega
    · omega

/-! ## The account of a run -/

theorem got_none {s : Nat} (h : s = 0 ∨ os.malloc (abi.add s 16) = none) :
    got abi os s = [] := by
  unfold got
  rcases h with hs | hm
  · exact if_pos hs
  · rw [hm]
    exact ite_self []

theorem got_some {b : RawBlock} {s : Nat} (hs : s ≠ 0)
    (hb : os.malloc (abi.add s 16) = some b) : got abi os s = [b.base] := by
  unfold got
  rw [if_neg hs, hb]
  rfl

open Classical in
/-- How many of the blocks at `a` stand behind a pointer: one or none. -/
noncomputable def backing (a : Nat) (st : AllocState) : Nat := if Backs st a then 1 else 0

theorem backing_one {a : Nat} (h : Backs st a) : backing a st = 1 := if_pos h

theorem backing_zero {a : Nat} (h : ¬ Backs st a) : backing a st = 0 := if_neg h

theorem backing_congr {st' : AllocState} {a : Nat} (h : Backs st' a ↔ Backs st a) :
    backing a st' = backing a st := by
  by_cases hb : Backs st a
  · rw [backing_one hb, backing_one (h.mpr hb)]
  · rw [backing_zero hb, backing_zero (mt h.mp hb)]

/-- A pointer to a new block adds that block to those that stand behind a pointer. -/
theorem backs_hand {p a b s : Nat} {h : Heap} (hp : st.held p = none) :
    Backs ⟨h, Function.update st.held p (some ⟨b, s⟩)⟩ a ↔ a = b ∨ Backs st a := by
  constructor
  · rintro ⟨q, g, hq, rfl⟩
    rcases Table.entry_set hq with ⟨-, rfl⟩ | ⟨-, hq'⟩
    · exact Or.inl rfl
    · exact Or.inr ⟨q, g, hq', rfl⟩
  · rintro (rfl | ⟨q, g, hq, rfl⟩)
    · exact ⟨p, _, Function.update_self .., rfl⟩
    · have hne : q ≠ p := by
        rintro rfl
        rw [hp] at hq
        cases hq
      exact ⟨q, g, (Function.update_of_ne hne ..).trans hq, rfl⟩

/-- A pointer that is given back takes its block out. -/
theorem backs_drop {p a : Nat} {g : Grant} {h : Heap} (hi : AllocInv abi st)
    (hp : st.held p = some g) :
    Backs ⟨h, Function.update st.held p none⟩ a ↔ a ≠ g.raw ∧ Backs st a := by
  constructor
  · rintro ⟨q, k, hq, rfl⟩
    obtain ⟨hne, hq⟩ := Table.entry_clear hq
    exact ⟨fun heq => hne (hi.inj q p k g hq hp heq), q, k, hq, rfl⟩
  · rintro ⟨hne, q, k, hq, rfl⟩
    have hqp : q ≠ p := by
      rintro rfl
      obtain rfl := Option.some.inj (hp.symm.trans hq)
      exact hne rfl
    exact ⟨q, k, (Function.update_of_ne hqp ..).trans hq, rfl⟩

/-- What `vec_malloc` got is what now stands behind a pointer in addition. -/
theorem AllocInv.backing_grant {s a : Nat} {h : Heap} (hi : AllocInv abi st)
    (ho : os.Honest abi st.heap) (ha : Ample abi os s) :
    (got abi os s).count a + backing a st = backing a
      ⟨h, grant st.held (vecMalloc abi os st.heap s).2 (os.malloc (abi.add s 16)) s⟩ := by
  rcases vecMalloc_cases abi os st.heap s with ⟨hm, hnone⟩ | ⟨b, hs, hb, hm⟩
  · rw [got_none hnone, hm, List.count_nil, Nat.zero_add]
    exact backing_congr Iff.rfl
  · obtain ⟨hp, hold⟩ := hi.fresh ho ha hs hb
    have hl := (stamp_layout ho ha hs hb).1
    rw [got_some hs hb, hm, hb, grant, if_neg hl.ne_zero]
    by_cases hab : b.base = a
    · subst hab
      have hnew := (backs_hand (a := b.base) (b := b.base) (s := s) (h := h) hp).mpr (Or.inl rfl)
      rw [backing_zero hold, List.count_singleton_self]
      exact (backing_one hnew).symm
    · rw [List.count_singleton, if_neg (by simpa using hab), Nat.zero_add]
      refine (backing_congr ((backs_hand hp).trans ?_)).symm
      exact ⟨fun h => h.resolve_left (Ne.symm hab), Or.inr⟩

theorem vecCalloc_snd (abi : Abi) (os : Rtems) (h : Heap) (nmemb s : Nat) :
    (vecCalloc abi os h nmemb s).2 = (vecMalloc abi os h (callocSize abi nmemb s)).2 := by
  unfold vecCalloc
  dsimp only
  split <;> rfl

/-- What `vec_free` frees is what stands behind a pointer no more. -/
theorem AllocInv.backing_free {p a : Nat} (hi : AllocInv abi st)
    (hp : p = 0 ∨ ∃ g, st.held p = some g) :
    backing a st = (ops abi st (.free p)).count (.free a) +
      backing a ⟨(vecFree abi st.heap p).1, Function.update st.held p none⟩ := by
  show backing a st = (vecFree abi st.heap p).2.count (.free a) + _
  by_cases hz : p = 0
  · subst hz
    have hheld : st.held 0 = none := by
      cases h0 : st.held 0 with
      | none => rfl
      | some g => exact absurd rfl (hi.layout 0 g h0).ne_zero
    have hsame : Function.update st.held 0 none = st.held := by
      rw [← hheld]
      exact Function.update_eq_self ..
    rw [vecFree_zero, hsame, List.count_nil, Nat.zero_add]
  · obtain ⟨g, hg⟩ := hp.resolve_left hz
    rw [vecFree_layout (hi.layout p g hg) hi.wf]
    have hdrop := backs_drop (a := a) (h := st.heap.free g.raw) hi hg
    by_cases hag : a = g.raw
    · subst hag
      have hgone := fun hb => (hdrop.mp hb).1 rfl
      rw [backing_one ⟨p, g, hg, rfl⟩, backing_zero hgone]
      simp
    · have hga : g.raw ≠ a := fun heq => hag heq.symm
      rw [backing_congr (hdrop.trans (and_iff_right hag))]
      simp [hga]

/-- In every step, what `malloc` returned is what is freed and what stays behind a
    pointer in addition. -/
theorem alloc_balance {e : AllocEvent} (a : Nat) (hi : AllocInv abi st)
    (hg : (vecAlloc abi).guard st e) (hp : Plain abi e) (ha : AmpleEvent abi e) :
    (mallocs abi st e).count a + backing a st =
      (ops abi st e).count (.free a) + backing a (allocStep abi st e) := by
  cases e with
  | malloc s os =>
    have h := hi.backing_grant (a := a) (h := (vecMalloc abi os st.heap s).1) hg.2 ha
    show (got abi os s).count a + backing a st = 0 + _
    rw [Nat.zero_add]
    exact h
  | calloc nmemb s os =>
    have h := hi.backing_grant (a := a) (h := (vecCalloc abi os st.heap nmemb s).1) hg.2.2 ha
    rw [← vecCalloc_snd] at h
    show (got abi os (callocSize abi nmemb s)).count a + backing a st = 0 + _
    rw [Nat.zero_add]
    exact h
  | realloc p s os => exact hp.elim
  | free p =>
    show 0 + backing a st = _
    rw [Nat.zero_add]
    exact hi.backing_free hg
  | write b v => rfl
  | foreign h => rfl

/-! ## Every run -/

theorem callocSize_eq {nmemb s : Nat} (h : s * nmemb + 16 < abi.space) :
    callocSize abi nmemb s = s * nmemb :=
  Nat.mod_eq_of_lt (by omega)

/-- What is asked for in a plain run fits in the block that `malloc` returns. -/
theorem ample_of_plain {e : AllocEvent} (hg : (vecAlloc abi).guard st e) (hp : Plain abi e) :
    AmpleEvent abi e := by
  cases e with
  | malloc s os => exact ample_of_lt hg.2 hp
  | calloc nmemb s os =>
    refine ample_of_lt hg.2.2 ?_
    rw [callocSize_eq hp]
    exact hp
  | realloc p s os => exact hp.elim
  | _ => trivial

theorem stays_of_plain {e : AllocEvent} (hp : Plain abi e) : Stays abi st e := by
  cases e with
  | realloc p s os => exact hp.elim
  | _ => trivial

/-- `vec_calloc` zeroes the `s * nmemb` bytes of its block. -/
theorem vecCalloc_zeroed {nmemb s : Nat} (h : Heap) (hs : s * nmemb + 16 < abi.space)
    (hne : (vecCalloc abi os h nmemb s).2 ≠ 0) {i : Nat} (hlt : i < s * nmemb) :
    (vecCalloc abi os h nmemb s).1.mem ((vecCalloc abi os h nmemb s).2 + i) = 0 := by
  have hmalloc := hne
  rw [vecCalloc_snd, callocSize_eq hs] at hmalloc
  unfold vecCalloc
  rw [callocSize_eq hs]
  dsimp only
  rw [if_pos hmalloc]
  exact if_pos ⟨Nat.le_add_right .., by omega⟩

theorem AllocInv.pays {e : AllocEvent} (hi : AllocInv abi st)
    (hg : (vecAlloc abi).guard st e) (hp : Plain abi e) : Pays abi st e := by
  cases e with
  | calloc nmemb s os =>
    intro hne i hlt
    exact vecCalloc_zeroed st.heap hp hne hlt
  | free p =>
    rcases hg with rfl | ⟨g, hg⟩
    · exact Or.inl ⟨rfl, rfl⟩
    · have hl := hi.layout p g hg
      obtain ⟨n, hn, -⟩ := hl.live
      refine Or.inr ⟨g, hg, ?_, congrArg Prod.snd (vecFree_layout hl hi.wf)⟩
      rw [hn]
      exact Option.some_ne_none n
  | _ => trivial

theorem plain_step {e : AllocEvent} (hi : AllocInv abi st) (hg : (vecAlloc abi).guard st e)
    (hp : Plain abi e) : AllocInv abi ((vecAlloc abi).step st e) :=
  allocStep_inv st e hi hg (ample_of_plain hg hp) (stays_of_plain hp)

/-- **The aligned allocator is sound over every run without `vec_realloc`.** In every state
    each block is laid out in the raw block that was got for it and the blocks are apart;
    every call pays what it owes; and at every address `malloc` has returned as many blocks
    as were freed, and one more exactly if one stands behind a pointer. -/
theorem vecAlloc_runs (abi : Abi) {h : Heap} (hw : Wf abi.space h) {es : List AllocEvent}
    (hes : (vecAlloc abi).Legal (allocInit h) es)
    (hplain : (vecAlloc abi).Always (fun _ e => Plain abi e) (allocInit h) es) :
    BlocksOk abi ((vecAlloc abi).exec (allocInit h) es) ∧
      (vecAlloc abi).Always (Pays abi) (allocInit h) es ∧
      ∀ a, (vecAlloc abi).total (fun st e => (mallocs abi st e).count a) (allocInit h) es =
        (vecAlloc abi).total (fun st e => (ops abi st e).count (.free a)) (allocInit h) es +
          backing a ((vecAlloc abi).exec (allocInit h) es) := by
  have hinit := allocInit_inv hw
  have hrun : (vecAlloc abi).Always (Pays abi) (allocInit h) es ∧
      AllocInv abi ((vecAlloc abi).exec (allocInit h) es) := by
    refine Guarded.always_of ?_ hinit hes hplain
    intro st e hi hg hp
    exact ⟨hi.pays hg hp, plain_step hi hg hp⟩
  refine ⟨hrun.2.blocksOk, hrun.1, ?_⟩
  intro a
  have hnone : backing a (allocInit h) = 0 := by
    refine backing_zero ?_
    rintro ⟨p, g, hp, -⟩
    cases hp
  have hsum := Guarded.balance (w := backing a) (fun st e hi hg hp =>
    ⟨alloc_balance a hi hg hp (ample_of_plain hg hp), plain_step hi hg hp⟩) hinit hes hplain
  rw [hnone, Nat.add_zero] at hsum
  exact hsum

/-- `vec_malloc(32)` returns 0x1010 and `vec_calloc(3, 5)` 0x2010; a byte of the first block
    is written, and the block is freed. -/
def twoBlocks : List AllocEvent :=
  [.malloc 32 firstSystem, .calloc 3 5 growing, .write 0x1011 7, .free 0x1010]

theorem twoBlocks_legal :
    (vecAlloc .ilp32).Legal (allocInit emptyHeap) twoBlocks := by
  refine ⟨⟨by decide, firstSystem_honest⟩, ⟨by decide, by decide, growing_honest⟩, ?_, ?_,
    trivial⟩
  · exact ⟨0x1010, ⟨0x1008, 32⟩, 48, rfl, rfl, by decide, by decide⟩
  · exact Or.inr ⟨⟨0x1008, 32⟩, rfl⟩

/-- The second block is still there: one block at 0x2008 was got more than freed. -/
theorem vecAlloc_runs_twoBlocks :
    BlocksOk .ilp32 ((vecAlloc .ilp32).exec (allocInit emptyHeap) twoBlocks) ∧
      (vecAlloc .ilp32).total (fun st e => (mallocs .ilp32 st e).count 0x2008)
          (allocInit emptyHeap) twoBlocks =
        (vecAlloc .ilp32).total (fun st e => (ops .ilp32 st e).count (.free 0x2008))
          (allocInit emptyHeap) twoBlocks + 1 := by
  have hplain : (vecAlloc .ilp32).Always (fun _ e => Plain .ilp32 e) (allocInit emptyHeap)
      twoBlocks := by
    refine ⟨?_, ?_, trivial, trivial, trivial⟩
    · show 32 + 16 < Abi.space .ilp32
      decide
    · show 5 * 3 + 16 < Abi.space .ilp32
      decide
  obtain ⟨hblocks, -, hsum⟩ := vecAlloc_runs .ilp32 wf_emptyHeap twoBlocks_legal hplain
  refine ⟨hblocks, (hsum 0x2008).trans ?_⟩
  rw [backing_one ⟨0x2010, ⟨0x2008, 15⟩, rfl, rfl⟩]

/-! ## Requests that do not fit in `size_t` -/

/-- Of a request for `wanted` bytes, made to `vec_malloc` as `s`, and answered by `rval`: the
    bytes are there, in the block that `malloc` returned, and a request that cannot be
    counted with its header got 0. -/
structure Held (abi : Abi) (os : Rtems) (wanted s rval : Nat) : Prop where
  room : rval ≠ 0 → ∃ b, os.malloc (abi.add s 16) = some b ∧
    b.base ≤ rval ∧ rval + wanted ≤ b.base + b.size
  refused : abi.space ≤ wanted + 16 → rval = 0

/-- The bytes and the header fit in `size_t`; or what is left of them is 0, or is not to be
    had: `malloc` fails, or its block is in the last 16 bytes of memory. -/
def Countable (abi : Abi) (os : Rtems) (wanted : Nat) : Prop :=
  wanted + 16 < abi.space ∨ wanted % abi.space = 0 ∨
    ∀ b, os.malloc (abi.add (wanted % abi.space) 16) = some b → abi.add b.base 16 < 16

variable {h : Heap}

theorem aligned_eq_zero {x : Nat} : abi.aligned x = 0 ↔ abi.add x 16 < 16 := by
  unfold Abi.aligned
  omega

/-- `vec_malloc` returns 0 for a request of 0 bytes, or when it does not get a block. -/
theorem vecMalloc_zero {s : Nat} : (vecMalloc abi os h s).2 = 0 ↔
    s = 0 ∨ ∀ b, os.malloc (abi.add s 16) = some b → abi.add b.base 16 < 16 := by
  rcases vecMalloc_cases abi os h s with ⟨hm, hnone⟩ | ⟨b, hs, hb, hm⟩
  · rw [hm]
    refine iff_of_true rfl (hnone.imp_right fun hnone b hb => ?_)
    rw [hnone] at hb
    cases hb
  · rw [hm]
    show abi.aligned b.base = 0 ↔ _
    rw [aligned_eq_zero, hb]
    constructor
    · intro hlow
      refine Or.inr fun b' hb' => ?_
      obtain rfl := Option.some.inj hb'
      exact hlow
    · intro hor
      exact hor.resolve_left hs b rfl

theorem vecCalloc_rval {nmemb s : Nat} : (vecCalloc abi os h nmemb s).2 =
    (vecMalloc abi os h (callocSize abi nmemb s)).2 := by
  unfold vecCalloc
  dsimp only
  split <;> rfl

/-- A request for the remainder of `wanted` is good for `wanted` bytes exactly if it is
    countable. -/
theorem held_iff (ho : os.Honest abi h) (wanted : Nat) :
    Held abi os wanted (wanted % abi.space) (vecMalloc abi os h (wanted % abi.space)).2 ↔
      Countable abi os wanted := by
  by_cases hfit : wanted + 16 < abi.space
  · refine iff_of_true ⟨?_, fun hbig => absurd hbig (Nat.not_le.mpr hfit)⟩ (Or.inl hfit)
    have hmod : wanted % abi.space = wanted := Nat.mod_eq_of_lt (by omega)
    rw [hmod]
    rcases vecMalloc_cases abi os h wanted with ⟨hm, -⟩ | ⟨b, hs, hb, hm⟩
    · rw [hm]
      exact fun hne => absurd rfl hne
    · rw [hm]
      intro _
      obtain ⟨hle, hroom⟩ := ample_of_lt ho hfit hs b hb
      exact ⟨b, hb, hle, hroom⟩
  · have hbig : abi.space ≤ wanted + 16 := Nat.not_lt.mp hfit
    constructor
    · intro hheld
      exact Or.inr (vecMalloc_zero.mp (hheld.refused hbig))
    · intro hc
      have hzero := (vecMalloc_zero (h := h)).mpr (hc.resolve_left hfit)
      exact ⟨fun hne => absurd hzero hne, fun _ => hzero⟩

/-- **`vec_malloc` and `vec_calloc` return no block that is too small, exactly when the
    request is countable.** A header that wraps leaves a few bytes for the whole block, a
    product that wraps any number of them. -/
theorem request_held_iff (abi : Abi) {os : Rtems} {h : Heap} (ho : os.Honest abi h) :
    (∀ s, s < abi.space →
      (Held abi os s s (vecMalloc abi os h s).2 ↔ Countable abi os s)) ∧
    ∀ nmemb s, nmemb < abi.space → s < abi.space →
      (Held abi os (s * nmemb) (callocSize abi nmemb s) (vecCalloc abi os h nmemb s).2 ↔
        Countable abi os (s * nmemb)) := by
  constructor
  · intro s hs
    have hiff := held_iff ho s
    rw [Nat.mod_eq_of_lt hs] at hiff
    exact hiff
  · intro nmemb s _ _
    rw [vecCalloc_rval]
    exact held_iff ho (s * nmemb)

theorem request_held_iff_plain :
    Held .ilp32 firstSystem 32 32 (vecMalloc .ilp32 firstSystem emptyHeap 32).2 :=
  ((request_held_iff .ilp32 firstSystem_honest).1 32 (by decide)).mpr (Or.inl (by decide))

/-- `vec_malloc(0xfffffffc)` gets 48 bytes, and so does `vec_calloc(0x10000001, 16)`. -/
theorem request_short :
    (vecMalloc .ilp32 firstSystem emptyHeap 0xfffffffc).2 = 0x1010 ∧
      (vecCalloc .ilp32 firstSystem emptyHeap 0x10000001 16).2 = 0x1010 ∧
      ¬ ∀ abi os h, os.Honest abi h →
        (∀ s, s < abi.space → Held abi os s s (vecMalloc abi os h s).2) ∧
        ∀ nmemb s, nmemb < abi.space → s < abi.space →
          Held abi os (s * nmemb) (callocSize abi nmemb s) (vecCalloc abi os h nmemb s).2 := by
  have hrval : (vecCalloc .ilp32 firstSystem emptyHeap 0x10000001 16).2 = 0x1010 := by
    rw [vecCalloc_rval]
    decide
  refine ⟨by decide, hrval, fun hclaim => ?_⟩
  have hheld := (hclaim .ilp32 firstSystem emptyHeap firstSystem_honest).2 0x10000001 16
    (by decide) (by decide)
  have hzero := hheld.refused (by decide)
  rw [hrval] at hzero
  exact absurd hzero (by decide)

end SsrlApps.Altivec
