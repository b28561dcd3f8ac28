/-
  `vec_realloc` over whole runs of the aligned allocator.

  `ReallocOk` is what a call owes the client. A result other than 0 is aligned, lies with
  its bytes in one live block whose address is in the word below it, holds the old
  contents, was made by reading the old block only, and the old block was freed once if
  the pointer moved. A result of 0 leaves the pointer, its contents and the table of live
  blocks as they were.

  A call that stays where it is, or that is refused, pays. One that moves does not: it takes
  the aligned pointer that `vec_malloc` returned for a raw one, aligns it again and stores
  it as the raw pointer of the new block (`Relocates`).

  Proved:
  * `vecRealloc_held`, `relocate_moved`: what a call does.
  * `relocate_not_ok`: a call that moves never pays.
  * `realloc_ok_iff`: every call of a run pays exactly if no call of it moves.
-/
import SsrlApps.Altivec.VecAlloc

namespace SsrlApps.Altivec

open Heap Bytes

/-! ## What a call owes -/

/-- The block behind `p`, of `n` bytes, was kept or moved to hold `s` bytes at `r.rval`. -/
structure Reallocated (abi : Abi) (h : Heap) (p s : Nat) (g : Grant) (n : Nat)
    (r : ReallocResult) : Prop where
  aligned : r.rval % 16 = 0
  inside : ∃ raw k, r.heap.size raw = some k ∧ raw + abi.word ≤ r.rval ∧
    r.rval + s ≤ raw + k ∧ r.heap.mem.load abi.word (abi.below r.rval) = raw
  contents : ∀ i, i < min (g.raw + n - p) s → r.heap.mem (r.rval + i) = h.mem (p + i)
  reads : ∀ a k, .read a k ∈ r.ops → g.raw ≤ a ∧ a + k ≤ g.raw + n
  freedOnce : r.rval ≠ p → r.ops.count (.free g.raw) = 1

/-- The pointer, its contents and the live blocks are what they were. -/
structure Untouched (abi : Abi) (h : Heap) (p : Nat) (g : Grant) (n : Nat)
    (r : ReallocResult) : Prop where
  layout : Layout abi r.heap p g
  contents : AgreeOn h.mem r.heap.mem p (g.raw + n - p)
  noExtra : r.heap.size = h.size

structure ReallocOk (abi : Abi) (h : Heap) (p s : Nat) (g : Grant) (n : Nat)
    (r : ReallocResult) : Prop where
  moved : r.rval ≠ 0 → Reallocated abi h p s g n r
  refused : r.rval = 0 → Untouched abi h p g n r

/-- Every call of `vec_realloc` on a held pointer pays what it owes. -/
def CallOk (abi : Abi) (st : AllocState) : AllocEvent → Prop
  | .realloc p s os => s ≠ 0 → ∀ g n, st.held p = some g → st.heap.size g.raw = some n →
      ReallocOk abi st.heap p s g n (vecRealloc abi os st.heap p s)
  | _ => True

/-- The call goes through, the segment behind `p` cannot be resized in place, and there is
    a new block. -/
def Relocates (abi : Abi) (st : AllocState) (p s : Nat) (os : Rtems) : Prop :=
  os.refuses = false ∧ s ≠ 0 ∧
    (∃ g, st.held p = some g ∧ os.resizeSegment g.raw (abi.add s 16) = .unsatisfied) ∧
    os.malloc (abi.add s 16) ≠ none

def Stays (abi : Abi) (st : AllocState) : AllocEvent → Prop
  | .realloc p s os => ¬ Relocates abi st p s os
  | _ => True

/-- What a new pointer gets is what was asked for. -/
def AmpleEvent (abi : Abi) : AllocEvent → Prop
  | .malloc s os => Ample abi os s
  | .calloc nmemb s os => Ample abi os (callocSize abi nmemb s)
  | .realloc p s os => p = 0 → Ample abi os s
  | _ => True

/-! ## What a call does -/

variable {abi : Abi} {h : Heap} {os : Rtems} {p s : Nat} {g : Grant}

theorem vecRealloc_refused (h : Heap) (p s : Nat) (hr : os.refuses = true) :
    vecRealloc abi os h p s = ⟨h, 0, [], false⟩ := if_pos hr

/-- With `s = 0`, `vec_realloc` is `vec_free`. -/
theorem vecRealloc_size_zero (h : Heap) (p : Nat) (hr : os.refuses = false) :
    vecRealloc abi os h p 0 = ⟨(vecFree abi h p).1, 0, (vecFree abi h p).2, false⟩ := by
  unfold vecRealloc
  rw [hr]
  rfl

/-- With `p = 0`, `vec_realloc` is `vec_malloc`. -/
theorem vecRealloc_null (h : Heap) (hr : os.refuses = false) (hs : s ≠ 0) :
    vecRealloc abi os h 0 s =
      ⟨(vecMalloc abi os h s).1, (vecMalloc abi os h s).2, [], false⟩ := by
  unfold vecRealloc
  rw [hr, if_neg Bool.false_ne_true, if_neg hs]
  rfl

/-- On a held pointer the raw pointer is resized, and what follows depends on the outcome. -/
theorem vecRealloc_held (hl : Layout abi h p g) (hw : Wf abi.space h)
    (hr : os.refuses = false) (hs : s ≠ 0) :
    vecRealloc abi os h p s =
      match os.resizeSegment g.raw (abi.add s 16) with
      | .successful n => ⟨h.put g.raw n, p, [.read (p - abi.word) abi.word], false⟩
      | .other => ⟨h, 0, [.read (p - abi.word) abi.word], true⟩
      | .unsatisfied => relocate abi os h p s [.read (p - abi.word) abi.word] := by
  unfold vecRealloc
  rw [hr, if_neg Bool.false_ne_true, if_neg hs, if_neg hl.ne_zero]
  have hbelow := hl.below_eq hw
  have hback : h.mem.load abi.word (p - abi.word) = g.raw := hl.back
  cases hres : os.resizeSegment g.raw (abi.add s 16) <;> simp only [hbelow, hback, hres]

/-- Without a new block nothing happens. -/
theorem relocate_none (h : Heap) (p : Nat) (ops : List HeapOp)
    (hm : os.malloc (abi.add s 16) = none) :
    relocate abi os h p s ops = ⟨h, 0, ops, false⟩ := by
  unfold relocate
  rcases vecMalloc_cases abi os h s with ⟨he, -⟩ | ⟨b, -, hb, -⟩
  · rw [he]
    rfl
  · rw [hm] at hb
    cases hb

/-- When the size of the new segment is not reported, the new block stays behind. -/
theorem relocate_leak {b : RawBlock} (ops : List HeapOp) (p : Nat)
    (hm : vecMalloc abi os h s = (stamp abi h b, abi.aligned b.base))
    (hne : abi.aligned b.base ≠ 0) (hseg : os.segmentSize (abi.aligned b.base) = none) :
    relocate abi os h p s ops = ⟨stamp abi h b, 0, ops, true⟩ := by
  unfold relocate
  rw [hm]
  dsimp only
  rw [if_neg hne, hseg]

/-- Otherwise some block is freed, and the aligned pointer, aligned once more, is returned
    with the aligned pointer in the word below. -/
theorem relocate_moved {b : RawBlock} {segment : Nat} (ops : List HeapOp) (hp : p ≠ 0)
    (hm : vecMalloc abi os h s = (stamp abi h b, abi.aligned b.base))
    (hne : abi.aligned b.base ≠ 0)
    (hseg : os.segmentSize (abi.aligned b.base) = some segment) :
    ∃ m : Bytes, (relocate abi os h p s ops).rval = abi.aligned (abi.aligned b.base) ∧
      (relocate abi os h p s ops).heap.mem =
        m.store abi.word (abi.below (abi.aligned (abi.aligned b.base)))
          (abi.aligned b.base) ∧
      (relocate abi os h p s ops).heap.size =
        ((h.put b.base b.size).free (m.load abi.word (abi.below p))).size := by
  unfold relocate
  rw [hm]
  dsimp only
  rw [if_neg hne, hseg]
  dsimp only
  unfold vecFree
  rw [if_pos hp]
  exact ⟨_, rfl, rfl, rfl⟩

/-! ## A call that moves -/

/-- A word that points into the new block does not name a live block. -/
theorem not_reallocated {b : RawBlock} {a n x : Nat} {m : Bytes} {r : ReallocResult}
    (hfits : Fits abi.space h b.base b.size) (hlo : b.base < a) (hhi : a < b.base + b.size)
    (hmem : r.heap.mem = m.store abi.word (abi.below r.rval) a)
    (hsize : r.heap.size = ((h.put b.base b.size).free x).size) :
    ¬ Reallocated abi h p s g n r := by
  intro hr
  obtain ⟨raw, k, hraw, -, -, hback⟩ := hr.inside
  have htop := hfits.below
  have hlt : a < abi.space := by omega
  have hne : a ≠ b.base := by omega
  rw [hmem, load_store hlt] at hback
  rw [hsize, ← hback] at hraw
  have hlive := (size_of_free_size hraw).2
  rw [put_size_of_ne hne] at hlive
  rcases hfits.apart a k hne hlive with happart | happart
  · omega
  · omega

/-- If the table is the old one, it was the new block that was freed: the word below the
    old pointer had been overwritten, and still is. -/
theorem not_untouched {b : RawBlock} {n a : Nat} {m : Bytes} {r : ReallocResult}
    (hl : Layout abi h p g) (hw : Wf abi.space h) (hn : h.size g.raw = some n)
    (hnew : h.size b.base = none) (hmem : r.heap.mem = m.store abi.word (abi.below 0) a)
    (hsize : r.heap.size =
      ((h.put b.base b.size).free (m.load abi.word (abi.below p))).size) :
    ¬ Untouched abi h p g n r := by
  intro hu
  have hfreed : b.base = m.load abi.word (abi.below p) := by
    by_contra hne
    have hgone : ((h.put b.base b.size).free (m.load abi.word (abi.below p))).size b.base
        = h.size b.base := by rw [← hsize, hu.noExtra]
    rw [free_size_of_ne hne, put_size_self, hnew] at hgone
    cases hgone
  have hback := hu.layout.back
  have hplt := hl.lt_space hw
  have hp16 := hl.aligned
  have hheader := hl.header
  have hagree : AgreeOn m (m.store abi.word (abi.below 0) a) (p - abi.word) abi.word := by
    intro c _ hc
    refine store_outside (Or.inl ?_)
    cases abi <;> simp only [Abi.below, Abi.sub, Abi.space, Abi.word] at * <;> omega
  rw [hmem, load_congr hagree, ← hl.below_eq hw, ← hfreed] at hback
  rw [hback, hn] at hnew
  cases hnew

/-- The new block has no room for a second header. When its size is not reported it stays
    behind; otherwise the word below the result does not name a live block or, when the
    result wraps to 0, the old pointer is lost. -/
theorem relocate_not_ok {n : Nat} (hl : Layout abi h p g) (hw : Wf abi.space h)
    (ho : os.Honest abi h) (hs : s ≠ 0) (hlt : s + 16 < abi.space)
    (hn : h.size g.raw = some n) (hm : os.malloc (abi.add s 16) ≠ none)
    (ops : List HeapOp) : ¬ ReallocOk abi h p s g n (relocate abi os h p s ops) := by
  intro hok
  rcases vecMalloc_cases abi os h s with ⟨-, hz⟩ | ⟨b, -, hb, hmalloc⟩
  · exact hz.elim hs hm
  obtain ⟨hsize, -, hnew, hfits⟩ := ho.malloc _ b hb
  have hl' := (stamp_layout ho (ample_of_lt ho hlt) hs hb).1
  cases hseg : os.segmentSize (abi.aligned b.base) with
  | none =>
    rw [relocate_leak ops p hmalloc hl'.ne_zero hseg] at hok
    have hleak : (h.put b.base b.size).size b.base = h.size b.base :=
      congrFun (hok.refused rfl).noExtra b.base
    rw [put_size_self, hnew] at hleak
    cases hleak
  | some segment =>
    obtain ⟨m, hrval, hmem, htable⟩ := relocate_moved ops hl.ne_zero hmalloc hl'.ne_zero hseg
    by_cases hzero : abi.aligned (abi.aligned b.base) = 0
    · rw [hzero] at hmem
      exact not_untouched hl hw hn hnew hmem htable (hok.refused (hrval.trans hzero))
    · have hadd : abi.add s 16 = s + 16 := Nat.mod_eq_of_lt hlt
      have hword : 0 < abi.word := by cases abi <;> decide
      have hheader : b.base + abi.word ≤ abi.aligned b.base := hl'.header
      have hpad : abi.aligned b.base ≤ b.base + 16 := hl'.padding
      rw [hadd] at hsize
      rw [← hrval] at hmem hzero
      exact not_reallocated hfits (by omega) (by omega) hmem htable (hok.moved hzero)

/-! ## A call that stays -/

/-- A result of 0 that leaves the heap alone pays. -/
theorem untouched_ok {n : Nat} (hl : Layout abi h p g) (ops : List HeapOp) (e : Bool) :
    ReallocOk abi h p s g n ⟨h, 0, ops, e⟩ where
  moved := by intro hne; exact absurd rfl hne
  refused := by intro _; exact ⟨hl, AgreeOn.refl _ _ _, rfl⟩

/-- A segment resized in place still holds the block. -/
theorem resized_layout {m : Nat} (hl : Layout abi h p g) (hs : s ≠ 0) (hm : s + 16 ≤ m) :
    Layout abi (h.put g.raw m) p ⟨g.raw, s⟩ where
  live := by
    have hpad := hl.padding
    exact ⟨m, put_size_self .., by show p + s ≤ g.raw + m; omega⟩
  nonempty := Nat.pos_of_ne_zero hs
  aligned := hl.aligned
  header := hl.header
  padding := hl.padding
  back := hl.back

theorem resized_ok {n m : Nat} (hl : Layout abi h p g) (hw : Wf abi.space h) (hs : s ≠ 0)
    (hn : h.size g.raw = some n) (hm : s + 16 ≤ m) : ReallocOk abi h p s g n
      ⟨h.put g.raw m, p, [.read (p - abi.word) abi.word], false⟩ where
  refused := by intro hz; exact absurd hz hl.ne_zero
  moved := by
    intro _
    have hnew := resized_layout hl hs hm
    obtain ⟨k, hk, hfit⟩ := hl.live
    obtain rfl := Option.some.inj (hk.symm.trans hn)
    obtain ⟨k', hk', hfit'⟩ := hnew.live
    have hheader := hl.header
    refine ⟨hl.aligned, ⟨g.raw, k', hk', hheader, hfit', ?_⟩, ?_, ?_, ?_⟩
    · exact hl.load_below hw
    · intro i _
      rfl
    · intro a j ha
      obtain ⟨rfl, rfl⟩ : a = p - abi.word ∧ j = abi.word := by
        simpa using ha
      omega
    · intro hne
      exact absurd rfl hne

/-- On a held pointer: a call pays exactly if it does not move. -/
theorem callOk_iff {st : AllocState} (hi : AllocInv abi st) (ho : os.Honest abi st.heap)
    (hg : p = 0 ∨ (∃ g, st.held p = some g) ∧ s + 16 < abi.space) :
    CallOk abi st (.realloc p s os) ↔ ¬ Relocates abi st p s os := by
  constructor
  · rintro hok ⟨hr, hs, ⟨g, hp, hres⟩, hm⟩
    have hl := hi.layout p g hp
    obtain ⟨n, hn, -⟩ := hl.live
    have hlt : s + 16 < abi.space := (hg.resolve_left hl.ne_zero).2
    have hcall := hok hs g n hp hn
    rw [vecRealloc_held hl hi.wf hr hs, hres] at hcall
    exact relocate_not_ok hl hi.wf ho hs hlt hn hm _ hcall
  · intro hstay hs g n hp hn
    have hl := hi.layout p g hp
    have hlt : s + 16 < abi.space := (hg.resolve_left hl.ne_zero).2
    have hadd : abi.add s 16 = s + 16 := Nat.mod_eq_of_lt hlt
    cases hr : os.refuses with
    | true =>
      rw [vecRealloc_refused st.heap p s hr]
      exact untouched_ok hl _ _
    | false =>
      rw [vecRealloc_held hl hi.wf hr hs]
      cases hres : os.resizeSegment g.raw (abi.add s 16) with
      | successful m =>
        have hm := (ho.resize _ _ m hres).1
        rw [hadd] at hm
        exact resized_ok hl hi.wf hs hn hm
      | other => exact untouched_ok hl _ _
      | unsatisfied =>
        have hnone : os.malloc (abi.add s 16) = none := by
          by_contra hm
          exact hstay ⟨hr, hs, ⟨g, hp, hres⟩, hm⟩
        dsimp only
        rw [relocate_none st.heap p _ hnone]
        exact untouched_ok hl _ _

/-! ## Runs without a move -/

theorem regrant_refused (held : Nat → Option Grant) (rval : Nat) (hr : os.refuses = true) :
    regrant abi held p s os rval = held := if_pos hr

theorem regrant_go (held : Nat → Option Grant) (rval : Nat) (hr : os.refuses = false) :
    regrant abi held p s os rval =
      if s = 0 then Function.update held p none
      else if rval = 0 then held
      else if rval = p then Function.update held p ((held p).map fun g => ⟨g.raw, s⟩)
      else grant (Function.update held p none) rval (os.malloc (abi.add s 16)) s := by
  unfold regrant
  rw [hr]
  rfl

/-- A segment resized in place stays behind its pointer. -/
theorem AllocInv.resize {st : AllocState} {m : Nat} (hi : AllocInv abi st)
    (hp : st.held p = some g) (hs : s ≠ 0) (hm : s + 16 ≤ m)
    (hfits : Fits abi.space st.heap g.raw m) :
    AllocInv abi ⟨st.heap.put g.raw m, Function.update st.held p (some ⟨g.raw, s⟩)⟩ := by
  have hother : ∀ q k, q ≠ p → st.held q = some k → k.raw ≠ g.raw := by
    intro q k hne hq heq
    exact hne (hi.inj q p k g hq hp heq)
  refine ⟨wf_put hi.wf hfits, ?_, ?_⟩
  · intro q k hq
    rcases Table.entry_set hq with ⟨rfl, rfl⟩ | ⟨hne, hq⟩
    · exact resized_layout (hi.layout q g hp) hs hm
    · exact (hi.layout q k hq).congr (put_size_of_ne (hother q k hne hq) m)
        (AgreeOn.refl _ _ _)
  · exact Table.distinct_set hi.inj hother

/-- A call that does not move keeps the invariant. -/
theorem AllocInv.realloc {st : AllocState} (hi : AllocInv abi st)
    (ho : os.Honest abi st.heap)
    (hg : p = 0 ∨ (∃ g, st.held p = some g) ∧ s + 16 < abi.space)
    (ha : p = 0 → Ample abi os s) (hstay : ¬ Relocates abi st p s os) :
    AllocInv abi (allocStep abi st (.realloc p s os)) := by
  show AllocInv abi ⟨(vecRealloc abi os st.heap p s).heap,
    regrant abi st.held p s os (vecRealloc abi os st.heap p s).rval⟩
  cases hr : os.refuses with
  | true =>
    rw [vecRealloc_refused st.heap p s hr, regrant_refused _ _ hr]
    exact hi
  | false =>
    rw [regrant_go _ _ hr]
    by_cases hs : s = 0
    · subst hs
      rw [vecRealloc_size_zero st.heap p hr, if_pos rfl]
      exact hi.free (hg.imp_right And.left)
    rw [if_neg hs]
    rcases hg with rfl | ⟨⟨g, hp⟩, hlt⟩
    · rw [vecRealloc_null st.heap hr hs]
      dsimp only
      by_cases hz : (vecMalloc abi os st.heap s).2 = 0
      · have hinv := hi.malloc ho (ha rfl)
        rw [grant, if_pos hz] at hinv
        rw [if_pos hz]
        exact hinv
      · rw [if_neg hz, if_neg hz]
        exact (hi.drop 0).malloc ho (ha rfl)
    · have hl := hi.layout p g hp
      have hadd : abi.add s 16 = s + 16 := Nat.mod_eq_of_lt hlt
      rw [vecRealloc_held hl hi.wf hr hs]
      cases hres : os.resizeSegment g.raw (abi.add s 16) with
      | successful m =>
        obtain ⟨hm, -, hfits⟩ := ho.resize _ _ m hres
        rw [hadd] at hm
        dsimp only
        rw [if_neg hl.ne_zero, if_pos rfl, hp]
        exact hi.resize hp hs hm hfits
      | other => exact hi
      | unsatisfied =>
        have hnone : os.malloc (abi.add s 16) = none := by
          by_contra hm
          exact hstay ⟨hr, hs, ⟨g, hp, hres⟩, hm⟩
        dsimp only
        rw [relocate_none st.heap p _ hnone]
        exact hi

theorem allocStep_inv (st : AllocState) (e : AllocEvent) (hi : AllocInv abi st)
    (hg : (vecAlloc abi).guard st e) (ha : AmpleEvent abi e) (hstay : Stays abi st e) :
    AllocInv abi ((vecAlloc abi).step st e) := by
  cases e with
  | malloc s os => exact hi.malloc hg.2 ha
  | calloc nmemb s os => exact hi.calloc hg.2.2 ha
  | realloc p s os => exact hi.realloc hg.2.1 hg.2.2 ha hstay
  | free p => exact hi.free hg
  | write a v =>
    obtain ⟨p, g, n, hp, hn, hlo, hhi⟩ := hg
    exact hi.write hp hn hlo hhi v
  | foreign h => exact hi.foreign hg.1 hg.2

/-- **Every call of `vec_realloc` in a run pays what it owes if and only if none moves.** -/
theorem realloc_ok_iff (abi : Abi) {h : Heap} (hw : Wf abi.space h) {es : List AllocEvent}
    (hes : (vecAlloc abi).Legal (allocInit h) es)
    (hample : (vecAlloc abi).Always (fun _ e => AmpleEvent abi e) (allocInit h) es) :
    (vecAlloc abi).Always (CallOk abi) (allocInit h) es ↔
      (vecAlloc abi).Always (Stays abi) (allocInit h) es := by
  refine Guarded.always_iff ?_ allocStep_inv (allocInit_inv hw) hes hample
  intro st e hi hg _
  cases e with
  | realloc p s os => exact callOk_iff hi hg.2.1 hg.2.2
  | _ => exact Iff.rfl

/-! ## Two runs -/

/-- A system at task level whose next block is `b`. -/
def offering (b : RawBlock) (resize : Nat → Nat → ResizeStatus) (segment : Option Nat) :
    Rtems where
  malloc n := if n ≤ b.size then some b else none
  resizeSegment := resize
  segmentSize _ := segment
  systemIsUp := true
  dispatchDisableLevel := 0
  isrNestLevel := 0

theorem offering_honest {b : RawBlock} {resize : Nat → Nat → ResizeStatus}
    (segment : Option Nat)
    (hword : b.base % abi.word = 0) (hnew : h.size b.base = none)
    (hfits : Fits abi.space h b.base b.size)
    (hres : ∀ a n m, resize a n = .successful m →
      n ≤ m ∧ h.size a ≠ none ∧ Fits abi.space h a m) :
    (offering b resize segment).Honest abi h where
  resize := hres
  malloc := by
    intro n c hc
    simp only [offering] at hc
    split at hc
    · next hn =>
      obtain rfl := Option.some.inj hc
      exact ⟨hn, hword, hnew, hfits⟩
    · cases hc

def emptyHeap : Heap := ⟨fun _ => 0, fun _ => none⟩

/-- `vec_malloc(32)` got the 48 bytes at 0x1008, and returns 0x1010. -/
def firstSystem : Rtems := offering ⟨0x1008, 48⟩ (fun _ _ => .unsatisfied) none

def started : AllocState := allocStep .ilp32 (allocInit emptyHeap) (.malloc 32 firstSystem)

theorem started_held : started.held 0x1010 = some ⟨0x1008, 32⟩ := rfl

theorem started_size : started.heap.size = Function.update (fun _ => none) 0x1008 (some 48) :=
  rfl

theorem wf_emptyHeap : Wf (Abi.space .ilp32) emptyHeap := by
  intro a n ha
  cases ha

theorem firstSystem_honest : firstSystem.Honest .ilp32 emptyHeap := by
  refine offering_honest _ (by decide) rfl ⟨by decide, by decide, ?_⟩ ?_
  · intro c k _ hc
    cases hc
  · intro a n m hr
    cases hr

/-- Above the first block there is room, and the first block can grow. -/
theorem fits_started {a n : Nat} (ha : a = 0x1008 ∨ 0x1038 ≤ a) (hn : a + n ≤ 256 ^ 4) :
    Fits (Abi.space .ilp32) started.heap a n where
  pos := by omega
  below := hn
  apart := by
    intro c k hne hc
    rw [started_size] at hc
    rcases eq_or_ne c 0x1008 with rfl | hc'
    · rw [Function.update_self] at hc
      obtain rfl := Option.some.inj hc
      omega
    · rw [Function.update_of_ne hc'] at hc
      cases hc

/-- The segment at 0x1008 grows in place to 56 bytes. -/
def growing : Rtems := offering ⟨0x2008, 64⟩
  (fun a n => if a = 0x1008 ∧ n ≤ 56 then .successful 56 else .unsatisfied) none

/-- No segment grows in place, and `malloc` has the 64 bytes at 0x2008; `segment` is what is
    reported when the code asks for the size of the segment at 0x2010. -/
def crowded (segment : Option Nat) : Rtems :=
  offering ⟨0x2008, 64⟩ (fun _ _ => .unsatisfied) segment

theorem growing_honest : growing.Honest .ilp32 started.heap := by
  refine offering_honest _ (by decide) rfl (fits_started (by decide) (by decide)) ?_
  intro a n m hr
  split at hr
  · next h =>
    obtain ⟨rfl, hn⟩ := h
    cases hr
    exact ⟨hn, by decide, fits_started (by decide) (by decide)⟩
  · cases hr

theorem crowded_honest (segment : Option Nat) :
    (crowded segment).Honest .ilp32 started.heap := by
  refine offering_honest _ (by decide) rfl (fits_started (by decide) (by decide)) ?_
  intro a n m hr
  cases hr

/-- `vec_malloc(32)`, then `vec_realloc(p, 40)`. -/
def reallocRun (os : Rtems) : List AllocEvent := [.malloc 32 firstSystem, .realloc 0x1010 40 os]

theorem reallocRun_legal (ho : os.Honest .ilp32 started.heap) :
    (vecAlloc .ilp32).Legal (allocInit emptyHeap) (reallocRun os) :=
  ⟨⟨by decide, firstSystem_honest⟩,
    ⟨by decide, ho, Or.inr ⟨⟨_, started_held⟩, by decide⟩⟩, trivial⟩

theorem reallocRun_ample (os : Rtems) : (vecAlloc .ilp32).Always
    (fun _ e => AmpleEvent .ilp32 e) (allocInit emptyHeap) (reallocRun os) :=
  ⟨ample_of_lt firstSystem_honest (by decide), fun hz => absurd hz (by decide), trivial⟩

/-- The block grows where it is, and the call pays. -/
theorem realloc_ok_growing : (vecAlloc .ilp32).Always (CallOk .ilp32) (allocInit emptyHeap)
    (reallocRun growing) := by
  refine (realloc_ok_iff .ilp32 wf_emptyHeap (reallocRun_legal growing_honest)
    (reallocRun_ample growing)).mpr ⟨trivial, ?_, trivial⟩
  rintro ⟨-, -, ⟨g, hg, hres⟩, -⟩
  obtain rfl := Option.some.inj (started_held.symm.trans hg)
  exact absurd hres (by decide)

/-- The block has to move. Either its new size is not reported, then the call fails and the
    new block is never freed; or it is, then the call returns 0x2020 with the aligned pointer
    0x2010 in the word below, where no block starts. -/
theorem realloc_moving :
    (∀ segment, (vecAlloc .ilp32).Legal (allocInit emptyHeap)
        (reallocRun (crowded segment)) ∧
      (vecAlloc .ilp32).Always (fun _ e => AmpleEvent .ilp32 e) (allocInit emptyHeap)
        (reallocRun (crowded segment))) ∧
      ¬ (vecAlloc .ilp32).Always (CallOk .ilp32) (allocInit emptyHeap)
        (reallocRun (crowded none)) ∧
      ¬ (vecAlloc .ilp32).Always (CallOk .ilp32) (allocInit emptyHeap)
        (reallocRun (crowded (some 64))) := by
  refine ⟨fun segment => ⟨reallocRun_legal (crowded_honest segment),
    reallocRun_ample (crowded segment)⟩, ?_, ?_⟩
  · intro hall
    have hok : ReallocOk .ilp32 started.heap 0x1010 40 ⟨0x1008, 32⟩ 48
        (vecRealloc .ilp32 (crowded none) started.heap 0x1010 40) :=
      hall.2.1 (by decide) _ _ started_held rfl
    have hrval : (vecRealloc .ilp32 (crowded none) started.heap 0x1010 40).rval = 0 := by
      decide +kernel
    have hlive : (vecRealloc .ilp32 (crowded none) started.heap 0x1010 40).heap.size 0x2008 =
        some 64 := by decide +kernel
    rw [(hok.refused hrval).noExtra] at hlive
    exact absurd hlive (by decide)
  · intro hall
    have hok : ReallocOk .ilp32 started.heap 0x1010 40 ⟨0x1008, 32⟩ 48
        (vecRealloc .ilp32 (crowded (some 64)) started.heap 0x1010 40) :=
      hall.2.1 (by decide) _ _ started_held rfl
    have hrval : (vecRealloc .ilp32 (crowded (some 64)) started.heap 0x1010 40).rval = 0x2020 :=
      by decide +kernel
    have hback : (vecRealloc .ilp32 (crowded (some 64)) started.heap 0x1010 40).heap.mem.load 4
        0x201c = 0x2010 := by decide +kernel
    have hnone : (vecRealloc .ilp32 (crowded (some 64)) started.heap 0x1010 40).heap.size
        0x2010 = none := by decide +kernel
    obtain ⟨raw, k, hraw, -, -, hload⟩ := (hok.moved (by rw [hrval]; decide)).inside
    rw [hrval] at hload
    have hraw' : raw = 0x2010 := hload.symm.trans hback
    rw [hraw', hnone] at hraw
    cases hraw

end SsrlApps.Altivec
