/-
  The aligned allocator: `vec_malloc`, `vec_free`, `vec_calloc` and `vec_realloc`.

  Model. The heap is bytes and a table of live blocks (`Heap`), pointers are numbers of the
  ABI's width. What the system answers is a parameter of each call (`Rtems`): the block
  that `malloc` returns, the outcome of the resize, the size that is reported. The hidden
  word below an aligned pointer is in memory, where clients and other tasks write too.
  Each function says what it reads and frees (`HeapOp`). `vec_realloc` is that of an
  RTEMS with `rtems_region_resize_segment` (after 4.6.99); an older one always takes the
  path of `unsatisfied`.

  A run (`vecAlloc`) is any interleaving of calls, writes of clients to the bytes from
  their aligned pointer to the end of its block, and changes by the rest of the system.
  `held` is what the clients hold: for each aligned pointer that was returned and not
  freed, the raw pointer `malloc` returned for it and the size that was asked for.

  Proved:
  * `aligned_spec`: the header word fits below the aligned address, which is at most 16
    bytes above the raw one.
  * `vecMalloc_cases`, `vecFree_layout`: what the operations do.
  * `AllocInv`, and that `malloc`, `calloc`, `free`, writes and foreign changes keep it.
-/
import SsrlApps.Lib.Machine
import SsrlApps.Lib.Memory

namespace SsrlApps.Altivec

open Heap Bytes

/-! ## Pointers -/

/-- The width of pointers and of `size_t`. -/
inductive Abi
  | ilp32
  | lp64

namespace Abi

/-- `sizeof(void *)` -/
def word : Abi → Nat
  | ilp32 => 4
  | lp64 => 8

def space (abi : Abi) : Nat := 256 ^ abi.word

def add (abi : Abi) (a b : Nat) : Nat := (a + b) % abi.space

def sub (abi : Abi) (a b : Nat) : Nat := (a + abi.space - b) % abi.space

/-- `(x + 16) & ~15` -/
def aligned (abi : Abi) (x : Nat) : Nat := abi.add x 16 / 16 * 16

/-- The address `((void **)p) - 1`. -/
def below (abi : Abi) (p : Nat) : Nat := abi.sub p abi.word

end Abi

/-! ## The system below -/

/-- What `malloc` returns when it does not return 0. -/
structure RawBlock where
  base : Nat
  size : Nat

/-- The outcome of `rtems_region_resize_segment`, with the new size. -/
inductive ResizeStatus
  | successful (size : Nat)
  | unsatisfied
  | other
deriving DecidableEq

/-- What a call finds and gets from the system. -/
structure Rtems where
  malloc : Nat → Option RawBlock
  resizeSegment : Nat → Nat → ResizeStatus
  /-- `rtems_region_get_segment_size`, or that it fails. -/
  segmentSize : Nat → Option Nat
  systemIsUp : Bool
  dispatchDisableLevel : Nat
  isrNestLevel : Nat

/-- `malloc` returns fresh blocks, disjoint from the live ones, and aligned to a pointer; a
    segment is resized in place. Nothing is assumed of the reported size. -/
structure Rtems.Honest (os : Rtems) (abi : Abi) (h : Heap) : Prop where
  malloc : ∀ n b, os.malloc n = some b →
    n ≤ b.size ∧ b.base % abi.word = 0 ∧ h.size b.base = none ∧ Fits abi.space h b.base b.size
  resize : ∀ a n m, os.resizeSegment a n = .successful m →
    n ≤ m ∧ h.size a ≠ none ∧ Fits abi.space h a m

/-- What a function does to the heap that its result does not show. -/
inductive HeapOp
  | read (a n : Nat)
  | free (a : Nat)
deriving DecidableEq

/-! ## The functions -/

def vecMalloc (abi : Abi) (os : Rtems) (h : Heap) (s : Nat) : Heap × Nat :=
  if s = 0 then (h, 0)
  else match os.malloc (abi.add s 16) with
    | none => (h, 0)
    | some b =>
      let paligned := abi.aligned b.base
      let h := h.put b.base b.size
      ({ h with mem := h.mem.store abi.word (abi.below paligned) b.base }, paligned)

def vecFree (abi : Abi) (h : Heap) (paligned : Nat) : Heap × List HeapOp :=
  if paligned ≠ 0 then
    let raw := h.mem.load abi.word (abi.below paligned)
    (h.free raw, [.read (abi.below paligned) abi.word, .free raw])
  else (h, [])

/-- `s *= nmemb` -/
def callocSize (abi : Abi) (nmemb s : Nat) : Nat := s * nmemb % abi.space

def vecCalloc (abi : Abi) (os : Rtems) (h : Heap) (nmemb s : Nat) : Heap × Nat :=
  let s := callocSize abi nmemb s
  let m := vecMalloc abi os h s
  if m.2 ≠ 0 then ({ m.1 with mem := m.1.mem.fill m.2 0 s }, m.2) else m

structure ReallocResult where
  heap : Heap
  rval : Nat
  ops : List HeapOp
  /-- `errno` was set to `EINVAL`. -/
  einval : Bool

/-- The rest of `vec_realloc`, when the segment of `p` cannot be resized in place; `ops`
    is what was done before. -/
def relocate (abi : Abi) (os : Rtems) (h : Heap) (p s : Nat) (ops : List HeapOp) :
    ReallocResult :=
  let m := vecMalloc abi os h s
  if m.2 = 0 then ⟨m.1, 0, ops, false⟩
  else
    let pu := m.2
    match os.segmentSize pu with
    | none => ⟨m.1, 0, ops, true⟩
    | some segment =>
      let oldSize := abi.sub segment 16
      let pold := p
      let p := abi.aligned pu
      let n := if s < oldSize then s else oldSize
      let h := { m.1 with mem := m.1.mem.copy p pold n }
      let f := vecFree abi h pold
      -- `pu` is the aligned pointer that `vec_malloc` returned
      ⟨{ f.1 with mem := f.1.mem.store abi.word (abi.below p) pu }, p,
        ops ++ [.read pold n] ++ f.2, false⟩

/-- A call from an interrupt, or with dispatching disabled, is refused. -/
def Rtems.refuses (os : Rtems) : Bool :=
  os.systemIsUp && (decide (0 < os.dispatchDisableLevel) || decide (0 < os.isrNestLevel))

def vecRealloc (abi : Abi) (os : Rtems) (h : Heap) (p s : Nat) : ReallocResult :=
  if os.refuses then ⟨h, 0, [], false⟩
  else if s = 0 then
    let f := vecFree abi h p
    ⟨f.1, 0, f.2, false⟩
  else if p = 0 then
    let m := vecMalloc abi os h s
    ⟨m.1, m.2, [], false⟩
  else
    let pu := h.mem.load abi.word (abi.below p)
    let ops := [.read (abi.below p) abi.word]
    match os.resizeSegment pu (abi.add s 16) with
    | .successful n => ⟨h.put pu n, p, ops, false⟩
    | .other => ⟨h, 0, ops, true⟩
    | .unsatisfied => relocate abi os h p s ops

/-! ## Runs -/

/-- What stands behind an aligned pointer: the raw pointer, and the size asked for. -/
structure Grant where
  raw : Nat
  size : Nat

structure AllocState where
  heap : Heap
  held : Nat → Option Grant

inductive AllocEvent
  | malloc (s : Nat) (os : Rtems)
  | calloc (nmemb s : Nat) (os : Rtems)
  | realloc (p s : Nat) (os : Rtems)
  | free (p : Nat)
  /-- A client writes the byte `v`. -/
  | write (a : Nat) (v : UInt8)
  /-- Whatever else uses the heap leaves it as `h`. -/
  | foreign (h : Heap)

/-- A non-zero `rval` is handed to the client, with `s` bytes of the block `got`. -/
def grant (held : Nat → Option Grant) (rval : Nat) (got : Option RawBlock) (s : Nat) :
    Nat → Option Grant :=
  if rval = 0 then held else Function.update held rval (got.map fun b => ⟨b.base, s⟩)

/-- What the clients hold after `vec_realloc(p, s)` returned `rval`. -/
def regrant (abi : Abi) (held : Nat → Option Grant) (p s : Nat) (os : Rtems) (rval : Nat) :
    Nat → Option Grant :=
  if os.refuses then held
  else if s = 0 then Function.update held p none
  else if rval = 0 then held
  else if rval = p then Function.update held p ((held p).map fun g => ⟨g.raw, s⟩)
  else grant (Function.update held p none) rval (os.malloc (abi.add s 16)) s

def allocStep (abi : Abi) (st : AllocState) : AllocEvent → AllocState
  | .malloc s os =>
    let m := vecMalloc abi os st.heap s
    ⟨m.1, grant st.held m.2 (os.malloc (abi.add s 16)) s⟩
  | .calloc nmemb s os =>
    let m := vecCalloc abi os st.heap nmemb s
    let s := callocSize abi nmemb s
    ⟨m.1, grant st.held m.2 (os.malloc (abi.add s 16)) s⟩
  | .realloc p s os =>
    let r := vecRealloc abi os st.heap p s
    ⟨r.heap, regrant abi st.held p s os r.rval⟩
  | .free p => ⟨(vecFree abi st.heap p).1, Function.update st.held p none⟩
  | .write a v => { st with heap.mem := Function.update st.heap.mem a v }
  | .foreign h => { st with heap := h }

/-- Clients pass pointers they hold, write where they may, and ask `vec_realloc` for no
    more than `size_t` can count with the header. -/
def allocGuard (abi : Abi) (st : AllocState) : AllocEvent → Prop
  | .malloc s os => s < abi.space ∧ os.Honest abi st.heap
  | .calloc nmemb s os => nmemb < abi.space ∧ s < abi.space ∧ os.Honest abi st.heap
  | .realloc p s os => s < abi.space ∧ os.Honest abi st.heap ∧
      (p = 0 ∨ (∃ g, st.held p = some g) ∧ s + 16 < abi.space)
  | .free p => p = 0 ∨ ∃ g, st.held p = some g
  | .write a _ => ∃ p g n, st.held p = some g ∧ st.heap.size g.raw = some n ∧
      p ≤ a ∧ a < g.raw + n
  | .foreign h => Wf abi.space h ∧ ∀ p g n, st.held p = some g →
      st.heap.size g.raw = some n →
      h.size g.raw = some n ∧ AgreeOn st.heap.mem h.mem g.raw n

def vecAlloc (abi : Abi) : Guarded AllocState AllocEvent := ⟨allocGuard abi, allocStep abi⟩

/-- No block is held yet. -/
def allocInit (h : Heap) : AllocState := ⟨h, fun _ => none⟩

/-- The block that `vec_malloc(s)` gets holds the `s` bytes at the aligned address. -/
def Ample (abi : Abi) (os : Rtems) (s : Nat) : Prop :=
  s ≠ 0 → ∀ b, os.malloc (abi.add s 16) = some b →
    b.base ≤ abi.aligned b.base ∧ abi.aligned b.base + s ≤ b.base + b.size

/-! ## Addresses -/

theorem Abi.below_eq {abi : Abi} {p : Nat} (hword : abi.word ≤ p) (hp : p < abi.space) :
    abi.below p = p - abi.word := by
  have hsum : p + abi.space - abi.word = p - abi.word + abi.space := by omega
  unfold Abi.below Abi.sub
  rw [hsum, Nat.add_mod_right, Nat.mod_eq_of_lt (by omega)]

/-- The padding below the aligned address is at least a pointer and at most 16 bytes. -/
theorem aligned_spec {abi : Abi} {base : Nat} (hpos : 0 < base) (htop : base ≤ abi.space)
    (hword : base % abi.word = 0) (hle : base ≤ abi.aligned base) :
    abi.aligned base % 16 = 0 ∧ base + abi.word ≤ abi.aligned base ∧
      abi.aligned base ≤ base + 16 := by
  cases abi <;> simp only [Abi.aligned, Abi.add, Abi.space, Abi.word] at * <;> omega

/-- A request that `size_t` can count with its header gets an ample block. -/
theorem ample_of_lt {abi : Abi} {os : Rtems} {h : Heap} {s : Nat} (ho : os.Honest abi h)
    (hs : s + 16 < abi.space) : Ample abi os s := by
  intro hs0 b hb
  obtain ⟨hn, -, -, hfits⟩ := ho.malloc _ b hb
  have hadd : abi.add s 16 = s + 16 := Nat.mod_eq_of_lt hs
  have hpos := hfits.pos
  have htop := hfits.below
  rw [hadd] at hn
  cases abi <;> simp only [Abi.aligned, Abi.add, Abi.space, Abi.word] at * <;> omega

/-! ## The layout of a block -/

/-- The aligned pointer `p` lies in the block behind it, with its `g.size` bytes, and the
    word below holds the raw pointer. -/
structure Layout (abi : Abi) (h : Heap) (p : Nat) (g : Grant) : Prop where
  live : ∃ n, h.size g.raw = some n ∧ p + g.size ≤ g.raw + n
  nonempty : 0 < g.size
  aligned : p % 16 = 0
  header : g.raw + abi.word ≤ p
  padding : p ≤ g.raw + 16
  back : h.mem.load abi.word (p - abi.word) = g.raw

variable {abi : Abi} {h h' : Heap} {os : Rtems} {p : Nat} {g : Grant}

theorem Layout.ne_zero (hl : Layout abi h p g) : p ≠ 0 := by
  have hheader := hl.header
  have hword : 0 < abi.word := by cases abi <;> decide
  omega

theorem Layout.lt_space (hl : Layout abi h p g) (hw : Wf abi.space h) : p < abi.space := by
  obtain ⟨n, hn, hfit⟩ := hl.live
  have htop := (hw g.raw n hn).below
  have hpos := hl.nonempty
  omega

theorem Layout.below_eq (hl : Layout abi h p g) (hw : Wf abi.space h) :
    abi.below p = p - abi.word := by
  have hheader := hl.header
  exact Abi.below_eq (by omega) (hl.lt_space hw)

/-- The word that the functions read below a held pointer. -/
theorem Layout.load_below (hl : Layout abi h p g) (hw : Wf abi.space h) :
    h.mem.load abi.word (abi.below p) = g.raw := by
  rw [hl.below_eq hw, hl.back]

/-- A block whose header word and size stay keeps its layout. -/
theorem Layout.congr (hl : Layout abi h p g) (hsize : h'.size g.raw = h.size g.raw)
    (hmem : AgreeOn h.mem h'.mem (p - abi.word) abi.word) : Layout abi h' p g where
  live := by
    rw [hsize]
    exact hl.live
  nonempty := hl.nonempty
  aligned := hl.aligned
  header := hl.header
  padding := hl.padding
  back := by rw [load_congr hmem, hl.back]

/-- A change inside one block leaves the layout of another. -/
theorem Layout.apart {a n : Nat} (hl : Layout abi h p g) (hne : g.raw ≠ a)
    (hfits : Fits abi.space h a n) (hsize : h'.size g.raw = h.size g.raw)
    (hmem : ∀ b, Outside a n b → h'.mem b = h.mem b) : Layout abi h' p g := by
  obtain ⟨k, hk, hfit⟩ := hl.live
  have happart := hfits.apart g.raw k hne hk
  have hheader := hl.header
  refine hl.congr hsize ?_
  intro b hb hb'
  apply hmem
  rcases happart with happart | happart
  · exact Or.inr (by omega)
  · exact Or.inl (by omega)

/-! ## What the operations do -/

/-- The heap with the new block `b`, and its raw address below the aligned one. -/
def stamp (abi : Abi) (h : Heap) (b : RawBlock) : Heap :=
  { h.put b.base b.size with
      mem := h.mem.store abi.word (abi.below (abi.aligned b.base)) b.base }

theorem vecMalloc_cases (abi : Abi) (os : Rtems) (h : Heap) (s : Nat) :
    vecMalloc abi os h s = (h, 0) ∧ (s = 0 ∨ os.malloc (abi.add s 16) = none) ∨
      ∃ b, s ≠ 0 ∧ os.malloc (abi.add s 16) = some b ∧
        vecMalloc abi os h s = (stamp abi h b, abi.aligned b.base) := by
  unfold vecMalloc
  by_cases hs : s = 0
  · exact Or.inl ⟨if_pos hs, Or.inl hs⟩
  · rw [if_neg hs]
    cases hm : os.malloc (abi.add s 16) with
    | none => exact Or.inl ⟨rfl, Or.inr rfl⟩
    | some b => exact Or.inr ⟨b, hs, rfl, rfl⟩

/-- A new block is laid out as it should be, and only its own bytes change. -/
theorem stamp_layout {b : RawBlock} {s : Nat} (ho : os.Honest abi h) (ha : Ample abi os s)
    (hs : s ≠ 0) (hb : os.malloc (abi.add s 16) = some b) :
    Layout abi (stamp abi h b) (abi.aligned b.base) ⟨b.base, s⟩ ∧
      ∀ a, Outside b.base b.size a → (stamp abi h b).mem a = h.mem a := by
  obtain ⟨-, hword, -, hfits⟩ := ho.malloc _ b hb
  obtain ⟨hle, hroom⟩ := ha hs b hb
  have htop := hfits.below
  obtain ⟨hmod, hheader, hpad⟩ := aligned_spec hfits.pos (by omega) hword hle
  have hbelow : abi.below (abi.aligned b.base) = abi.aligned b.base - abi.word :=
    Abi.below_eq (by omega) (by omega)
  refine ⟨⟨⟨b.size, put_size_self .., hroom⟩, Nat.pos_of_ne_zero hs, hmod, hheader, hpad, ?_⟩,
    ?_⟩
  · show (h.mem.store abi.word (abi.below (abi.aligned b.base)) b.base).load abi.word
      (abi.aligned b.base - abi.word) = b.base
    rw [hbelow]
    exact load_store (show b.base < abi.space by omega)
  · intro a hout
    refine store_outside ?_
    rw [hbelow]
    rcases hout with hout | hout
    · exact Or.inl (by omega)
    · exact Or.inr (by omega)

/-- `vec_calloc` leaves the padding alone. -/
theorem fill_layout {n : Nat} (hl : Layout abi h p g) (v : UInt8) :
    Layout abi { h with mem := h.mem.fill p v n } p g := by
  refine hl.congr rfl ?_
  intro b _ hb
  have hheader := hl.header
  exact fill_outside (Or.inl (by omega))

theorem vecFree_zero (abi : Abi) (h : Heap) : vecFree abi h 0 = (h, []) := rfl

/-- `vec_free` reads the header and frees the raw pointer. -/
theorem vecFree_layout (hl : Layout abi h p g) (hw : Wf abi.space h) :
    vecFree abi h p = (h.free g.raw, [.read (p - abi.word) abi.word, .free g.raw]) := by
  unfold vecFree
  rw [if_pos hl.ne_zero]
  dsimp only
  rw [hl.load_below hw, hl.below_eq hw]

/-! ## The invariant of a run -/

structure AllocInv (abi : Abi) (st : AllocState) : Prop where
  wf : Wf abi.space st.heap
  layout : ∀ p g, st.held p = some g → Layout abi st.heap p g
  /-- No block stands behind two pointers. -/
  inj : ∀ p q g k, st.held p = some g → st.held q = some k → g.raw = k.raw → p = q

theorem allocInit_inv (hw : Wf abi.space h) : AllocInv abi (allocInit h) where
  wf := hw
  layout := by intro p g hp; cases hp
  inj := by intro p q g k hp; cases hp

variable {st : AllocState}

/-- A pointer that is held no more is not a reason for the invariant to fail. -/
theorem AllocInv.drop (hi : AllocInv abi st) (p : Nat) :
    AllocInv abi ⟨st.heap, Function.update st.held p none⟩ where
  wf := hi.wf
  layout := by
    intro q g hq
    exact hi.layout q g (Table.entry_clear hq).2
  inj := Table.distinct_clear hi.inj p

/-- A fresh block is handed out under `p`, and nothing outside of it has changed. -/
theorem AllocInv.hand {a n s : Nat} (hi : AllocInv abi st) (hnew : st.heap.size a = none)
    (hfits : Fits abi.space st.heap a n) (hsize : h'.size = (st.heap.put a n).size)
    (hmem : ∀ b, Outside a n b → h'.mem b = st.heap.mem b)
    (hl : Layout abi h' p ⟨a, s⟩) :
    AllocInv abi ⟨h', Function.update st.held p (some ⟨a, s⟩)⟩ := by
  have hold : ∀ q g, st.held q = some g → g.raw ≠ a := by
    rintro q g hq rfl
    obtain ⟨k, hk, -⟩ := (hi.layout q g hq).live
    rw [hnew] at hk
    cases hk
  refine ⟨wf_congr hsize (wf_put hi.wf hfits), ?_, ?_⟩
  · intro q g hq
    rcases Table.entry_set hq with ⟨rfl, rfl⟩ | ⟨-, hq⟩
    · exact hl
    · have hne := hold q g hq
      refine (hi.layout q g hq).apart hne hfits ?_ hmem
      rw [hsize, put_size_of_ne hne]
  · refine Table.distinct_set hi.inj ?_
    intro q g _ hq
    exact hold q g hq

theorem AllocInv.malloc {s : Nat} (hi : AllocInv abi st) (ho : os.Honest abi st.heap)
    (ha : Ample abi os s) : AllocInv abi ⟨(vecMalloc abi os st.heap s).1,
      grant st.held (vecMalloc abi os st.heap s).2 (os.malloc (abi.add s 16)) s⟩ := by
  rcases vecMalloc_cases abi os st.heap s with ⟨hm, -⟩ | ⟨b, hs, hb, hm⟩
  · rw [hm]
    exact hi
  · obtain ⟨hl, hmem⟩ := stamp_layout ho ha hs hb
    obtain ⟨-, -, hnew, hfits⟩ := ho.malloc _ b hb
    rw [hm, hb, grant, if_neg hl.ne_zero]
    exact hi.hand hnew hfits rfl hmem hl

theorem AllocInv.calloc {nmemb s : Nat} (hi : AllocInv abi st) (ho : os.Honest abi st.heap)
    (ha : Ample abi os (callocSize abi nmemb s)) :
    AllocInv abi (allocStep abi st (.calloc nmemb s os)) := by
  show AllocInv abi ⟨(vecCalloc abi os st.heap nmemb s).1, grant st.held
    (vecCalloc abi os st.heap nmemb s).2
    (os.malloc (abi.add (callocSize abi nmemb s) 16)) (callocSize abi nmemb s)⟩
  unfold vecCalloc
  dsimp only
  rcases vecMalloc_cases abi os st.heap (callocSize abi nmemb s) with ⟨hm, -⟩ | ⟨b, hs, hb, hm⟩
  · rw [hm]
    exact hi
  · obtain ⟨hl, hmem⟩ := stamp_layout ho ha hs hb
    obtain ⟨-, -, hnew, hfits⟩ := ho.malloc _ b hb
    obtain ⟨hle, hroom⟩ := ha hs b hb
    rw [hm, hb, if_pos hl.ne_zero, grant, if_neg hl.ne_zero]
    refine hi.hand hnew hfits rfl ?_ (fill_layout hl 0)
    intro a hout
    have hfill : Outside (abi.aligned b.base) (callocSize abi nmemb s) a := by
      rcases hout with hout | hout
      · exact Or.inl (by omega)
      · exact Or.inr (by omega)
    exact (fill_outside hfill).trans (hmem a hout)

/-- Freeing a held pointer, or none. -/
theorem AllocInv.free (hi : AllocInv abi st) (hp : p = 0 ∨ ∃ g, st.held p = some g) :
    AllocInv abi ⟨(vecFree abi st.heap p).1, Function.update st.held p none⟩ := by
  rcases hp with rfl | ⟨g, hp⟩
  · rw [vecFree_zero]
    exact hi.drop 0
  · rw [vecFree_layout (hi.layout p g hp) hi.wf]
    refine ⟨wf_free hi.wf g.raw, ?_, (hi.drop p).inj⟩
    intro q k hq
    obtain ⟨hne, hq⟩ := Table.entry_clear hq
    have hraw : k.raw ≠ g.raw := fun heq => hne (hi.inj q p k g hq hp heq)
    exact (hi.layout q k hq).congr (free_size_of_ne hraw) (AgreeOn.refl _ _ _)

/-- A write into the usable part of one's own block. -/
theorem AllocInv.write {a n : Nat} (hi : AllocInv abi st) (hp : st.held p = some g)
    (hn : st.heap.size g.raw = some n) (hlo : p ≤ a) (hhi : a < g.raw + n) (v : UInt8) :
    AllocInv abi { st with heap.mem := Function.update st.heap.mem a v } := by
  refine ⟨wf_congr (h := st.heap) rfl hi.wf, ?_, hi.inj⟩
  intro q k hq
  have hheader := (hi.layout p g hp).header
  by_cases hqp : q = p
  · subst hqp
    refine (hi.layout q k hq).congr rfl ?_
    have hheader' := (hi.layout q k hq).header
    intro b _ hb
    exact Function.update_of_ne (by omega) ..
  · have hne : k.raw ≠ g.raw := fun heq => hqp (hi.inj q p k g hq hp heq)
    refine (hi.layout q k hq).apart hne (hi.wf g.raw n hn) rfl ?_
    intro b hb
    refine Function.update_of_ne ?_ ..
    rcases hb with hb | hb <;> omega

/-- The rest of the system may change everything but the blocks that are held. -/
theorem AllocInv.foreign (hi : AllocInv abi st) (hw : Wf abi.space h)
    (hkeep : ∀ p g n, st.held p = some g → st.heap.size g.raw = some n →
      h.size g.raw = some n ∧ AgreeOn st.heap.mem h.mem g.raw n) :
    AllocInv abi { st with heap := h } := by
  refine ⟨hw, ?_, hi.inj⟩
  intro p g hp
  have hl := hi.layout p g hp
  obtain ⟨n, hn, hfit⟩ := hl.live
  obtain ⟨hsize, hmem⟩ := hkeep p g n hp hn
  have hheader := hl.header
  exact hl.congr (hsize.trans hn.symm) (hmem.mono (by omega) (by omega))

end SsrlApps.Altivec
