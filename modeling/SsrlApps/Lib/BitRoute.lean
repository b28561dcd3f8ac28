/-
  Bit strings whose bits are moved around by tables.

  `Bits n` are `n` bits, the first one the most significant. `select table x` is the string
  whose bit `o` is bit `table[o]` of `x`, counted from 1, as standards write permutations,
  expansions and choices of bits. `packAt n l r` numbers the low `n` bits of two words, those
  of `l` first.

  Programs move bits with OR-masks: the result is the OR of the masks of the bits that are
  set, and the masks of a group of bits are looked up in a table.

  Proved:
  * `getLsbD_orMasks`, `getLsbD_orAll`: the bits of an OR of masks.
  * `invertTable_table`, `invertTable_cases`: the loop that stores `i` at `table[i] - 1`
    inverts a table without repetitions.
  * `select_complement`: choosing bits commutes with the complement.
-/
import Mathlib.Logic.Function.Basic
import Mathlib.Data.List.GetD
import Mathlib.Data.List.Nodup

/-- `n` bits, the first one the most significant. -/
abbrev Bits (n : Nat) := Fin n → Bool

namespace Bits

variable {m n : Nat}

/-- Bit `p` of a string; there are no bits behind its end. -/
def bit (x : Bits n) (p : Nat) : Bool := if h : p < n then x ⟨p, h⟩ else false

def xor (x y : Bits n) : Bits n := fun o => x o ^^ y o

def complement (x : Bits n) : Bits n := fun o => !x o

/-- Bit `o` of the result is bit `table[o]` of `x`, counted from 1. -/
def select (table : List Nat) (x : Bits m) : Bits n := fun o => x.bit (table.getD o 0 - 1)

theorem bit_val (x : Bits n) (o : Fin n) : x.bit o = x o := dif_pos o.isLt

theorem bit_complement (x : Bits n) {p : Nat} (hp : p < n) : x.complement.bit p = !x.bit p := by
  unfold bit
  rw [dif_pos hp, dif_pos hp]
  rfl

theorem xor_cancel (x y : Bits n) : xor x (xor x y) = y := by
  funext o
  unfold xor
  rw [← Bool.xor_assoc, Bool.xor_self, Bool.false_xor]

theorem xor_complement (x y : Bits n) : xor x (complement y) = complement (xor x y) := by
  funext o
  exact Bool.xor_not (x o) (y o)

theorem complement_xor_complement (x y : Bits n) :
    xor (complement x) (complement y) = xor x y := by
  funext o
  exact Bool.not_xor_not (x o) (y o)

theorem select_complement {table : List Nat}
    (ht : ∀ o : Fin n, table.getD o 0 - 1 < m) (x : Bits m) :
    (select table (complement x) : Bits n) = complement (select table x) := by
  funext o
  exact bit_complement x (ht o)

end Bits

namespace BitRoute

/-! ## Words that hold a bit string -/

/-- Bit `o` of the string that the low `n` bits of `l` and those of `r` make. -/
def packAt (n : Nat) (l r : BitVec 32) (o : Nat) : Bool :=
  if o < n then l.getLsbD (n - 1 - o) else r.getLsbD (2 * n - 1 - o)

def pack (n : Nat) (l r : BitVec 32) : Bits (2 * n) := fun o => packAt n l r o

/-- The bits of a word. -/
def wordBits (w : BitVec 32) : Bits 32 := fun o => w.getLsbD (31 - o)

theorem bit_pack (n : Nat) (l r : BitVec 32) {p : Nat} (hp : p < 2 * n) :
    (pack n l r).bit p = packAt n l r p := dif_pos hp

theorem wordBits_xor (v w : BitVec 32) : wordBits (v ^^^ w) = (wordBits v).xor (wordBits w) := by
  funext o
  exact BitVec.getLsbD_xor

theorem pack_inj {l r l' r' : BitVec 32} (h : pack 32 l r = pack 32 l' r') : l = l' ∧ r = r' := by
  refine ⟨BitVec.eq_of_getLsbD_eq fun i hi => ?_, BitVec.eq_of_getLsbD_eq fun i hi => ?_⟩
  · have hbit := congrFun h ⟨31 - i, by omega⟩
    have hlt : 31 - i < 32 := by omega
    have hback : 31 - (31 - i) = i := by omega
    simp only [pack, packAt, hlt, if_true, Nat.reduceSub, hback] at hbit
    exact hbit
  · have hbit := congrFun h ⟨63 - i, by omega⟩
    have hge : ¬ 63 - i < 32 := by omega
    have hback : 63 - (63 - i) = i := by omega
    simp only [pack, packAt, hge, if_false, Nat.reduceMul, Nat.reduceSub, hback] at hbit
    exact hbit

/-! ## OR-masks -/

section Masks

variable {w : Nat}

/-- The OR of the masks of those of `n` bits that are set. -/
def orMasks (n : Nat) (p : Nat → Prop) [DecidablePred p] (mask : Nat → BitVec w) : BitVec w :=
  (List.range n).foldl (fun acc j => if p j then acc ||| mask j else acc) 0

theorem orMasks_succ (n : Nat) (p : Nat → Prop) [DecidablePred p] (mask : Nat → BitVec w) :
    orMasks (n + 1) p mask =
      if p n then orMasks n p mask ||| mask n else orMasks n p mask := by
  unfold orMasks
  rw [List.range_succ, List.foldl_append]
  rfl

theorem getLsbD_orMasks (n : Nat) (p : Nat → Prop) [DecidablePred p] (mask : Nat → BitVec w)
    (o : Nat) :
    (orMasks n p mask).getLsbD o = true ↔ ∃ j, j < n ∧ p j ∧ (mask j).getLsbD o = true := by
  induction n with
  | zero =>
    have hzero : (orMasks 0 p mask).getLsbD o = false := BitVec.getLsbD_zero
    rw [hzero]
    constructor
    · intro h
      cases h
    · rintro ⟨j, hj, -⟩
      exact absurd hj (Nat.not_lt_zero j)
  | succ n ih =>
    rw [orMasks_succ]
    constructor
    · intro h
      by_cases hn : p n
      · rw [if_pos hn, BitVec.getLsbD_or, Bool.or_eq_true, ih] at h
        rcases h with ⟨j, hj, hbit⟩ | hbit
        · exact ⟨j, Nat.lt_succ_of_lt hj, hbit⟩
        · exact ⟨n, Nat.lt_succ_self n, hn, hbit⟩
      · rw [if_neg hn, ih] at h
        obtain ⟨j, hj, hbit⟩ := h
        exact ⟨j, Nat.lt_succ_of_lt hj, hbit⟩
    · rintro ⟨j, hj, hp, hbit⟩
      rcases Nat.lt_succ_iff_lt_or_eq.mp hj with hlt | rfl
      · have hrest := ih.mpr ⟨j, hlt, hp, hbit⟩
        split
        · rw [BitVec.getLsbD_or, hrest, Bool.true_or]
        · exact hrest
      · rw [if_pos hp, BitVec.getLsbD_or, hbit, Bool.or_true]

/-- The OR of several words. -/
def orAll (ws : List (BitVec w)) : BitVec w := ws.foldl (· ||| ·) 0

theorem getLsbD_foldl_or (ws : List (BitVec w)) (acc : BitVec w) (o : Nat) :
    (ws.foldl (· ||| ·) acc).getLsbD o = true ↔
      acc.getLsbD o = true ∨ ∃ v ∈ ws, v.getLsbD o = true := by
  induction ws generalizing acc with
  | nil => simp
  | cons v ws ih =>
    rw [List.foldl_cons, ih, BitVec.getLsbD_or, Bool.or_eq_true, or_assoc]
    simp only [List.mem_cons, exists_eq_or_imp]

theorem getLsbD_orAll (ws : List (BitVec w)) (o : Nat) :
    (orAll ws).getLsbD o = true ↔ ∃ v ∈ ws, v.getLsbD o = true := by
  unfold orAll
  rw [getLsbD_foldl_or]
  simp

end Masks

/-! ## Inverting a table -/

/-- The loop `inv[table[i] - 1] = i`, from the array `inv` on. -/
def invertTable (table : List Nat) (inv : Nat → Nat) : Nat → Nat :=
  table.zipIdx.foldl (fun inv p => Function.update inv (p.1 - 1) p.2) inv

/-- The loop from index `k` on: what it stores where, and what it leaves alone. -/
theorem invertFrom_spec (table : List Nat) (inv : Nat → Nat) (k : Nat) (hnodup : table.Nodup)
    (hpos : ∀ p ∈ table, p ≠ 0) :
    (∀ o, ∀ h : o < table.length,
      (table.zipIdx k).foldl (fun inv p => Function.update inv (p.1 - 1) p.2) inv
        (table[o] - 1) = k + o) ∧
    ∀ b, b + 1 ∉ table →
      (table.zipIdx k).foldl (fun inv p => Function.update inv (p.1 - 1) p.2) inv b = inv b := by
  induction table generalizing inv k with
  | nil => exact ⟨fun o h => absurd h (Nat.not_lt_zero o), fun b _ => rfl⟩
  | cons p table ih =>
    rw [List.nodup_cons] at hnodup
    have hp : p ≠ 0 := hpos p List.mem_cons_self
    obtain ⟨hstored, hkept⟩ := ih (Function.update inv (p - 1) k) (k + 1) hnodup.2
      fun q hq => hpos q (List.mem_cons_of_mem p hq)
    refine ⟨fun o h => ?_, fun b hb => ?_⟩
    · cases o with
      | zero =>
        -- later entries of the table are others
        have hp' : p - 1 + 1 ∉ table := by
          rw [Nat.sub_add_cancel (Nat.pos_of_ne_zero hp)]
          exact hnodup.1
        rw [List.zipIdx_cons, List.foldl_cons]
        exact (hkept (p - 1) hp').trans (Function.update_self ..)
      | succ o =>
        rw [List.zipIdx_cons, List.foldl_cons]
        exact (hstored o (Nat.lt_of_succ_lt_succ h)).trans (Nat.add_right_comm k 1 o)
    · rw [List.mem_cons, not_or] at hb
      have hne : b ≠ p - 1 := by omega
      rw [List.zipIdx_cons, List.foldl_cons, hkept b hb.2, Function.update_of_ne hne]

variable {table : List Nat} (hnodup : table.Nodup) (hpos : ∀ p ∈ table, p ≠ 0)
include hnodup hpos

theorem invertTable_table (inv : Nat → Nat) {o : Nat} (h : o < table.length) :
    invertTable table inv (table.getD o 0 - 1) = o := by
  have hspec := (invertFrom_spec table inv 0 hnodup hpos).1 o h
  rw [List.getD_eq_getElem _ _ h]
  exact hspec.trans (Nat.zero_add o)

/-- An entry of the inverted table was stored by the loop, or was there before. -/
theorem invertTable_cases (inv : Nat → Nat) (b : Nat) :
    (invertTable table inv b < table.length ∧
      table.getD (invertTable table inv b) 0 - 1 = b) ∨
    b + 1 ∉ table ∧ invertTable table inv b = inv b := by
  by_cases hmem : b + 1 ∈ table
  · obtain ⟨o, ho, heq⟩ := List.getElem_of_mem hmem
    have hentry : table.getD o 0 = b + 1 := (List.getD_eq_getElem _ _ ho).trans heq
    have hinv := invertTable_table hnodup hpos inv ho
    rw [hentry, Nat.add_sub_cancel] at hinv
    rw [hinv, hentry, Nat.add_sub_cancel]
    exact Or.inl ⟨ho, rfl⟩
  · exact Or.inr ⟨hmem, (invertFrom_spec table inv 0 hnodup hpos).2 b hmem⟩

end BitRoute
