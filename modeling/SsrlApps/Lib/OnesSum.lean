/-
  One's-complement sums.

  Numbers below `B` are added with end-around carry: what overflows is added at the low
  end (`add`). The sum of a list is taken from the left (`sum`). Modulo `B - 1` it is the
  ordinary sum, and it is 0 only if all summands are; these two facts determine it
  (`rep`, `rep_unique`), so every strategy of carrying gives the same sum.

  Proved:
  * `sum_eq`: carrying at each step.
  * `deferred_eq`: carrying twice at the end, as long as the ordinary sum is below `B * B`.
  * `rep_mul`: multiplying the summands by a constant.
  * `rep_complement`: a sum with its complement is `B - 1`.
-/
import Mathlib.Data.Nat.ModEq

namespace OnesSum

/-- Addition with end-around carry. -/
def add (B a b : Nat) : Nat := (a + b) % B + (a + b) / B

def sum (B : Nat) (ws : List Nat) : Nat := ws.foldl (add B) 0

/-- The number in `1 .. B - 1` that is congruent to `x` modulo `B - 1`, and 0 for 0. -/
def rep (B x : Nat) : Nat := if x = 0 then 0 else (x - 1) % (B - 1) + 1

variable {B : Nat}

/-- `rep B x` depends on `x` modulo `B - 1`, and on whether `x` is 0. -/
theorem rep_congr {x y : Nat} (hzero : x = 0 ↔ y = 0) (hmod : x ≡ y [MOD B - 1]) :
    rep B x = rep B y := by
  unfold rep
  split
  · next hx => rw [if_pos (hzero.mp hx)]
  · next hx =>
    have hy : y ≠ 0 := mt hzero.mpr hx
    have hpred : x - 1 ≡ y - 1 [MOD B - 1] := by
      refine Nat.ModEq.add_right_cancel' 1 ?_
      rw [Nat.sub_add_cancel (by omega), Nat.sub_add_cancel (by omega)]
      exact hmod
    rw [if_neg hy, show (x - 1) % (B - 1) = (y - 1) % (B - 1) from hpred]

theorem rep_of_lt {x : Nat} (hx : x < B) : rep B x = x := by
  unfold rep
  split
  · next h => exact h.symm
  · rw [Nat.mod_eq_of_lt (by omega)]
    omega

/-- `rep B x` is the only number below `B` congruent to `x` that is 0 exactly if `x` is. -/
theorem rep_unique {x y : Nat} (hy : y < B) (hzero : y = 0 ↔ x = 0)
    (hmod : y ≡ x [MOD B - 1]) : rep B x = y :=
  (rep_congr hzero hmod).symm.trans (rep_of_lt hy)

theorem rep_zero (B : Nat) : rep B 0 = 0 := rfl

theorem rep_eq_zero {x : Nat} : rep B x = 0 ↔ x = 0 := by
  unfold rep
  split <;> omega

theorem rep_modEq (B x : Nat) : rep B x ≡ x [MOD B - 1] := by
  unfold rep
  split
  · next hx => rw [hx]
  · next hx =>
    have hstep : (x - 1) % (B - 1) + 1 ≡ x - 1 + 1 [MOD B - 1] :=
      (Nat.mod_modEq _ _).add_right 1
    rw [Nat.sub_add_cancel (by omega)] at hstep
    exact hstep

theorem rep_lt (hB : 2 ≤ B) (x : Nat) : rep B x < B := by
  unfold rep
  split
  · omega
  · have hlt : (x - 1) % (B - 1) < B - 1 := Nat.mod_lt _ (by omega)
    omega

/-- Adding the carry at the low end does not change a number modulo `B - 1`. -/
theorem carry_modEq (hB : 2 ≤ B) (x : Nat) : x % B + x / B ≡ x [MOD B - 1] := by
  have hone : B ≡ 1 [MOD B - 1] := by
    have hself : B - 1 + 1 ≡ 0 + 1 [MOD B - 1] := (Nat.modEq_zero_iff_dvd.mpr dvd_rfl).add_right 1
    rwa [Nat.sub_add_cancel (by omega)] at hself
  calc x % B + x / B = x % B + 1 * (x / B) := by rw [Nat.one_mul]
    _ ≡ x % B + B * (x / B) [MOD B - 1] := (hone.symm.mul_right _).add_left _
    _ = x := Nat.mod_add_div x B

/-- A number below `2 * B - 1` is below `B` when its carry is added. -/
theorem carry_lt {x : Nat} (hx : x < 2 * B - 1) : x % B + x / B < B := by
  rcases Nat.lt_or_ge x B with hlt | hge
  · rw [Nat.mod_eq_of_lt hlt, Nat.div_eq_of_lt hlt]
    omega
  · have hdiv : x / B = 1 := Nat.div_eq_of_lt_le (by omega) (by omega)
    have hmod : x % B = x - B := by
      rw [Nat.mod_eq_sub_mod hge, Nat.mod_eq_of_lt (by omega)]
    omega

theorem carry_eq_zero {x : Nat} : x % B + x / B = 0 ↔ x = 0 := by
  constructor
  · intro h
    obtain ⟨hmod, hdiv⟩ := Nat.add_eq_zero_iff.mp h
    have hsplit := Nat.mod_add_div x B
    rw [hmod, hdiv, Nat.mul_zero] at hsplit
    exact hsplit.symm
  · rintro rfl
    rw [Nat.zero_mod, Nat.zero_div]

/-! ## Strategies of carrying -/

theorem add_rep (hB : 2 ≤ B) (x : Nat) {w : Nat} (hw : w < B) :
    add B (rep B x) w = rep B (x + w) := by
  have hlt := rep_lt hB x
  have hzero := rep_eq_zero (B := B) (x := x)
  refine (rep_unique (carry_lt (by omega)) ?_ ?_).symm
  · rw [carry_eq_zero]
    omega
  · exact (carry_modEq hB _).trans ((rep_modEq B x).add_right w)

theorem foldl_add (hB : 2 ≤ B) {ws : List Nat} (hws : ∀ w ∈ ws, w < B) (x : Nat) :
    ws.foldl (add B) (rep B x) = rep B (x + ws.sum) := by
  induction ws generalizing x with
  | nil => rfl
  | cons w ws ih =>
    have htail : ∀ v ∈ ws, v < B := fun v hv => hws v (List.mem_cons_of_mem w hv)
    rw [List.foldl_cons, add_rep hB x (hws w List.mem_cons_self), ih htail, List.sum_cons,
      Nat.add_assoc]

/-- Carrying at each step. -/
theorem sum_eq (hB : 2 ≤ B) {ws : List Nat} (hws : ∀ w ∈ ws, w < B) :
    sum B ws = rep B ws.sum := by
  have h := foldl_add hB hws 0
  rw [rep_zero, Nat.zero_add] at h
  exact h

/-- The ordinary sum, with the carry added at the low end twice and what overflows then
    dropped. -/
def deferred (B x : Nat) : Nat :=
  let y := x / B + x % B
  (y + y / B) % B

/-- Carrying twice at the end. -/
theorem deferred_eq (hB : 2 ≤ B) {x : Nat} (hx : x < B * B) : deferred B x = rep B x := by
  have hdiv : x / B < B := Nat.div_lt_of_lt_mul hx
  have hmod : x % B < B := Nat.mod_lt x (by omega)
  have hcarry : (x / B + x % B) % B + (x / B + x % B) / B < B := carry_lt (by omega)
  have hdrop : deferred B x = (x / B + x % B) % B + (x / B + x % B) / B := by
    show (x / B + x % B + (x / B + x % B) / B) % B = _
    rw [← Nat.mod_add_mod, Nat.mod_eq_of_lt hcarry]
  rw [hdrop, Nat.add_comm (x / B)]
  rw [Nat.add_comm (x / B)] at hcarry
  refine (rep_unique hcarry ?_ ?_).symm
  · rw [carry_eq_zero, carry_eq_zero]
  · exact (carry_modEq hB _).trans (carry_modEq hB x)

/-- A multiple of all summands has that multiple of the sum. -/
theorem rep_mul (k x : Nat) : rep B (k * rep B x) = rep B (k * x) := by
  refine rep_congr ?_ ((rep_modEq B x).mul_left k)
  rw [Nat.mul_eq_zero, Nat.mul_eq_zero, rep_eq_zero]

/-- A sum with its complement is all ones. -/
theorem rep_complement (hB : 2 ≤ B) (x : Nat) : rep B (x + (B - 1 - rep B x)) = B - 1 := by
  have hlt := rep_lt hB x
  have hzero := rep_eq_zero (B := B) (x := x)
  refine rep_unique (by omega) (by omega) ?_
  have hsum : rep B x + (B - 1 - rep B x) = B - 1 := by omega
  have h := (rep_modEq B x).add_right (B - 1 - rep B x)
  rw [hsum] at h
  exact h

/-- Summands that differ by less than `B - 1` are told apart. -/
theorem rep_inj {x y : Nat} (hne : x ≠ y) (hxy : x < y + (B - 1)) (hyx : y < x + (B - 1)) :
    rep B x ≠ rep B y := by
  intro h
  have hmod : x ≡ y [MOD B - 1] := (rep_modEq B x).symm.trans (h ▸ rep_modEq B y)
  rcases Nat.lt_or_gt_of_ne hne with hlt | hgt
  · have hdvd := (Nat.modEq_iff_dvd' hlt.le).mp hmod
    have hle := Nat.le_of_dvd (by omega) hdvd
    omega
  · have hdvd := (Nat.modEq_iff_dvd' hgt.le).mp hmod.symm
    have hle := Nat.le_of_dvd (by omega) hdvd
    omega

end OnesSum
