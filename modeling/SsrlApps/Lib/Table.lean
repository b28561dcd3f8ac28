/-
  Tables: functions to `Option` whose entries are set and cleared with `Function.update`.

  Proved:
  * `entry_set`, `entry_clear`: where an entry of a changed table comes from.
  * `distinct_set`, `distinct_clear`: entries that had different names still do.
-/
import Mathlib.Logic.Function.Basic

namespace Table

variable {κ β γ : Type*} [DecidableEq κ] {f : κ → Option β} {a b : κ} {x y : β}

/-- An entry of a table in which `a` was set is the new one, or an old one of another key. -/
theorem entry_set (h : Function.update f a (some x) b = some y) :
    b = a ∧ y = x ∨ b ≠ a ∧ f b = some y := by
  by_cases hba : b = a
  · subst hba
    rw [Function.update_self] at h
    exact Or.inl ⟨rfl, (Option.some.inj h).symm⟩
  · rw [Function.update_of_ne hba] at h
    exact Or.inr ⟨hba, h⟩

/-- An entry of a table in which `a` was cleared is an old one of another key. -/
theorem entry_clear (h : Function.update f a none b = some y) : b ≠ a ∧ f b = some y := by
  have hba : b ≠ a := by
    rintro rfl
    rw [Function.update_self] at h
    cases h
  rw [Function.update_of_ne hba] at h
  exact ⟨hba, h⟩

/-- No two keys have entries of one name. -/
def Distinct (name : β → γ) (f : κ → Option β) : Prop :=
  ∀ a b x y, f a = some x → f b = some y → name x = name y → a = b

variable {name : β → γ}

theorem distinct_clear (hf : Distinct name f) (a : κ) :
    Distinct name (Function.update f a none) := by
  intro b c y z hb hc
  exact hf b c y z (entry_clear hb).2 (entry_clear hc).2

/-- A new entry has to differ from those of the other keys. -/
theorem distinct_set (hf : Distinct name f)
    (hnew : ∀ b y, b ≠ a → f b = some y → name y ≠ name x) :
    Distinct name (Function.update f a (some x)) := by
  intro b c y z hb hc hyz
  rcases entry_set hb with ⟨rfl, rfl⟩ | ⟨hba, hb'⟩
  · rcases entry_set hc with ⟨rfl, rfl⟩ | ⟨hca, hc'⟩
    · rfl
    · exact absurd hyz.symm (hnew c z hca hc')
  · rcases entry_set hc with ⟨rfl, rfl⟩ | ⟨hca, hc'⟩
    · exact absurd hyz (hnew b y hba hb')
    · exact hf b c y z hb' hc' hyz

end Table
