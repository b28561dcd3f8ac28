/-
  Descriptors that are reused, and the objects behind them that are not.

  An `FdTable` says which object each open descriptor names and how often each object has
  been closed. Objects are numbered in the order in which they were opened, so an object
  keeps its identity when the system hands its descriptor out again.

  `Wf` is the ledger: every object ever opened is either open under exactly one descriptor
  and never closed, or closed exactly once and open under none. Opening under a descriptor
  that is not in use keeps it, and so does closing any descriptor (closing one that is not
  open is an error that changes nothing).
-/
import SsrlApps.Lib.Table
import Mathlib.Tactic.ByContra

/-- Open descriptors and the objects they name. -/
structure FdTable (δ : Type*) where
  owner : δ → Option Nat
  closes : Nat → Nat
  next : Nat

namespace FdTable

variable {δ : Type*} [DecidableEq δ]

/-- Nothing was ever opened. -/
def empty : FdTable δ := ⟨fun _ => none, fun _ => 0, 0⟩

/-- The next object is opened, under the descriptor `fd`. -/
def openAs (t : FdTable δ) (fd : δ) : FdTable δ :=
  { t with owner := Function.update t.owner fd (some t.next), next := t.next + 1 }

/-- `close(fd)` -/
def close (t : FdTable δ) (fd : δ) : FdTable δ :=
  match t.owner fd with
  | none => t
  | some c => { t with owner := Function.update t.owner fd none,
                       closes := Function.update t.closes c (t.closes c + 1) }

structure Wf (t : FdTable δ) : Prop where
  /-- An open descriptor names an object that was opened and never closed. -/
  live : ∀ fd c, t.owner fd = some c → c < t.next ∧ t.closes c = 0
  /-- No object is open under two descriptors. -/
  inj : ∀ fd fd' c, t.owner fd = some c → t.owner fd' = some c → fd = fd'
  /-- An object that was opened is open, or was closed once. -/
  total : ∀ c, c < t.next → (∃ fd, t.owner fd = some c) ∨ t.closes c = 1
  /-- An object that was not opened yet was not closed either. -/
  fresh : ∀ c, t.next ≤ c → t.closes c = 0

variable {t : FdTable δ}

omit [DecidableEq δ] in
theorem wf_empty : Wf (empty : FdTable δ) where
  live := by intro fd c h; cases h
  inj := by intro fd fd' c h; cases h
  total := by intro c h; exact absurd h (Nat.not_lt_zero c)
  fresh := by intro c _; rfl

theorem openAs_owner_self (fd : δ) : (t.openAs fd).owner fd = some t.next :=
  Function.update_self ..

theorem openAs_owner_ne {fd fd' : δ} (h : fd' ≠ fd) : (t.openAs fd).owner fd' = t.owner fd' :=
  Function.update_of_ne h ..

theorem wf_openAs (h : t.Wf) {fd : δ} (hfd : t.owner fd = none) : (t.openAs fd).Wf where
  live := by
    intro fd' c hc
    rcases Table.entry_set hc with ⟨-, rfl⟩ | ⟨-, hold⟩
    · exact ⟨Nat.lt_succ_self _, h.fresh _ (Nat.le_refl _)⟩
    · exact ⟨Nat.lt_succ_of_lt (h.live fd' c hold).1, (h.live fd' c hold).2⟩
  inj := by
    have hold : Table.Distinct id t.owner := by
      rintro fd1 fd2 c _ h1 h2 rfl
      exact h.inj fd1 fd2 c h1 h2
    intro fd1 fd2 c h1 h2
    refine Table.distinct_set hold ?_ fd1 fd2 c c h1 h2 rfl
    -- the new object is different from every older one
    intro fd' c' _ hc'
    exact Nat.ne_of_lt (h.live fd' c' hc').1
  total := by
    intro c hc
    rcases Nat.lt_succ_iff_lt_or_eq.mp hc with hlt | rfl
    · rcases h.total c hlt with ⟨fd', ho⟩ | hone
      · have hne : fd' ≠ fd := by rintro rfl; rw [hfd] at ho; cases ho
        exact Or.inl ⟨fd', by rw [openAs_owner_ne hne]; exact ho⟩
      · exact Or.inr hone
    · exact Or.inl ⟨fd, openAs_owner_self fd⟩
  fresh := by
    intro c hc
    exact h.fresh c (Nat.le_of_succ_le hc)

theorem close_closed {fd : δ} (h : t.owner fd = none) : t.close fd = t := by
  unfold close; rw [h]

theorem close_open {fd : δ} {c : Nat} (h : t.owner fd = some c) :
    t.close fd = { t with owner := Function.update t.owner fd none,
                          closes := Function.update t.closes c (t.closes c + 1) } := by
  unfold close; rw [h]

theorem close_owner_self (fd : δ) : (t.close fd).owner fd = none := by
  cases h : t.owner fd with
  | none => rw [close_closed h, h]
  | some c => rw [close_open h]; exact Function.update_self ..

theorem close_owner_ne {fd fd' : δ} (hne : fd' ≠ fd) :
    (t.close fd).owner fd' = t.owner fd' := by
  cases h : t.owner fd with
  | none => rw [close_closed h]
  | some c => rw [close_open h]; exact Function.update_of_ne hne ..

theorem close_next (fd : δ) : (t.close fd).next = t.next := by
  unfold close; split <;> rfl

theorem wf_close (h : t.Wf) (fd : δ) : (t.close fd).Wf := by
  cases hfd : t.owner fd with
  | none => rw [close_closed hfd]; exact h
  | some c =>
    obtain ⟨hlt, hzero⟩ := h.live fd c hfd
    -- a descriptor that stays open names another object than the closed one
    have hother : ∀ fd' c', (t.close fd).owner fd' = some c' → fd' ≠ fd ∧ c' ≠ c ∧
        t.owner fd' = some c' := by
      intro fd' c' ho
      rw [close_open hfd] at ho
      obtain ⟨hne, hold⟩ := Table.entry_clear ho
      refine ⟨hne, ?_, hold⟩
      rintro rfl
      exact hne (h.inj fd' fd _ hold hfd)
    have hcloses : ∀ c', (t.close fd).closes c' = if c' = c then 1 else t.closes c' := by
      intro c'
      rw [close_open hfd]
      by_cases he : c' = c
      · subst he
        rw [if_pos rfl]
        exact (Function.update_self ..).trans (by rw [hzero])
      · rw [if_neg he]
        exact Function.update_of_ne he ..
    refine ⟨?_, ?_, ?_, ?_⟩
    · intro fd' c' ho
      obtain ⟨-, hc', ho'⟩ := hother fd' c' ho
      rw [close_next, hcloses, if_neg hc']
      exact h.live fd' c' ho'
    · intro fd1 fd2 c' h1 h2
      exact h.inj fd1 fd2 c' (hother fd1 c' h1).2.2 (hother fd2 c' h2).2.2
    · intro c' hlt'
      rw [close_next] at hlt'
      rw [hcloses]
      by_cases he : c' = c
      · exact Or.inr (if_pos he)
      · rw [if_neg he]
        rcases h.total c' hlt' with ⟨fd', ho⟩ | hone
        · have hne : fd' ≠ fd := by
            rintro rfl
            rw [hfd, Option.some.injEq] at ho
            exact he ho.symm
          exact Or.inl ⟨fd', by rw [close_owner_ne hne]; exact ho⟩
        · exact Or.inr hone
    · intro c' hle
      rw [close_next] at hle
      rw [hcloses, if_neg (by omega)]
      exact h.fresh c' hle

end FdTable
