/-
  One set of registers for many users, saved and loaded lazily.

  A `LazyFile` over users `τ` and register contents `ρ` has one current content, the user
  that owns it, and a saved content for every user that takes part. The saved content of
  the owner is out of date: `file` reads the owner's registers from the current content
  and everybody else's from where they were saved. It is the eager view, in which every
  user has registers of its own.

  Proved, for each operation, what it does in the eager view:
  * `file_acquire`: handing the registers over changes nothing.
  * `file_attach`, `file_detach`: a user joins with a given content, or leaves.
  * `file_write`: the owner writes its own registers.
-/
import Mathlib.Logic.Function.Basic

structure LazyFile (τ ρ : Type*) where
  owner : Option τ
  cur : ρ
  saved : τ → Option ρ

namespace LazyFile

variable {τ ρ : Type*} [DecidableEq τ]

/-- The registers of user `t`, if it takes part. -/
def file (l : LazyFile τ ρ) (t : τ) : Option ρ :=
  if l.owner = some t then some l.cur else l.saved t

/-- An owner takes part. -/
def Wf (l : LazyFile τ ρ) : Prop := ∀ t, l.owner = some t → (l.saved t).isSome

/-- What is saved once the current content has been written back. -/
def writeBack (l : LazyFile τ ρ) : τ → Option ρ :=
  match l.owner with
  | none => l.saved
  | some o => Function.update l.saved o (some l.cur)

/-- User `t` wants to run: if it takes part and is not the owner, the current content is
    written back and its own is loaded. -/
def acquire (l : LazyFile τ ρ) (t : τ) : LazyFile τ ρ :=
  match l.saved t with
  | none => l
  | some r => if l.owner = some t then l else ⟨some t, r, l.writeBack⟩

/-- User `t` joins, with content `r`. -/
def attach (l : LazyFile τ ρ) (t : τ) (r : ρ) : LazyFile τ ρ :=
  { l with saved := Function.update l.saved t (some r) }

/-- User `t` leaves. -/
def detach (l : LazyFile τ ρ) (t : τ) : LazyFile τ ρ :=
  { l with owner := if l.owner = some t then none else l.owner
           saved := Function.update l.saved t none }

def write (l : LazyFile τ ρ) (r : ρ) : LazyFile τ ρ := { l with cur := r }

variable {l : LazyFile τ ρ}

theorem file_owner {t : τ} (h : l.owner = some t) : l.file t = some l.cur := if_pos h

theorem file_other {t : τ} (h : l.owner ≠ some t) : l.file t = l.saved t := if_neg h

/-- Writing back brings every saved content up to date. -/
theorem writeBack_eq (l : LazyFile τ ρ) : l.writeBack = l.file := by
  funext t
  unfold writeBack file
  cases h : l.owner with
  | none => rw [if_neg (fun he => by cases he)]
  | some o =>
    by_cases he : o = t
    · subst he
      rw [if_pos rfl]
      exact Function.update_self ..
    · rw [if_neg (fun h' => he (Option.some.inj h'))]
      exact Function.update_of_ne (fun h' => he h'.symm) ..

theorem isSome_file (hw : l.Wf) (t : τ) : (l.file t).isSome = (l.saved t).isSome := by
  by_cases h : l.owner = some t
  · rw [file_owner h, hw t h]
    rfl
  · rw [file_other h]

theorem acquire_absent {t : τ} (h : l.saved t = none) : l.acquire t = l := by
  unfold acquire
  rw [h]

theorem acquire_owner {t : τ} (h : l.owner = some t) : l.acquire t = l := by
  unfold acquire
  split
  · rfl
  · exact if_pos h

theorem acquire_new {t : τ} {r : ρ} (h : l.saved t = some r) (ho : l.owner ≠ some t) :
    l.acquire t = ⟨some t, r, l.writeBack⟩ := by
  unfold acquire
  rw [h]
  exact if_neg ho

/-- Who takes part owns the registers when it runs. -/
theorem acquire_takes {t : τ} (h : (l.saved t).isSome) : (l.acquire t).owner = some t := by
  obtain ⟨r, hr⟩ := Option.isSome_iff_exists.mp h
  by_cases ho : l.owner = some t
  · rw [acquire_owner ho, ho]
  · rw [acquire_new hr ho]

/-- Nobody else can become the owner. -/
theorem acquire_owner_cases (l : LazyFile τ ρ) (t : τ) :
    (l.acquire t).owner = l.owner ∨ (l.acquire t).owner = some t ∧ (l.saved t).isSome := by
  cases h : l.saved t with
  | none => exact Or.inl (by rw [acquire_absent h])
  | some r => exact Or.inr ⟨acquire_takes (by rw [h]; rfl), rfl⟩

theorem file_acquire (l : LazyFile τ ρ) (t : τ) : (l.acquire t).file = l.file := by
  cases h : l.saved t with
  | none => rw [acquire_absent h]
  | some r =>
    by_cases ho : l.owner = some t
    · rw [acquire_owner ho]
    · rw [acquire_new h ho]
      funext u
      by_cases hu : u = t
      · subst hu
        rw [file_other ho, h]
        exact if_pos rfl
      · rw [file_other (fun he => hu (Option.some.inj he).symm)]
        exact congrFun (writeBack_eq l) u

theorem saved_attach (t : τ) (r : ρ) : (l.attach t r).saved t = some r :=
  Function.update_self ..

theorem file_attach {t : τ} (ho : l.owner ≠ some t) (r : ρ) :
    (l.attach t r).file = Function.update l.file t (some r) := by
  funext u
  show (if l.owner = some u then some l.cur else Function.update l.saved t (some r) u) = _
  by_cases hu : u = t
  · subst hu
    rw [if_neg ho, Function.update_self, Function.update_self]
  · rw [Function.update_of_ne hu, Function.update_of_ne hu]
    rfl

/-- New saved contents are not seen, for the owner. -/
theorem file_attach_owner {t : τ} (ho : l.owner = some t) (r : ρ) :
    (l.attach t r).file = l.file := by
  funext u
  by_cases hu : u = t
  · subst hu
    exact (file_owner (l := l.attach u r) ho).trans (file_owner ho).symm
  · have hne : l.owner ≠ some u := by
      rw [ho]
      exact fun he => hu (Option.some.inj he).symm
    rw [file_other hne, file_other (l := l.attach t r) hne]
    exact Function.update_of_ne hu ..

theorem file_detach (l : LazyFile τ ρ) (t : τ) :
    (l.detach t).file = Function.update l.file t none := by
  funext u
  show (if (if l.owner = some t then none else l.owner) = some u then some l.cur
    else Function.update l.saved t none u) = _
  by_cases hu : u = t
  · subst hu
    rw [Function.update_self, Function.update_self]
    by_cases ho : l.owner = some u
    · rw [if_pos ho, if_neg (fun h => by cases h)]
    · rw [if_neg ho, if_neg ho]
  · rw [Function.update_of_ne hu, Function.update_of_ne hu]
    by_cases ho : l.owner = some t
    · have hne : l.owner ≠ some u := by
        rw [ho]
        exact fun he => hu (Option.some.inj he).symm
      rw [if_pos ho, if_neg (fun h => by cases h), file_other hne]
    · rw [if_neg ho]
      rfl

theorem file_write {t : τ} (ho : l.owner = some t) (r : ρ) :
    (l.write r).file = Function.update l.file t (some r) := by
  funext u
  by_cases hu : u = t
  · subst hu
    rw [Function.update_self]
    exact if_pos ho
  · have hne : l.owner ≠ some u := by
      rw [ho]
      exact fun he => hu (Option.some.inj he).symm
    rw [Function.update_of_ne hu, file_other hne]
    exact if_neg hne

end LazyFile
