/-
  Two kinds of machine, over arbitrary states and inputs.

  A transducer `step : σ → ι → σ × ο` reads one input at a time and answers each.
  `after step s is` is the state behind the inputs `is`, `emits step s is` the list of
  answers, one for each input.

  A `Guarded` system has a total, executable `step` and a `guard` that says which events
  can happen in a state. `Legal s es` says that every event of `es` passed its guard when
  it happened, `exec s es` is the state it leads to. What the environment decides (the
  result of a call, the value of a counter) is part of the event.

  Proved:
  * `after_append`, `emits_append`: composition of runs.
  * `emits_congr`: two states related by a relation that every step keeps, and on which
    the answers agree, answer every input list alike.
  * `emits_tokens`: a code read token by token is read as a whole.
  * `Runs.append`: composition of runs, with their end and their answers.
  * `emits_idle`: inputs that change nothing and show nothing can be dropped.
  * `Guarded.invariant`, `Guarded.simulation`: the run rules for guarded systems.
  * `Guarded.history`: the run rule for what is said of a state and of the events before it.
  * `Guarded.always_iff`: two properties of a step that agree under an invariant hold of
    the same runs, even when the invariant only survives the steps that have them.
  * `Guarded.priced`: a run in which every step lowers a price is bounded by it.
  * `Guarded.exists_rest`: a system with bounded runs comes to rest.
  * `Guarded.repeated`: a run that leads back to its start can be repeated.
  * `Guarded.balance`: what comes in over a run, goes out over it or is still there.
-/
import Mathlib.Logic.Basic

namespace Transducer

variable {σ ι ο τ κ : Type*} (step : σ → ι → σ × ο)

/-- The state behind the inputs `is`. -/
def after (s : σ) (is : List ι) : σ := is.foldl (fun s i => (step s i).1) s

/-- The answers to the inputs `is`, in order. -/
def emits : σ → List ι → List ο
  | _, [] => []
  | s, i :: is => (step s i).2 :: emits (step s i).1 is

@[simp] theorem after_nil (s : σ) : after step s [] = s := rfl

@[simp] theorem after_cons (s : σ) (i : ι) (is : List ι) :
    after step s (i :: is) = after step (step s i).1 is := rfl

@[simp] theorem emits_nil (s : σ) : emits step s [] = [] := rfl

@[simp] theorem emits_cons (s : σ) (i : ι) (is : List ι) :
    emits step s (i :: is) = (step s i).2 :: emits step (step s i).1 is := rfl

theorem after_append (s : σ) (is js : List ι) :
    after step s (is ++ js) = after step (after step s is) js :=
  List.foldl_append

theorem emits_append (s : σ) (is js : List ι) :
    emits step s (is ++ js) = emits step s is ++ emits step (after step s is) js := by
  induction is generalizing s with
  | nil => rfl
  | cons i is ih => simp only [List.cons_append, emits_cons, after_cons, ih]

variable {step}

/-- Related states answer alike, when the relation survives every step. -/
theorem emits_congr {R : σ → σ → Prop}
    (hstep : ∀ s t i, R s t → (step s i).2 = (step t i).2 ∧ R (step s i).1 (step t i).1)
    {s t : σ} (hst : R s t) (is : List ι) : emits step s is = emits step t is := by
  induction is generalizing s t with
  | nil => rfl
  | cons i is ih =>
    obtain ⟨hout, hR⟩ := hstep s t i hst
    rw [emits_cons, emits_cons, hout, ih hR]

/-- Reading a code word by word: if every token, from a state in `I`, shows its meaning
    and leads back into `I`, so does every list of tokens. -/
theorem emits_tokens {I : σ → Prop} {enc : τ → List ι} {mean : τ → List κ}
    {vis : ο → Option κ}
    (htok : ∀ s t, I s → I (after step s (enc t)) ∧
      (emits step s (enc t)).filterMap vis = mean t)
    {s : σ} (hs : I s) (ts : List τ) :
    I (after step s (ts.flatMap enc)) ∧
      (emits step s (ts.flatMap enc)).filterMap vis = ts.flatMap mean := by
  induction ts generalizing s with
  | nil => exact ⟨hs, rfl⟩
  | cons t ts ih =>
    obtain ⟨hI, hmean⟩ := htok s t hs
    obtain ⟨hI', hmean'⟩ := ih hI
    rw [List.flatMap_cons, List.flatMap_cons, after_append, emits_append,
      List.filterMap_append, hmean, hmean']
    exact ⟨hI', rfl⟩

/-- From `s` the inputs `is` lead to `s'`; the answers to them are `os`, put together. -/
def Runs (step : σ → ι → σ × List κ) (s : σ) (is : List ι) (s' : σ) (os : List κ) : Prop :=
  after step s is = s' ∧ (emits step s is).flatten = os

theorem Runs.append {step : σ → ι → σ × List κ} {s s' s'' : σ} {is js : List ι} {os ps : List κ}
    (h : Runs step s is s' os) (h' : Runs step s' js s'' ps) :
    Runs step s (is ++ js) s'' (os ++ ps) := by
  obtain ⟨rfl, rfl⟩ := h
  obtain ⟨rfl, rfl⟩ := h'
  refine ⟨after_append _ s is js, ?_⟩
  rw [emits_append, List.flatten_append]

theorem runs_one (step : σ → ι → σ × List κ) (s : σ) (i : ι) :
    Runs step s [i] (step s i).1 (step s i).2 :=
  ⟨rfl, List.append_nil _⟩

/-- Inputs that leave every state alone and show nothing can be dropped. -/
theorem emits_idle {idle : ι → Bool} {vis : ο → Option κ}
    (hidle : ∀ s i, idle i = true → (step s i).1 = s ∧ vis (step s i).2 = none)
    (s : σ) (is : List ι) :
    after step s is = after step s (is.filter fun i => !idle i) ∧
      (emits step s is).filterMap vis =
        (emits step s (is.filter fun i => !idle i)).filterMap vis := by
  induction is generalizing s with
  | nil => exact ⟨rfl, rfl⟩
  | cons i is ih =>
    by_cases hi : idle i = true
    · obtain ⟨hs, hv⟩ := hidle s i hi
      have hdrop : (i :: is).filter (fun i => !idle i) = is.filter (fun i => !idle i) := by
        simp [hi]
      rw [hdrop, after_cons, emits_cons, List.filterMap_cons, hv, hs]
      exact ih s
    · have hkeep : (i :: is).filter (fun i => !idle i) =
          i :: is.filter (fun i => !idle i) := by simp [hi]
      rw [hkeep, after_cons, after_cons, emits_cons, emits_cons, List.filterMap_cons,
        List.filterMap_cons, (ih (step s i).1).2]
      exact ⟨(ih (step s i).1).1, rfl⟩

end Transducer

/-- A system whose events are guarded: `guard s e` says that `e` can happen in `s`. -/
structure Guarded (σ ε : Type*) where
  guard : σ → ε → Prop
  step : σ → ε → σ

namespace Guarded

variable {σ ε α : Type*} (M : Guarded σ ε)

/-- The state behind the events `es`. -/
def exec (s : σ) (es : List ε) : σ := es.foldl M.step s

/-- Every event of `es` passes its guard when its turn comes. -/
def Legal : σ → List ε → Prop
  | _, [] => True
  | s, e :: es => M.guard s e ∧ Legal (M.step s e) es

variable {M}

/-- What every guarded step keeps, every legal run keeps. -/
theorem invariant {I : σ → Prop} (hstep : ∀ s e, I s → M.guard s e → I (M.step s e))
    {s : σ} (hs : I s) {es : List ε} (hes : M.Legal s es) : I (M.exec s es) := by
  induction es generalizing s with
  | nil => exact hs
  | cons e es ih => exact ih (hstep s e hs hes.1) hes.2

/-- Every event of `es` has the property `P` in the state in which it happens. -/
def Always (M : Guarded σ ε) (P : σ → ε → Prop) : σ → List ε → Prop
  | _, [] => True
  | s, e :: es => P s e ∧ Always M P (M.step s e) es

theorem always_true (s : σ) (es : List ε) : M.Always (fun _ _ => True) s es := by
  induction es generalizing s with
  | nil => trivial
  | cons e es ih => exact ⟨trivial, ih _⟩

theorem always_append {P : σ → ε → Prop} {s : σ} {es fs : List ε} :
    M.Always P s (es ++ fs) ↔ M.Always P s es ∧ M.Always P (M.exec s es) fs := by
  induction es generalizing s with
  | nil => exact ⟨fun h => ⟨trivial, h⟩, And.right⟩
  | cons e es ih => exact (and_congr_right fun _ => ih).trans and_assoc.symm

/-- Under an invariant that the steps with `Q` keep, `P` holds all along a run exactly if
    `Q` does. Behind a step without `Q` nothing needs to be known. -/
theorem always_iff {I : σ → Prop} {F P Q : σ → ε → Prop}
    (hPQ : ∀ s e, I s → M.guard s e → F s e → (P s e ↔ Q s e))
    (hstep : ∀ s e, I s → M.guard s e → F s e → Q s e → I (M.step s e))
    {s : σ} (hs : I s) {es : List ε} (hes : M.Legal s es) (hF : M.Always F s es) :
    M.Always P s es ↔ M.Always Q s es := by
  induction es generalizing s with
  | nil => exact Iff.rfl
  | cons e es ih =>
    have hhead : P s e ↔ Q s e := hPQ s e hs hes.1 hF.1
    constructor
    · intro h
      have hq : Q s e := hhead.mp h.1
      exact ⟨hq, (ih (hstep s e hs hes.1 hF.1 hq) hes.2 hF.2).mp h.2⟩
    · intro h
      exact ⟨hhead.mpr h.1, (ih (hstep s e hs hes.1 hF.1 h.1) hes.2 hF.2).mpr h.2⟩

/-- What every guarded step with `F` has under an invariant, every step of a run has. -/
theorem always_of {I : σ → Prop} {F P : σ → ε → Prop}
    (hstep : ∀ s e, I s → M.guard s e → F s e → P s e ∧ I (M.step s e))
    {s : σ} (hs : I s) {es : List ε} (hes : M.Legal s es) (hF : M.Always F s es) :
    M.Always P s es ∧ I (M.exec s es) := by
  induction es generalizing s with
  | nil => exact ⟨trivial, hs⟩
  | cons e es ih =>
    obtain ⟨hP, hI⟩ := hstep s e hs hes.1 hF.1
    have htail := ih hI hes.2 hF.2
    exact ⟨⟨hP, htail.1⟩, htail.2⟩

/-- What `c` counts in each step, summed over the run. -/
def total (M : Guarded σ ε) (c : σ → ε → Nat) : σ → List ε → Nat
  | _, [] => 0
  | s, e :: es => c s e + total M c (M.step s e) es

theorem exec_append (s : σ) (es fs : List ε) :
    M.exec s (es ++ fs) = M.exec (M.exec s es) fs := List.foldl_append

theorem legal_append {s : σ} {es fs : List ε} (hes : M.Legal s es)
    (hfs : M.Legal (M.exec s es) fs) : M.Legal s (es ++ fs) := by
  induction es generalizing s with
  | nil => exact hfs
  | cons e es ih => exact ⟨hes.1, ih hes.2 hfs⟩

theorem legal_of_append {s : σ} {es fs : List ε} (h : M.Legal s (es ++ fs)) :
    M.Legal s es ∧ M.Legal (M.exec s es) fs := by
  induction es generalizing s with
  | nil => exact ⟨trivial, h⟩
  | cons e es ih =>
    obtain ⟨hes, hfs⟩ := ih h.2
    exact ⟨⟨h.1, hes⟩, hfs⟩

theorem exec_snoc (s : σ) (es : List ε) (e : ε) :
    M.exec s (es ++ [e]) = M.step (M.exec s es) e := exec_append s es [e]

/-- The run rule for what is said of a state together with the events that led there. -/
theorem history {J : List ε → σ → Prop}
    (hstep : ∀ es s e, J es s → M.guard s e → J (es ++ [e]) (M.step s e))
    {s : σ} (hs : J [] s) {es : List ε} (hes : M.Legal s es) : J es (M.exec s es) := by
  induction es generalizing s J with
  | nil => exact hs
  | cons e es ih =>
    -- the first event moves from the run into the history
    exact ih (J := fun fs => J (e :: fs)) (fun fs => hstep (e :: fs))
      (hstep [] s e hs hes.1) hes.2

theorem total_append (c : σ → ε → Nat) (s : σ) (es fs : List ε) :
    M.total c s (es ++ fs) = M.total c s es + M.total c (M.exec s es) fs := by
  induction es generalizing s with
  | nil => exact (Nat.zero_add _).symm
  | cons e es ih =>
    show c s e + M.total c (M.step s e) (es ++ fs) =
      c s e + M.total c (M.step s e) es + M.total c (M.exec (M.step s e) es) fs
    rw [ih, Nat.add_assoc]

/-- A legal run that leads back to where it started can be made any number of times. -/
theorem repeated {s : σ} {es : List ε} (hes : M.Legal s es) (hback : M.exec s es = s)
    (c : σ → ε → Nat) (k : Nat) :
    M.Legal s (List.replicate k es).flatten ∧ M.exec s (List.replicate k es).flatten = s ∧
      M.total c s (List.replicate k es).flatten = k * M.total c s es := by
  induction k with
  | zero => exact ⟨trivial, rfl, (Nat.zero_mul _).symm⟩
  | succ k ih =>
    obtain ⟨hlegal, hexec, htotal⟩ := ih
    rw [List.replicate_succ, List.flatten_cons]
    refine ⟨legal_append hes (hback.symm ▸ hlegal), ?_, ?_⟩
    · rw [exec_append, hback, hexec]
    · rw [total_append, hback, htotal, Nat.succ_mul, Nat.add_comm]

/-- If in every step what comes in (`c`) and what is there (`w`) are what goes out (`d`) and
    what is there then, so they are over a run. -/
theorem balance {I : σ → Prop} {F : σ → ε → Prop} {c d : σ → ε → Nat} {w : σ → Nat}
    (hstep : ∀ s e, I s → M.guard s e → F s e →
      c s e + w s = d s e + w (M.step s e) ∧ I (M.step s e))
    {s : σ} (hs : I s) {es : List ε} (hes : M.Legal s es) (hF : M.Always F s es) :
    M.total c s es + w s = M.total d s es + w (M.exec s es) := by
  induction es generalizing s with
  | nil => rfl
  | cons e es ih =>
    obtain ⟨hhead, hI⟩ := hstep s e hs hes.1 hF.1
    have htail : M.total c (M.step s e) es + w (M.step s e) =
        M.total d (M.step s e) es + w (M.exec s (e :: es)) := ih hI hes.2 hF.2
    show c s e + M.total c (M.step s e) es + w s =
      d s e + M.total d (M.step s e) es + w (M.exec s (e :: es))
    omega

/-- If every guarded step with `F` lowers a price, and counts `k` at most, a run is no longer
    than the price it starts with, and counts `k` for each event at most. -/
theorem priced {P : σ → Nat → Prop} {F : σ → ε → Prop} {c : σ → ε → Nat} {k : Nat}
    (hstep : ∀ s e n, P s n → M.guard s e → F s e →
      c s e ≤ k ∧ ∃ n', n' + 1 ≤ n ∧ P (M.step s e) n')
    {s : σ} {n : Nat} (h : P s n) {es : List ε} (hes : M.Legal s es) (hF : M.Always F s es) :
    es.length ≤ n ∧ M.total c s es ≤ k * es.length := by
  induction es generalizing s n with
  | nil => exact ⟨Nat.zero_le n, Nat.zero_le _⟩
  | cons e es ih =>
    obtain ⟨hk, n', hn', hprice⟩ := hstep s e n h hes.1 hF.1
    obtain ⟨hlen, htotal⟩ := ih hprice hes.2 hF.2
    refine ⟨?_, ?_⟩
    · show es.length + 1 ≤ n
      omega
    · show c s e + M.total c (M.step s e) es ≤ k * (es.length + 1)
      rw [Nat.mul_succ]
      omega

/-- Where runs are bounded, there is one that cannot go on. -/
theorem exists_rest {s : σ} {n : Nat} (hbound : ∀ es, M.Legal s es → es.length ≤ n) :
    ∃ es, M.Legal s es ∧ ∀ e, ¬ M.guard (M.exec s es) e := by
  induction n generalizing s with
  | zero =>
    refine ⟨[], trivial, fun e he => ?_⟩
    exact absurd (hbound [e] ⟨he, trivial⟩) (Nat.not_succ_le_zero 0)
  | succ n ih =>
    by_cases hgo : ∃ e, M.guard s e
    · obtain ⟨e, he⟩ := hgo
      obtain ⟨es, hes, hrest⟩ := ih fun es hes =>
        Nat.le_of_succ_le_succ (hbound (e :: es) ⟨he, hes⟩)
      exact ⟨e :: es, ⟨he, hes⟩, hrest⟩
    · exact ⟨[], trivial, fun e he => hgo ⟨e, he⟩⟩

/-- `Steps R a es b`: the relation `R` leads from `a` to `b` along the events `es`. -/
inductive Steps (R : α → ε → α → Prop) : α → List ε → α → Prop
  | nil (a : α) : Steps R a [] a
  | cons {a b c : α} {e : ε} {es : List ε} : R a e b → Steps R b es c → Steps R a (e :: es) c

/-- If every guarded step of `M` is matched by a step of `R` that restores the relation
    `sim`, then every legal run of `M` is matched by a run of `R` over the same events. -/
theorem simulation {R : α → ε → α → Prop} {sim : σ → α → Prop}
    (hstep : ∀ s e a, sim s a → M.guard s e → ∃ b, R a e b ∧ sim (M.step s e) b)
    {s : σ} {a : α} (hsa : sim s a) {es : List ε} (hes : M.Legal s es) :
    ∃ b, Steps R a es b ∧ sim (M.exec s es) b := by
  induction es generalizing s a with
  | nil => exact ⟨a, .nil a, hsa⟩
  | cons e es ih =>
    obtain ⟨b, hab, hb⟩ := hstep s e a hsa hes.1
    obtain ⟨c, hbc, hc⟩ := ih hb hes.2
    exact ⟨c, .cons hab hbc, hc⟩

end Guarded
