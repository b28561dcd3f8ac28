/-
  `rtemsMonitor` of monitor/call.cc, called by any number of tasks.

  Model. A step is one of a task between two accesses to what the tasks share:
  `monitorMutex` and `rtems_monitor_task_id`, the busy mark, which is 0 here at the start.
  `Pc` names what a task does next. What its calls return is part of the event: whether
  there is memory for the line editor and for the copy of a line, whether there is a line, and
  whether it is "exit" or "quit". `editors` and `lines` count what is allocated. The commands
  themselves, and the texts, are left out.

  Proved:
  * `inv_step`: the invariant, for each step.
  * `monitor_exclusive`: in any run, one task is in the monitor at most, it is the one whose
    id is stored, and nothing is allocated but for it.
  * `told_step`, `told_run`: what is known of one call, by how far it is.
  * `monitor_refused`: what a call returns is decided when it tests the busy mark, under the
    mutex: -1 if another task is in the monitor then, 0 if nobody is.
  * `monitor_progress`: while a task is in the function, somebody can go on.
-/
import SsrlApps.Lib.Machine
import Mathlib.Logic.Function.Basic

namespace SsrlApps.Monitor

/-! ## The code -/

/-- What a task does next. -/
inductive Pc where
  | idle
  /-- the first `rtems_semaphore_obtain` -/
  | enter
  /-- `if (rtems_monitor_task_id)` -/
  | check
  /-- `rtems_semaphore_release`, when the monitor is in use -/
  | refuse
  /-- `fprintf`, and `return -1` -/
  | giveUp
  /-- `rtems_task_ident` -/
  | mark
  | unlock
  | newGetLine
  | glGetLine
  | strdup
  | dispatch
  | cleanup
  /-- the second `rtems_semaphore_obtain` -/
  | leave
  /-- `rtems_monitor_task_id = 0` -/
  | clear
  /-- the last `rtems_semaphore_release` -/
  | done
  /-- `return 0` -/
  | finish
deriving DecidableEq

/-- What happens in a step; the arguments are what the calls return. -/
inductive Act where
  | call
  | obtain
  | test
  | release
  | ident
  | newGetLine (ok : Bool)
  | glGetLine (line : Bool)
  | strdup (ok : Bool)
  | dispatch (quit : Bool)
  | cleanup
  | clear
  | ret
deriving DecidableEq

/-- The local variables. -/
structure Local where
  pc : Pc
  gl : Bool
  buf : Bool

variable {τ : Type*} [DecidableEq τ]

structure State (τ : Type*) where
  task : τ → Local
  mutex : Option τ
  monitorTaskId : Option τ
  editors : Nat
  lines : Nat

def boot : State τ := ⟨fun _ => ⟨.idle, false, false⟩, none, none, 0, 0⟩

/-- The task gets to another place, and all else stays. -/
def State.goto (s : State τ) (t : τ) (pc : Pc) : State τ :=
  { s with task := Function.update s.task t { s.task t with pc := pc } }

/-- `free(buf)`, with `buf` set to what `strdup` returns. -/
def State.setBuf (s : State τ) (t : τ) (ok : Bool) : State τ :=
  { s with
    task := Function.update s.task t { s.task t with buf := ok }
    lines := s.lines - (s.task t).buf.toNat + ok.toNat }

def State.setGl (s : State τ) (t : τ) (ok : Bool) : State τ :=
  { s with
    task := Function.update s.task t { s.task t with gl := ok }
    editors := s.editors - (s.task t).gl.toNat + ok.toNat }

/-- The events of a task. -/
def guard (s : State τ) (e : τ × Act) : Prop :=
  match (s.task e.1).pc, e.2 with
  | .idle, .call => True
  | .enter, .obtain => s.mutex = none
  | .check, .test => True
  | .refuse, .release => True
  | .mark, .ident => True
  | .unlock, .release => True
  | .newGetLine, .newGetLine _ => True
  | .glGetLine, .glGetLine _ => True
  | .strdup, .strdup _ => True
  | .dispatch, .dispatch _ => True
  | .cleanup, .cleanup => True
  | .leave, .obtain => s.mutex = none
  | .clear, .clear => True
  | .done, .release => True
  | .giveUp, .ret => True
  | .finish, .ret => True
  | _, _ => False

/-- Where a task gets to by `rtems_semaphore_release`. -/
def Pc.released : Pc → Pc
  | .unlock => .newGetLine
  | .refuse => .giveUp
  | _ => .finish

def step (s : State τ) (e : τ × Act) : State τ :=
  let t := e.1
  match e.2 with
  | .call => s.goto t .enter
  | .obtain => { s.goto t (if (s.task t).pc = .enter then .check else .clear) with mutex := some t }
  | .test => s.goto t (if s.monitorTaskId = none then .mark else .refuse)
  | .release => { s.goto t (s.task t).pc.released with mutex := none }
  | .ident => { s.goto t .unlock with monitorTaskId := some t }
  | .newGetLine ok => (s.setGl t ok).goto t (if ok then .glGetLine else .cleanup)
  | .glGetLine line => s.goto t (if line then .strdup else .cleanup)
  | .strdup ok => (s.setBuf t ok).goto t (if ok then .dispatch else .cleanup)
  | .dispatch quit => s.goto t (if quit then .cleanup else .glGetLine)
  | .cleanup => ((s.setGl t false).setBuf t false).goto t .leave
  | .clear => { s.goto t .done with monitorTaskId := none }
  | .ret => s.goto t .idle

def monitorSystem (τ : Type*) [DecidableEq τ] : Guarded (State τ) (τ × Act) := ⟨guard, step⟩

/-! ## Owners -/

/-- `o` is the one for which `f` holds, if there is one. -/
def Owns (o : Option τ) (f : τ → Bool) : Prop := ∀ t, o = some t ↔ f t = true

section Owners

variable {o : Option τ} {f : τ → Bool} {t : τ}

theorem Owns.keep (h : Owns o f) {b : Bool} (hb : b = f t) : Owns o (Function.update f t b) := by
  rw [hb, Function.update_eq_self]
  exact h

theorem Owns.take (h : Owns none f) : Owns (some t) (Function.update f t true) := by
  intro u
  by_cases hu : u = t
  · subst hu
    exact iff_of_true rfl (Function.update_self ..)
  · rw [Function.update_of_ne hu, ← h u]
    exact iff_of_false (fun h => hu (Option.some.inj h).symm) nofun

theorem Owns.drop (h : Owns o f) (ht : f t = true) : Owns none (Function.update f t false) := by
  intro u
  by_cases hu : u = t
  · subst hu
    rw [Function.update_self]
    exact iff_of_false nofun Bool.false_ne_true
  · rw [Function.update_of_ne hu, ← h u, (h t).mpr ht]
    exact iff_of_false nofun fun h => hu (Option.some.inj h).symm

omit [DecidableEq τ] in
theorem Owns.eq (h : Owns o f) {u : τ} (ht : f t = true) (hu : f u = true) : t = u :=
  Option.some.inj (((h t).mpr ht).symm.trans ((h u).mpr hu))

end Owners

/-! ## The invariant -/

/-- The task has the mutex. -/
def Pc.locked : Pc → Bool
  | .check | .refuse | .mark | .unlock | .clear | .done => true
  | _ => false

/-- The task is in the monitor: its id is stored. -/
def Pc.inside : Pc → Bool
  | .unlock | .newGetLine | .glGetLine | .strdup | .dispatch | .cleanup | .leave | .clear => true
  | _ => false

/-- The task may have a line editor and a line. -/
def Pc.holds : Pc → Bool
  | .newGetLine | .glGetLine | .strdup | .dispatch | .cleanup => true
  | _ => false

namespace State

def locked (s : State τ) (t : τ) : Bool := (s.task t).pc.locked

def inside (s : State τ) (t : τ) : Bool := (s.task t).pc.inside

/-- What the task in the monitor has allocated. -/
def ownerHas (s : State τ) (has : Local → Bool) : Nat :=
  match s.monitorTaskId with
  | none => 0
  | some t => (has (s.task t)).toNat

end State

structure Inv (s : State τ) : Prop where
  mutex : Owns s.mutex s.locked
  stored : Owns s.monitorTaskId s.inside
  mark : ∀ t, (s.task t).pc = .mark → s.monitorTaskId = none
  held : ∀ t, (s.task t).gl = true ∨ (s.task t).buf = true → (s.task t).pc.holds = true
  editors : s.editors = s.ownerHas Local.gl
  lines : s.lines = s.ownerHas Local.buf

omit [DecidableEq τ] in
theorem inv_boot : Inv (boot : State τ) where
  mutex _ := iff_of_false nofun Bool.false_ne_true
  stored _ := iff_of_false nofun Bool.false_ne_true
  mark _ h := nomatch h
  held _ h := absurd h (by rintro (h | h) <;> cases h)
  editors := rfl
  lines := rfl

section Steps

variable {s : State τ} {t : τ}

theorem goto_task (u : τ) (pc : Pc) :
    ((s.goto t pc).task u).pc = (if u = t then pc else (s.task u).pc) ∧
      ((s.goto t pc).task u).gl = (s.task u).gl ∧ ((s.goto t pc).task u).buf = (s.task u).buf := by
  unfold State.goto
  dsimp only
  by_cases hu : u = t
  · subst hu
    rw [Function.update_self, if_pos rfl]
    exact ⟨rfl, rfl, rfl⟩
  · rw [Function.update_of_ne hu, if_neg hu]
    exact ⟨rfl, rfl, rfl⟩

theorem goto_self (pc : Pc) : ((s.goto t pc).task t).pc = pc := by
  rw [(goto_task t pc).1, if_pos rfl]

theorem goto_locked (pc : Pc) : (s.goto t pc).locked = Function.update s.locked t pc.locked := by
  funext u
  unfold State.locked
  rw [(goto_task u pc).1]
  by_cases hu : u = t
  · subst hu
    rw [if_pos rfl, Function.update_self]
  · rw [if_neg hu, Function.update_of_ne hu]

theorem goto_inside (pc : Pc) : (s.goto t pc).inside = Function.update s.inside t pc.inside := by
  funext u
  unfold State.inside
  rw [(goto_task u pc).1]
  by_cases hu : u = t
  · subst hu
    rw [if_pos rfl, Function.update_self]
  · rw [if_neg hu, Function.update_of_ne hu]

omit [DecidableEq τ] in
theorem locked_eq {pc : Pc} (hpc : (s.task t).pc = pc) : s.locked t = pc.locked :=
  congrArg Pc.locked hpc

omit [DecidableEq τ] in
theorem inside_eq {pc : Pc} (hpc : (s.task t).pc = pc) : s.inside t = pc.inside :=
  congrArg Pc.inside hpc

/-- The step to `pc`, with what it does to the mutex and to the busy mark. -/
def State.move (s : State τ) (t : τ) (pc : Pc) (mutex monitorTaskId : Option τ) : State τ :=
  { s.goto t pc with mutex := mutex, monitorTaskId := monitorTaskId }

/-- How a step to another place leaves the busy mark: as it was, or in the hands of a task that
    has the mutex and nothing else, and that stores or clears its own id. -/
def MarkStep (s : State τ) (t : τ) (o : Option τ) : Prop :=
  o = s.monitorTaskId ∨ s.locked t = true ∧ (s.task t).pc.holds = false ∧
    (o = none ∨ o = some t) ∧ (s.monitorTaskId = none ∨ s.monitorTaskId = some t)

theorem move_task (pc : Pc) (m o : Option τ) (u : τ) :
    ((s.move t pc m o).task u).pc = (if u = t then pc else (s.task u).pc) ∧
      ((s.move t pc m o).task u).gl = (s.task u).gl ∧
        ((s.move t pc m o).task u).buf = (s.task u).buf :=
  goto_task u pc

theorem ownerHas_move {has : Local → Bool} {pc : Pc} {m o : Option τ} (hid : MarkStep s t o)
    (hsame : ∀ u, has ((s.move t pc m o).task u) = has (s.task u))
    (hholds : has (s.task t) = true → (s.task t).pc.holds = true) :
    s.ownerHas has = (s.move t pc m o).ownerHas has := by
  have hnew : (s.move t pc m o).monitorTaskId = o := rfl
  unfold State.ownerHas
  rw [hnew]
  rcases hid with hkept | ⟨-, hfree, ho, hold⟩
  · rw [hkept]
    cases s.monitorTaskId with
    | none => rfl
    | some u => exact congrArg Bool.toNat (hsame u).symm
  · -- the task has nothing, whether it is the owner or not
    have hnone : has (s.task t) = false := by
      refine Bool.eq_false_iff.mpr fun h => ?_
      rw [hholds h] at hfree
      cases hfree
    have hzero : (has ((s.move t pc m o).task t)).toNat = 0 := by rw [hsame, hnone]; rfl
    rcases ho with rfl | rfl <;> rcases hold with h | h <;> rw [h] <;> dsimp only
    · rw [hnone]; rfl
    · exact hzero.symm
    · rw [hzero, hnone]; rfl

/-- A step that allocates nothing. -/
theorem inv_move (hi : Inv s) {pc : Pc} {m o : Option τ}
    (hmutex : Owns m (Function.update s.locked t pc.locked))
    (hstored : Owns o (Function.update s.inside t pc.inside))
    (hmark : pc = .mark → o = none)
    (hheld : pc.holds = true ∨ (s.task t).gl = false ∧ (s.task t).buf = false)
    (hid : MarkStep s t o) : Inv (s.move t pc m o) := by
  -- nobody else has the mutex when the mark changes
  have hother : ∀ u, u ≠ t → s.locked u = true → o = s.monitorTaskId := fun u hu hlocked =>
    hid.resolve_right fun h => hu (hi.mutex.eq hlocked h.1)
  have htask := move_task (s := s) (t := t) pc m o
  refine ⟨?_, ?_, fun u hu => ?_, fun u hu => ?_, ?_, ?_⟩
  · show Owns m (s.goto t pc).locked
    rw [goto_locked]
    exact hmutex
  · show Owns o (s.goto t pc).inside
    rw [goto_inside]
    exact hstored
  · rw [(htask u).1] at hu
    split at hu
    · exact hmark hu
    · next hne => exact (hother u hne (locked_eq hu)).trans (hi.mark u hu)
  · obtain ⟨hpc, hgl, hbuf⟩ := htask u
    rw [hgl, hbuf] at hu
    rw [hpc]
    split
    · next hsame =>
      subst hsame
      refine hheld.resolve_right fun hnone => ?_
      rw [hnone.1, hnone.2] at hu
      rcases hu with h | h <;> cases h
    · exact hi.held u hu
  · exact hi.editors.trans
      (ownerHas_move hid (fun u => (htask u).2.1) fun h => hi.held t (Or.inl h))
  · exact hi.lines.trans
      (ownerHas_move hid (fun u => (htask u).2.2) fun h => hi.held t (Or.inr h))

/-- A step that touches nothing shared. -/
theorem inv_goto (hi : Inv s) {pc : Pc} (hlocked : pc.locked = s.locked t)
    (hinside : pc.inside = s.inside t) (hmark : pc = .mark → s.monitorTaskId = none)
    (hheld : pc.holds = true ∨ (s.task t).gl = false ∧ (s.task t).buf = false) :
    Inv (s.goto t pc) :=
  inv_move hi (hi.mutex.keep hlocked) (hi.stored.keep hinside) hmark hheld (Or.inl rfl)

/-- A step from one place in the monitor to another. -/
theorem inv_within (hi : Inv s) {pc pc' : Pc} (hpc : (s.task t).pc = pc)
    (hlocked : pc'.locked = pc.locked) (hinside : pc'.inside = pc.inside)
    (hholds : pc'.holds = true) : Inv (s.goto t pc') := by
  have hne : pc' ≠ .mark := by
    rintro rfl
    cases hholds
  exact inv_goto hi (hlocked.trans (locked_eq hpc).symm) (hinside.trans (inside_eq hpc).symm)
    (fun h => absurd h hne) (Or.inl hholds)

/-- The task in the monitor allocates or frees. -/
theorem inv_local (hi : Inv s) (hinside : s.inside t = true) {l : Local}
    (hpc : l.pc = (s.task t).pc) (hholds : l.pc.holds = true) {editors lines : Nat}
    (heditors : editors = l.gl.toNat) (hlines : lines = l.buf.toNat) :
    Inv { s with task := Function.update s.task t l, editors := editors, lines := lines } := by
  have hsame : ∀ u, ((Function.update s.task t l) u).pc = (s.task u).pc := by
    intro u
    by_cases hu : u = t
    · subst hu
      rw [Function.update_self, hpc]
    · rw [Function.update_of_ne hu]
  have hid : s.monitorTaskId = some t := (hi.stored t).mpr hinside
  refine ⟨fun u => ?_, fun u => ?_, fun u hu => ?_, fun u hu => ?_, ?_, ?_⟩
  · unfold State.locked
    dsimp only
    rw [hsame]
    exact hi.mutex u
  · unfold State.inside
    dsimp only
    rw [hsame]
    exact hi.stored u
  · exact hi.mark u ((hsame u).symm.trans hu)
  · by_cases htask : u = t
    · subst htask
      show ((Function.update s.task u l) u).pc.holds = true
      rw [Function.update_self]
      exact hholds
    · dsimp only at hu ⊢
      rw [Function.update_of_ne htask] at hu ⊢
      exact hi.held u hu
  · unfold State.ownerHas
    dsimp only
    rw [hid]
    dsimp only
    rw [Function.update_self, heditors]
  · unfold State.ownerHas
    dsimp only
    rw [hid]
    dsimp only
    rw [Function.update_self, hlines]

theorem inv_set (hi : Inv s) (hinside : s.inside t = true) (hholds : (s.task t).pc.holds = true)
    (ok : Bool) : Inv (s.setGl t ok) ∧ Inv (s.setBuf t ok) := by
  have hid : s.monitorTaskId = some t := (hi.stored t).mpr hinside
  have hgl : s.editors = (s.task t).gl.toNat := by
    rw [hi.editors, State.ownerHas, hid]
  have hbuf : s.lines = (s.task t).buf.toNat := by
    rw [hi.lines, State.ownerHas, hid]
  refine ⟨inv_local hi hinside (l := { s.task t with gl := ok }) rfl hholds ?_ hbuf,
    inv_local hi hinside (l := { s.task t with buf := ok }) rfl hholds hgl ?_⟩
  · rw [hgl, Nat.sub_self, Nat.zero_add]
  · rw [hbuf, Nat.sub_self, Nat.zero_add]

theorem setGl_task (ok : Bool) :
    ((s.setGl t ok).task t).pc = (s.task t).pc ∧ ((s.setGl t ok).task t).gl = ok ∧
      ((s.setGl t ok).task t).buf = (s.task t).buf := by
  unfold State.setGl
  dsimp only
  rw [Function.update_self]
  exact ⟨rfl, rfl, rfl⟩

theorem setBuf_task (ok : Bool) :
    ((s.setBuf t ok).task t).pc = (s.task t).pc ∧ ((s.setBuf t ok).task t).gl = (s.task t).gl ∧
      ((s.setBuf t ok).task t).buf = ok := by
  unfold State.setBuf
  dsimp only
  rw [Function.update_self]
  exact ⟨rfl, rfl, rfl⟩

omit [DecidableEq τ] in
/-- A task that cannot hold anything holds nothing. -/
theorem Inv.free (hi : Inv s) {pc : Pc} (hpc : (s.task t).pc = pc) (hholds : pc.holds = false) :
    (s.task t).gl = false ∧ (s.task t).buf = false := by
  have hno : ¬ ((s.task t).gl = true ∨ (s.task t).buf = true) := by
    intro h
    have hyes := hi.held t h
    rw [hpc, hholds] at hyes
    cases hyes
  rw [not_or, Bool.not_eq_true, Bool.not_eq_true] at hno
  exact hno

/-- `rtems_semaphore_obtain`, when the mutex is free. -/
theorem inv_obtain (hi : Inv s) (hfree : s.mutex = none) {pc pc' : Pc} (hpc : (s.task t).pc = pc)
    (hlocked : pc'.locked = true) (hinside : pc'.inside = pc.inside) (hne : pc' ≠ .mark)
    (hholds : pc.holds = false) :
    Inv { s.goto t pc' with mutex := some t } := by
  have hmutex : Owns (some t) (Function.update s.locked t pc'.locked) := by
    rw [hlocked]
    exact (hfree ▸ hi.mutex : Owns none s.locked).take
  exact inv_move hi hmutex (hi.stored.keep (hinside.trans (inside_eq hpc).symm))
    (fun h => absurd h hne) (Or.inr (hi.free hpc hholds)) (Or.inl rfl)

/-- `rtems_semaphore_release`. -/
theorem inv_release (hi : Inv s) {pc pc' : Pc} (hpc : (s.task t).pc = pc)
    (hlocked : pc.locked = true) (hlocked' : pc'.locked = false) (hinside : pc'.inside = pc.inside)
    (hholds : pc.holds = false) : Inv { s.goto t pc' with mutex := none } := by
  have hmutex : Owns none (Function.update s.locked t pc'.locked) := by
    rw [hlocked']
    exact hi.mutex.drop ((locked_eq hpc).trans hlocked)
  have hne : pc' ≠ .mark := by
    rintro rfl
    cases hlocked'
  exact inv_move hi hmutex (hi.stored.keep (hinside.trans (inside_eq hpc).symm))
    (fun h => absurd h hne) (Or.inr (hi.free hpc hholds)) (Or.inl rfl)

theorem step_obtain {pc : Pc} (hpc : (s.task t).pc = pc) :
    step s (t, .obtain) =
      { s.goto t (if pc = .enter then .check else .clear) with mutex := some t } := by
  unfold step
  dsimp only
  rw [hpc]

theorem step_release {pc : Pc} (hpc : (s.task t).pc = pc) :
    step s (t, .release) = { s.goto t pc.released with mutex := none } := by
  unfold step
  dsimp only
  rw [hpc]

/-- A step of one task leaves the others where they are. -/
theorem step_other {u : τ} (hu : u ≠ t) (a : Act) : (step s (t, a)).task u = s.task u := by
  have hother : ∀ (l : Local) (task : τ → Local), Function.update task t l u = task u :=
    fun l task => Function.update_of_ne hu l task
  cases a with
  | newGetLine ok => exact (hother _ _).trans (hother _ _)
  | strdup ok => exact (hother _ _).trans (hother _ _)
  | cleanup => exact (hother _ _).trans ((hother _ _).trans (hother _ _))
  | _ => exact hother _ _

end Steps

theorem inv_step (s : State τ) (e : τ × Act) (hi : Inv s) (hg : guard s e) : Inv (step s e) := by
  obtain ⟨t, a⟩ := e
  unfold guard at hg
  dsimp only at hg
  split at hg
  · next hpc =>
    exact inv_goto hi (locked_eq hpc).symm (inside_eq hpc).symm nofun
      (Or.inr (hi.free hpc rfl))
  · next hpc =>
    rw [step_obtain hpc]
    exact inv_obtain hi hg hpc rfl rfl nofun rfl
  · next hpc =>
    -- the mark is looked at in the hands of the mutex
    show Inv (s.goto t (if s.monitorTaskId = none then .mark else .refuse))
    split
    · next hnone =>
      exact inv_goto hi (locked_eq hpc).symm (inside_eq hpc).symm (fun _ => hnone)
        (Or.inr (hi.free hpc rfl))
    · exact inv_goto hi (locked_eq hpc).symm (inside_eq hpc).symm nofun
        (Or.inr (hi.free hpc rfl))
  · next hpc =>
    rw [step_release hpc]
    exact inv_release hi hpc rfl rfl rfl rfl
  · next hpc =>
    have hnone := hi.mark t hpc
    have hstored : Owns (some t) (Function.update s.inside t true) :=
      (hnone ▸ hi.stored : Owns none s.inside).take
    exact inv_move hi (hi.mutex.keep (locked_eq hpc).symm) hstored nofun
      (Or.inr (hi.free hpc rfl))
      (Or.inr ⟨locked_eq hpc, by rw [hpc]; rfl, Or.inr rfl, Or.inl hnone⟩)
  · next hpc =>
    rw [step_release hpc]
    exact inv_release hi hpc rfl rfl rfl rfl
  · next ok hpc =>
    have hset := (inv_set hi (inside_eq hpc) (by rw [hpc]; rfl) ok).1
    have hpc' : ((s.setGl t ok).task t).pc = .newGetLine := (setGl_task ok).1.trans hpc
    cases ok with
    | true => exact inv_within hset hpc' rfl rfl rfl
    | false => exact inv_within hset hpc' rfl rfl rfl
  · next line hpc =>
    cases line with
    | true => exact inv_within hi hpc rfl rfl rfl
    | false => exact inv_within hi hpc rfl rfl rfl
  · next ok hpc =>
    have hset := (inv_set hi (inside_eq hpc) (by rw [hpc]; rfl) ok).2
    have hpc' : ((s.setBuf t ok).task t).pc = .strdup := (setBuf_task ok).1.trans hpc
    cases ok with
    | true => exact inv_within hset hpc' rfl rfl rfl
    | false => exact inv_within hset hpc' rfl rfl rfl
  · next quit hpc =>
    cases quit with
    | true => exact inv_within hi hpc rfl rfl rfl
    | false => exact inv_within hi hpc rfl rfl rfl
  · next hpc =>
    have hgl := (inv_set hi (inside_eq hpc) (by rw [hpc]; rfl) false).1
    have hpc' : ((s.setGl t false).task t).pc = .cleanup := (setGl_task false).1.trans hpc
    have hbuf := (inv_set hgl (inside_eq hpc') (by rw [hpc']; rfl) false).2
    obtain ⟨hsame, hkeptgl, hnone⟩ := setBuf_task (s := s.setGl t false) (t := t) false
    have hpc'' := hsame.trans hpc'
    exact inv_goto hbuf (locked_eq hpc'').symm (inside_eq hpc'').symm nofun
      (Or.inr ⟨hkeptgl.trans (setGl_task false).2.1, hnone⟩)
  · next hpc =>
    rw [step_obtain hpc]
    exact inv_obtain hi hg hpc rfl rfl nofun rfl
  · next hpc =>
    have hstored : Owns none (Function.update s.inside t false) := hi.stored.drop (inside_eq hpc)
    exact inv_move hi (hi.mutex.keep (locked_eq hpc).symm) hstored nofun
      (Or.inr (hi.free hpc rfl))
      (Or.inr ⟨locked_eq hpc, by rw [hpc]; rfl, Or.inl rfl,
        Or.inr ((hi.stored t).mpr (inside_eq hpc))⟩)
  · next hpc =>
    rw [step_release hpc]
    exact inv_release hi hpc rfl rfl rfl rfl
  · next hpc =>
    exact inv_goto hi (locked_eq hpc).symm (inside_eq hpc).symm nofun
      (Or.inr (hi.free hpc rfl))
  · next hpc =>
    exact inv_goto hi (locked_eq hpc).symm (inside_eq hpc).symm nofun
      (Or.inr (hi.free hpc rfl))
  · cases hg

/-! ## Runs -/

theorem inv_run {es : List (τ × Act)} (h : (monitorSystem τ).Legal boot es) :
    Inv ((monitorSystem τ).exec boot es) :=
  Guarded.invariant (M := monitorSystem τ) inv_step inv_boot h

/-- Task 2 calls while task 1 is in the monitor, and gets its -1 when task 1 has left. -/
def twoTasks : List (Nat × Act) := [
  (1, .call), (1, .obtain), (1, .test), (1, .ident), (1, .release), (1, .newGetLine true),
  (2, .call), (2, .obtain), (2, .test), (2, .release),
  (1, .glGetLine true), (1, .strdup true), (1, .dispatch true), (1, .cleanup), (1, .obtain),
  (1, .clear), (1, .release), (1, .ret), (2, .ret)]

theorem twoTasks_legal : (monitorSystem Nat).Legal boot twoTasks :=
  ⟨trivial, rfl, trivial, trivial, trivial, trivial, trivial, rfl, trivial, trivial, trivial,
    trivial, trivial, trivial, rfl, trivial, trivial, trivial, trivial, trivial⟩

/-- What a step returns from `rtemsMonitor`, if it does. -/
def returned (s : State τ) (e : τ × Act) : Option Int :=
  match (s.task e.1).pc, e.2 with
  | .giveUp, .ret => some (-1)
  | .finish, .ret => some 0
  | _, _ => none

omit [DecidableEq τ] in
theorem ownerHas_le (s : State τ) (has : Local → Bool) : s.ownerHas has ≤ 1 := by
  unfold State.ownerHas
  cases s.monitorTaskId with
  | none => exact Nat.zero_le 1
  | some t => exact Bool.toNat_le _

/-- One task at most is in the monitor, and its id is stored; it has one line editor and one
    line at most, and nothing is allocated when nobody is there. -/
theorem monitor_exclusive {es : List (τ × Act)} (h : (monitorSystem τ).Legal boot es) :
    let s := (monitorSystem τ).exec boot es
    (∀ t u, s.inside t = true → s.inside u = true → t = u) ∧
      (∀ t, s.monitorTaskId = some t ↔ s.inside t = true) ∧ s.editors ≤ 1 ∧ s.lines ≤ 1 ∧
      (s.monitorTaskId = none → s.editors = 0 ∧ s.lines = 0) := by
  intro s
  have hi : Inv s := inv_run h
  refine ⟨fun t u ht hu => hi.stored.eq ht hu, hi.stored, ?_, ?_, fun hnone => ⟨?_, ?_⟩⟩
  · rw [hi.editors]
    exact ownerHas_le s _
  · rw [hi.lines]
    exact ownerHas_le s _
  · rw [hi.editors, State.ownerHas, hnone]
  · rw [hi.lines, State.ownerHas, hnone]

theorem monitor_exclusive_twoTasks :
    let s := (monitorSystem Nat).exec boot twoTasks
    (∀ t u, s.inside t = true → s.inside u = true → t = u) ∧
      (∀ t, s.monitorTaskId = some t ↔ s.inside t = true) ∧ s.editors ≤ 1 ∧ s.lines ≤ 1 ∧
      (s.monitorTaskId = none → s.editors = 0 ∧ s.lines = 0) :=
  monitor_exclusive twoTasks_legal

/-! ## One call

  `s` is the state behind the call, and `es` the events since then, of all tasks. -/

section OneCall

variable {s : State τ} {t : τ} {es : List (τ × Act)}

def OtherIn (t : τ) (s : State τ) : Prop := ∃ u, u ≠ t ∧ s.inside u = true

def NobodyIn (s : State τ) : Prop := ∀ u, s.inside u = false

/-- The task has tested the busy mark, with the mutex, where `P` holds. -/
def Tests (s : State τ) (t : τ) (es : List (τ × Act)) (P : State τ → Prop) : Prop :=
  ∃ pre post, es = pre ++ (t, .test) :: post ∧
    ((monitorSystem τ).exec s pre).mutex = some t ∧ P ((monitorSystem τ).exec s pre)

/-- The task has been in the monitor. -/
def BeenIn (s : State τ) (t : τ) (es : List (τ × Act)) : Prop :=
  ∃ pre, pre <+: es ∧ ((monitorSystem τ).exec s pre).inside t = true

/-- How far a call is. -/
inductive Phase where
  | out
  | asks
  | refused
  | granted
  | served

def Pc.phase : Pc → Phase
  | .idle => .out
  | .enter | .check => .asks
  | .refuse | .giveUp => .refused
  | .mark => .granted
  | _ => .served

/-- What is known of a call, by its phase. -/
def Told (s : State τ) (t : τ) (es : List (τ × Act)) : Phase → Prop
  | .out => True
  | .asks => ¬ BeenIn s t es
  | .refused => Tests s t es (OtherIn t) ∧ ¬ BeenIn s t es
  | .granted => Tests s t es NobodyIn
  | .served => Tests s t es NobodyIn ∧ BeenIn s t es

theorem Tests.snoc {P : State τ → Prop} (h : Tests s t es P) (e : τ × Act) :
    Tests s t (es ++ [e]) P := by
  obtain ⟨pre, post, rfl, hmutex, hP⟩ := h
  exact ⟨pre, post ++ [e], by rw [List.append_assoc]; rfl, hmutex, hP⟩

theorem tests_now {P : State τ → Prop} (hmutex : ((monitorSystem τ).exec s es).mutex = some t)
    (hP : P ((monitorSystem τ).exec s es)) : Tests s t (es ++ [(t, .test)]) P :=
  ⟨es, [], rfl, hmutex, hP⟩

theorem beenIn_snoc {e : τ × Act} :
    BeenIn s t (es ++ [e]) ↔
      BeenIn s t es ∨ ((monitorSystem τ).exec s (es ++ [e])).inside t = true := by
  constructor
  · rintro ⟨pre, hpre, hinside⟩
    rcases List.prefix_concat_iff.mp hpre with rfl | hpre
    · exact Or.inr hinside
    · exact Or.inl ⟨pre, hpre, hinside⟩
  · rintro (⟨pre, hpre, hinside⟩ | hinside)
    · exact ⟨pre, hpre.trans (List.prefix_append es [e]), hinside⟩
    · exact ⟨es ++ [e], List.prefix_rfl, hinside⟩

omit [DecidableEq τ] in
theorem Inv.nobodyIn (hi : Inv s) (hfree : s.monitorTaskId = none) : NobodyIn s := by
  intro u
  refine Bool.eq_false_iff.mpr fun hin => ?_
  have hstored := (hi.stored u).mpr hin
  rw [hfree] at hstored
  cases hstored

omit [DecidableEq τ] in
theorem Inv.otherIn (hi : Inv s) (hbusy : s.monitorTaskId ≠ none) (hout : s.inside t = false) :
    OtherIn t s := by
  obtain ⟨u, hu⟩ := Option.ne_none_iff_exists'.mp hbusy
  have hin := (hi.stored u).mp hu
  refine ⟨u, ?_, hin⟩
  rintro rfl
  rw [hout] at hin
  cases hin

theorem Pc.inside_phase {pc : Pc} (h : pc.inside = true) : pc.phase = .served := by
  cases pc <;> first | rfl | cases h

/-- How a step of a task moves its own call on. -/
theorem phase_step {a : Act} (hg : guard s (t, a)) (hcall : a ≠ .call) :
    let phase := ((step s (t, a)).task t).pc.phase
    phase = .out ∨ phase = (s.task t).pc.phase ∨
      (a = .test ∧ (s.task t).pc = .check ∧
        phase = if s.monitorTaskId = none then .granted else .refused) ∨
      ((s.task t).pc.phase = .granted ∧ phase = .served ∧
        (step s (t, a)).inside t = true) := by
  intro phase
  have hphase : ∀ {s' : State τ} {pc : Pc}, step s (t, a) = s' → (s'.task t).pc = pc →
      phase = pc.phase := by
    rintro s' pc hstep hpc
    show ((step s (t, a)).task t).pc.phase = _
    rw [hstep, hpc]
  -- most steps stay in their phase
  have hkept : ∀ {s' : State τ} {pc pc' : Pc}, (s.task t).pc = pc → step s (t, a) = s' →
      (s'.task t).pc = pc' → pc'.phase = pc.phase → phase = (s.task t).pc.phase := by
    rintro s' pc pc' hpc hstep hpc' hsame
    rw [hphase hstep hpc', hsame, hpc]
  unfold guard at hg
  dsimp only at hg
  split at hg
  · exact absurd rfl hcall
  · next hpc => exact Or.inr (Or.inl (hkept hpc (step_obtain hpc) (goto_self _) rfl))
  · next hpc =>
    refine Or.inr (Or.inr (Or.inl ⟨rfl, hpc, (hphase rfl (goto_self _)).trans ?_⟩))
    split
    · rfl
    · rfl
  · next hpc => exact Or.inr (Or.inl (hkept hpc (step_release hpc) (goto_self _) rfl))
  · next hpc =>
    have hunlock : ((step s (t, .ident)).task t).pc = .unlock := goto_self _
    exact Or.inr (Or.inr (Or.inr
      ⟨congrArg Pc.phase hpc, hphase rfl hunlock, congrArg Pc.inside hunlock⟩))
  · next hpc => exact Or.inr (Or.inl (hkept hpc (step_release hpc) (goto_self _) rfl))
  · next ok hpc =>
    exact Or.inr (Or.inl (hkept hpc rfl (goto_self _) (by cases ok <;> rfl)))
  · next line hpc =>
    exact Or.inr (Or.inl (hkept hpc rfl (goto_self _) (by cases line <;> rfl)))
  · next ok hpc =>
    exact Or.inr (Or.inl (hkept hpc rfl (goto_self _) (by cases ok <;> rfl)))
  · next quit hpc =>
    exact Or.inr (Or.inl (hkept hpc rfl (goto_self _) (by cases quit <;> rfl)))
  · next hpc => exact Or.inr (Or.inl (hkept hpc rfl (goto_self _) rfl))
  · next hpc => exact Or.inr (Or.inl (hkept hpc (step_obtain hpc) (goto_self _) rfl))
  · next hpc => exact Or.inr (Or.inl (hkept hpc rfl (goto_self _) rfl))
  · next hpc => exact Or.inr (Or.inl (hkept hpc (step_release hpc) (goto_self _) rfl))
  · exact Or.inl (hphase rfl (goto_self _))
  · exact Or.inl (hphase rfl (goto_self _))
  · cases hg

/-- What is known of a call stays known while its phase is the same. -/
theorem Told.keep {phase : Phase} {e : τ × Act} (h : Told s t es phase)
    (hout : ((monitorSystem τ).exec s (es ++ [e])).inside t = true → phase = .served) :
    Told s t (es ++ [e]) phase := by
  cases phase with
  | out => trivial
  | asks => exact fun hin => (beenIn_snoc.mp hin).elim h fun hnow => nomatch hout hnow
  | refused =>
    exact ⟨h.1.snoc e, fun hin => (beenIn_snoc.mp hin).elim h.2 fun hnow => nomatch hout hnow⟩
  | granted =>
    have htests : Tests s t es NobodyIn := h
    exact htests.snoc e
  | served => exact ⟨h.1.snoc e, beenIn_snoc.mpr (Or.inl h.2)⟩

/-- A step of the call itself. -/
theorem told_own {a : Act} (hi : Inv ((monitorSystem τ).exec s es))
    (hg : guard ((monitorSystem τ).exec s es) (t, a)) (hcall : a ≠ .call)
    (h : Told s t es (((monitorSystem τ).exec s es).task t).pc.phase) :
    Told s t (es ++ [(t, a)]) ((step ((monitorSystem τ).exec s es) (t, a)).task t).pc.phase := by
  have hnow : (monitorSystem τ).exec s (es ++ [(t, a)]) =
      step ((monitorSystem τ).exec s es) (t, a) := Guarded.exec_snoc s es (t, a)
  rcases phase_step hg hcall with hret | hkept | ⟨rfl, hpc, hdecided⟩ | ⟨hgranted, hserved, hin⟩
  · rw [hret]
    trivial
  · rw [hkept]
    refine h.keep fun hin => ?_
    rw [hnow] at hin
    exact hkept.symm.trans (Pc.inside_phase hin)
  · have hmutex := (hi.mutex t).mpr (locked_eq hpc)
    rw [hpc] at h
    rw [hdecided]
    split
    · next hfree =>
      exact tests_now hmutex (hi.nobodyIn hfree)
    · next hbusy =>
      refine ⟨tests_now hmutex (hi.otherIn hbusy (inside_eq hpc)), fun hbeen => ?_⟩
      rcases beenIn_snoc.mp hbeen with hbefore | hin
      · exact h hbefore
      · rw [hnow] at hin
        have hphase := Pc.inside_phase hin
        rw [hdecided, if_neg hbusy] at hphase
        cases hphase
  · rw [hgranted] at h
    rw [hserved]
    have htests : Tests s t es NobodyIn := h
    exact ⟨htests.snoc _, beenIn_snoc.mpr (Or.inr (hnow ▸ hin))⟩

/-- A step of any task. -/
theorem told_step {e : τ × Act} (hi : Inv ((monitorSystem τ).exec s es))
    (hg : guard ((monitorSystem τ).exec s es) e) (hcall : e ≠ (t, .call))
    (h : Told s t es (((monitorSystem τ).exec s es).task t).pc.phase) :
    Told s t (es ++ [e]) ((step ((monitorSystem τ).exec s es) e).task t).pc.phase := by
  obtain ⟨u, a⟩ := e
  by_cases hu : u = t
  · subst hu
    exact told_own hi hg (fun ha => hcall (ha ▸ rfl)) h
  · have hsame := step_other (s := (monitorSystem τ).exec s es) (Ne.symm hu) a
    rw [hsame]
    refine h.keep fun hin => ?_
    have hnow : (monitorSystem τ).exec s (es ++ [(u, a)]) =
        step ((monitorSystem τ).exec s es) (u, a) := Guarded.exec_snoc s es (u, a)
    rw [hnow, State.inside, hsame] at hin
    exact Pc.inside_phase hin

/-- What is known of a call behind any events but the next call of the same task. -/
theorem told_run (hi : Inv s) (hstart : Told s t [] (s.task t).pc.phase)
    (hlegal : (monitorSystem τ).Legal s es) (hcall : (t, .call) ∉ es) :
    Told s t es (((monitorSystem τ).exec s es).task t).pc.phase := by
  have hrun := Guarded.history (M := monitorSystem τ) (s := s)
    (J := fun es s' => s' = (monitorSystem τ).exec s es ∧ Inv s' ∧
      ((t, .call) ∉ es → Told s t es (s'.task t).pc.phase))
    (fun es s' e ⟨hs', hi', htold⟩ hg => by
      subst hs'
      refine ⟨(Guarded.exec_snoc s es e).symm, inv_step _ e hi' hg, fun hnot => ?_⟩
      rw [List.mem_append, List.mem_singleton, not_or] at hnot
      exact told_step hi' hg (Ne.symm hnot.2) (htold hnot.1))
    ⟨rfl, hi, fun _ => hstart⟩ hlegal
  exact hrun.2.2 hcall

end OneCall

/-- What a call returns is decided when it tests the busy mark, with the mutex: it returns -1 if
    another task is in the monitor then, and it is never in it itself; it returns 0 if nobody
    is, and it has been in. -/
theorem monitor_refused {es fs : List (τ × Act)} {t : τ}
    (h : (monitorSystem τ).Legal boot (es ++ (t, .call) :: fs)) (hcall : (t, .call) ∉ fs) :
    let s := (monitorSystem τ).exec boot (es ++ [(t, .call)])
    (returned ((monitorSystem τ).exec s fs) (t, .ret) = some (-1) →
        Tests s t fs (OtherIn t) ∧ ¬ BeenIn s t fs) ∧
      (returned ((monitorSystem τ).exec s fs) (t, .ret) = some 0 →
        Tests s t fs NobodyIn ∧ BeenIn s t fs) := by
  intro s
  rw [List.append_cons] at h
  obtain ⟨hbefore, hlegal⟩ := Guarded.legal_of_append h
  have hstart : (s.task t).pc = .enter := by
    show (((monitorSystem τ).exec boot (es ++ [(t, .call)])).task t).pc = .enter
    rw [Guarded.exec_snoc]
    exact goto_self .enter
  have hnotIn : ¬ BeenIn s t [] := by
    rintro ⟨pre, hpre, hin⟩
    rw [List.prefix_nil.mp hpre] at hin
    have hphase := Pc.inside_phase (show (s.task t).pc.inside = true from hin)
    rw [hstart] at hphase
    cases hphase
  have htold := told_run (inv_run hbefore) (by rw [hstart]; exact hnotIn) hlegal hcall
  generalize (monitorSystem τ).exec s fs = s' at htold
  unfold returned
  constructor
  · intro hret
    split at hret
    · next hpc _ =>
      rw [hpc] at htold
      exact htold
    · cases hret
    · cases hret
  · intro hret
    split at hret
    · cases hret
    · next hpc _ =>
      rw [hpc] at htold
      exact htold
    · cases hret

/-- Task 2 is refused, and gets its -1 when nobody is in the monitor any more; task 1, which
    was in it, has got its 0 by then. -/
theorem monitor_refused_twoTasks :
    let s := (monitorSystem Nat).exec boot (twoTasks.take 7)
    let fs := (twoTasks.drop 7).dropLast
    let s' := (monitorSystem Nat).exec boot (twoTasks.take 1)
    let fs' := (twoTasks.drop 1).dropLast.dropLast
    (NobodyIn ((monitorSystem Nat).exec s fs) ∧
        returned ((monitorSystem Nat).exec s fs) (2, .ret) = some (-1) ∧
        Tests s 2 fs (OtherIn 2) ∧ ¬ BeenIn s 2 fs) ∧
      returned ((monitorSystem Nat).exec s' fs') (1, .ret) = some 0 ∧
      Tests s' 1 fs' NobodyIn ∧ BeenIn s' 1 fs' := by
  intro s fs s' fs'
  have hwhole : (monitorSystem Nat).Legal boot
      (twoTasks.take 6 ++ (2, .call) :: fs ++ [(2, .ret)]) := twoTasks_legal
  have hwhole' : (monitorSystem Nat).Legal boot
      ([] ++ (1, .call) :: fs' ++ [(1, .ret), (2, .ret)]) := twoTasks_legal
  have hlegal := (Guarded.legal_of_append hwhole).1
  have hlegal' := (Guarded.legal_of_append hwhole').1
  have hret : returned ((monitorSystem Nat).exec s fs) (2, .ret) = some (-1) := rfl
  have hret' : returned ((monitorSystem Nat).exec s' fs') (1, .ret) = some 0 := rfl
  have hi : Inv ((monitorSystem Nat).exec s fs) := inv_run hlegal
  exact ⟨⟨hi.nobodyIn rfl, hret, (monitor_refused hlegal (by decide)).1 hret⟩, hret',
    (monitor_refused hlegal' (by decide)).2 hret'⟩

omit [DecidableEq τ] in
/-- A task that does not wait for the mutex can go on. -/
theorem own_step (s : State τ) {t : τ} (hidle : (s.task t).pc ≠ .idle)
    (henter : (s.task t).pc ≠ .enter) (hleave : (s.task t).pc ≠ .leave) :
    ∃ a, a ≠ Act.call ∧ guard s (t, a) := by
  unfold guard
  dsimp only
  cases hpc : (s.task t).pc with
  | idle => exact absurd hpc hidle
  | enter => exact absurd hpc henter
  | leave => exact absurd hpc hleave
  | check => exact ⟨.test, nofun, trivial⟩
  | refuse => exact ⟨.release, nofun, trivial⟩
  | mark => exact ⟨.ident, nofun, trivial⟩
  | unlock => exact ⟨.release, nofun, trivial⟩
  | newGetLine => exact ⟨.newGetLine true, nofun, trivial⟩
  | glGetLine => exact ⟨.glGetLine true, nofun, trivial⟩
  | strdup => exact ⟨.strdup true, nofun, trivial⟩
  | dispatch => exact ⟨.dispatch true, nofun, trivial⟩
  | cleanup => exact ⟨.cleanup, nofun, trivial⟩
  | clear => exact ⟨.clear, nofun, trivial⟩
  | done => exact ⟨.release, nofun, trivial⟩
  | giveUp => exact ⟨.ret, nofun, trivial⟩
  | finish => exact ⟨.ret, nofun, trivial⟩

/-- While a task is in the function, it can go on, or the task that has the mutex can. -/
theorem monitor_progress {es : List (τ × Act)} (h : (monitorSystem τ).Legal boot es) {t : τ}
    (ht : (((monitorSystem τ).exec boot es).task t).pc ≠ .idle) :
    ∃ u a, a ≠ Act.call ∧ guard ((monitorSystem τ).exec boot es) (u, a) ∧
      (u = t ∨ ((monitorSystem τ).exec boot es).mutex = some u) := by
  have hi := inv_run h
  generalize (monitorSystem τ).exec boot es = s at ht hi ⊢
  cases hm : s.mutex with
  | some u =>
    have hlocked : (s.task u).pc.locked = true := (hi.mutex u).mp hm
    have hne : ∀ q : Pc, q.locked = false → (s.task u).pc ≠ q := by
      intro q hq hpc
      rw [hpc, hq] at hlocked
      cases hlocked
    obtain ⟨a, ha, hguard⟩ := own_step s (hne _ rfl) (hne _ rfl) (hne _ rfl)
    exact ⟨u, a, ha, hguard, Or.inr rfl⟩
  | none =>
    by_cases hwait : (s.task t).pc = .enter ∨ (s.task t).pc = .leave
    · refine ⟨t, .obtain, nofun, ?_, Or.inl rfl⟩
      unfold guard
      dsimp only
      rcases hwait with hpc | hpc
      · rw [hpc]
        exact hm
      · rw [hpc]
        exact hm
    · rw [not_or] at hwait
      obtain ⟨a, ha, hguard⟩ := own_step s ht hwait.1 hwait.2
      exact ⟨t, a, ha, hguard, Or.inl rfl⟩

theorem monitor_progress_first :
    ∃ u a, a ≠ Act.call ∧ guard ((monitorSystem Nat).exec boot [(1, .call)]) (u, a) ∧
      (u = 1 ∨ ((monitorSystem Nat).exec boot [(1, .call)]).mutex = some u) := by
  have hlegal : (monitorSystem Nat).Legal boot [(1, .call)] := ⟨trivial, trivial⟩
  have hpc : (((monitorSystem Nat).exec boot [(1, .call)]).task 1).pc ≠ .idle := nofun
  exact monitor_progress hlegal hpc

end SsrlApps.Monitor
