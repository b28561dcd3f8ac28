/-
  Spawning a task with a record of arguments: `spawnUtil` and `loopUtil` with `wrap`, and
  `telnetd_dflt_spawn` with `wrap_delete`.

  Model. A step is one of the spawner or of the task, in any order; the task runs from its
  start on. What the calls return is the environment: the allocation, the creation and the
  start of the task, the creation of the period, which periods are missed, and which calls
  of the user function return. The state records who has freed the argument record, whether
  a record was used that is not there (`fault`, behind which there is no step), whether the
  spawner used the record behind the start (`late`), and whether the task object exists.

  A run is at rest when neither party has a step. A task in a call that never returns is at
  rest.

  Proved:
  * `inv_move`, `inv_run`: the invariant, for a step and for a run.
  * `run_ends`: there is a bound on the length of the runs.
  * `spawnOk_iff`: a failed call leaves nothing behind and a successful one hands its record
    over, exactly if a missing record is looked for, no task that was created fails to
    start, and, with `wrap`, the user function returns.
  * `spawn_leaks`: a task that cannot be started is not deleted.
-/
import SsrlApps.Lib.Machine
import Mathlib.Data.List.Range

namespace SsrlApps.Spawn

/-! ## The code -/

inductive Party
  | spawner
  | task
deriving DecidableEq

/-- The entry of the task. `times` is that of the record. -/
inductive Wrapper
  | wrap (times : Int)
  | wrapDelete

/-- What the spawning functions differ in. -/
structure Helper where
  /-- The function looks whether it got its record. -/
  checksNull : Bool
  wrapper : Wrapper

def spawnUtil : Helper := ⟨false, .wrap 1⟩

def loopUtil (nTimes : Int) : Helper := ⟨false, .wrap nTimes⟩

def telnetdDfltSpawn : Helper := ⟨true, .wrapDelete⟩

/-- What the calls return. -/
structure Env where
  /-- `calloc`, `malloc` -/
  alloc : Bool
  /-- `rtems_task_create` -/
  create : Bool
  /-- `rtems_task_start` -/
  start : Bool
  /-- `rtems_rate_monotonic_create` -/
  periodCreate : Bool
  /-- `rtems_rate_monotonic_period` returns RTEMS_TIMEOUT -/
  missed : Nat → Bool
  /-- The user function returns from this call. -/
  returns : Nat → Bool

/-- What the spawner does next. -/
inductive SpawnerPc
  | alloc
  | fill
  | create
  | start
  /-- `free(args)` -/
  | undo
  | started
  | returned (ok : Bool)
deriving DecidableEq

/-- What the task does next. `times` is the local variable of `wrap`. -/
inductive TaskPc
  | absent
  | entry
  | createPeriod (times : Int)
  /-- `while (times-- > 0)` -/
  | loop (times : Int)
  | period (times : Int)
  | call (times : Int)
  | inFn (times : Int)
  | cleanup
  /-- `free(arg)` -/
  | release
  /-- `rtems_task_delete(RTEMS_SELF)` -/
  | delete
  | gone
deriving DecidableEq

structure Sys where
  spawner : SpawnerPc
  task : TaskPc
  allocated : Bool
  freedBy : List Party
  fault : Bool
  late : Bool
  /-- The task object is allocated. -/
  object : Bool
  /-- The local variable `period` of `wrap` is not 0. -/
  period : Bool
  calls : Nat
  /-- "Missed deadline after %i loops" -/
  reported : Option Int
deriving DecidableEq

namespace Sys

def init : Sys := ⟨.alloc, .absent, false, [], false, false, false, false, 0, none⟩

/-- The record is there. -/
def live (s : Sys) : Bool := s.allocated && s.freedBy.isEmpty

/-- The record is used. -/
def touch (who : Party) (s : Sys) : Sys :=
  { s with
    fault := s.fault || !s.live
    late := s.late || (decide (who = .spawner) && decide (s.task ≠ .absent)) }

/-- `free` of the record, which does nothing to NULL. -/
def release (who : Party) (s : Sys) : Sys :=
  if s.allocated then { s.touch who with freedBy := s.freedBy ++ [who] } else s

end Sys

/-- A step of `spawnUtil`, `loopUtil` or `telnetd_dflt_spawn`. -/
def spawnerStep (h : Helper) (env : Env) (s : Sys) : Option Sys :=
  match s.spawner with
  | .alloc =>
    if env.alloc = false ∧ h.checksNull = true then some { s with spawner := .returned false }
    else some { s with spawner := .fill, allocated := env.alloc }
  | .fill => some { s.touch .spawner with spawner := .create }
  | .create =>
    if env.create then some { s with spawner := .start, object := true }
    else some { s with spawner := .undo }
  | .start =>
    if env.start then some { s with spawner := .started, task := .entry }
    else some { s with spawner := .undo }
  | .undo => some { s.release .spawner with spawner := .returned false }
  | .started => some { s with spawner := .returned true }
  | .returned _ => none

/-- A step of `wrap`, where `argTimes` is `arg->times`. -/
def wrapStep (env : Env) (argTimes : Int) (s : Sys) : Option Sys :=
  match s.task with
  | .absent => none
  | .entry => some { s.touch .task with task := .createPeriod argTimes }
  | .createPeriod times =>
    if 1 < times then
      if env.periodCreate then some { s with task := .loop times, period := true }
      else some { s with task := .cleanup }
    else some { s with task := .loop times }
  | .loop times =>
    if 0 < times then some { s with task := .period (times - 1) }
    else some { s with task := .cleanup }
  | .period times =>
    if s.period then
      if env.missed s.calls then
        some { s.touch .task with task := .cleanup, reported := some (argTimes - times - 1) }
      else some { s.touch .task with task := .call times }
    else some { s with task := .call times }
  | .call times => some { s.touch .task with task := .inFn times, calls := s.calls + 1 }
  | .inFn times => if env.returns (s.calls - 1) then some { s with task := .loop times } else none
  | .cleanup => some { s with task := .release, period := false }
  | .release => some { s.release .task with task := .delete }
  | .delete => some { s with task := .gone, object := false }
  | .gone => none

/-- A step of `wrap_delete`, which frees its record before it calls the function. -/
def wrapDeleteStep (env : Env) (s : Sys) : Option Sys :=
  match s.task with
  | .entry => some { s.touch .task with task := .release }
  | .release => some { s.release .task with task := .call 0 }
  | .call times => some { s with task := .inFn times, calls := s.calls + 1 }
  | .inFn _ => if env.returns (s.calls - 1) then some { s with task := .delete } else none
  | .delete => some { s with task := .gone, object := false }
  | _ => none

def taskStep (env : Env) : Wrapper → Sys → Option Sys
  | .wrap times => wrapStep env times
  | .wrapDelete => wrapDeleteStep env

/-- A step of one of the two. Behind a fault there is none. -/
def move (h : Helper) (env : Env) (s : Sys) (p : Party) : Option Sys :=
  if s.fault then none
  else
    match p with
    | .spawner => spawnerStep h env s
    | .task => taskStep env h.wrapper s

def system (h : Helper) (env : Env) : Guarded Sys Party where
  guard s p := (move h env s p).isSome = true
  step s p := (move h env s p).getD s

/-! ## The property -/

/-- The periods before the first missed deadline, of `times` at most. -/
def periods (env : Env) (times : Int) : Nat :=
  ((List.range times.toNat).takeWhile fun k => !env.missed k).length

/-- A run that is over. -/
structure Settled (h : Helper) (env : Env) (s : Sys) : Prop where
  reports : ∃ ok, s.spawner = .returned ok
  failed : s.spawner = .returned false →
    s.object = false ∧ s.freedBy = if s.allocated then [.spawner] else []
  succeeded : s.spawner = .returned true → s.freedBy = [.task]
  counted : ∀ times, h.wrapper = .wrap times → 1 < times → env.periodCreate = true →
    s.spawner = .returned true → s.calls = periods env times ∧
      s.reported = if (s.calls : Int) < times then some (s.calls : Int) else none

def AtRest (h : Helper) (env : Env) (s : Sys) : Prop := ∀ p, ¬ (system h env).guard s p

/-- A failed call leaves nothing behind, a successful one hands its record over. -/
structure SpawnOk (h : Helper) (env : Env) : Prop where
  ends : ∃ bound, ∀ ps, (system h env).Legal Sys.init ps → ps.length ≤ bound
  /-- No step uses a record that is not there, and none of the spawner uses it behind the
      start; nobody frees it again. -/
  clean : ∀ ps, (system h env).Legal Sys.init ps →
    ((system h env).exec Sys.init ps).fault = false ∧
      ((system h env).exec Sys.init ps).late = false ∧
      ((system h env).exec Sys.init ps).freedBy.length ≤ 1
  settled : ∀ ps, (system h env).Legal Sys.init ps →
    AtRest h env ((system h env).exec Sys.init ps) →
      Settled h env ((system h env).exec Sys.init ps)

/-- The calls of the user function that `wrap` makes if they return. -/
def planned (env : Env) (times : Int) : Nat :=
  if times ≤ 1 then times.toNat
  else if env.periodCreate then periods env times
  else 0

/-- There is a record, or it is looked for; a task that is created can be started; and the
    user function returns to `wrap`. -/
structure Benign (h : Helper) (env : Env) : Prop where
  record : h.checksNull = false → env.alloc = true
  starts : env.alloc = true → env.create = true → env.start = true
  comesBack : env.alloc = true → env.create = true → ∀ times, h.wrapper = .wrap times →
    ∀ k, k < planned env times → env.returns k = true

/-! ## The invariant -/

/-- In the loop of `wrap`, with `times` turns to go. -/
structure Looping (env : Env) (argTimes times : Int) (period : Bool) (calls : Nat) : Prop where
  turns : (calls : Int) + times = argTimes
  started : 0 ≤ times ∨ calls = 0
  period : period = decide (1 < argTimes)
  created : 1 < argTimes → env.periodCreate = true
  returned : ∀ k, k < calls → env.returns k = true
  inTime : 1 < argTimes → ∀ k, k < calls → env.missed k = false

/-- Behind the loop of `wrap`. -/
structure Called (env : Env) (argTimes : Int) (calls : Nat) (reported : Option Int) :
    Prop where
  returned : ∀ k, k < calls → env.returns k = true
  planned : calls = planned env argTimes
  reported : 1 < argTimes → env.periodCreate = true →
    reported = if (calls : Int) < argTimes then some (calls : Int) else none

def WrapInv (env : Env) (argTimes : Int) (s : Sys) : Prop :=
  match s.task with
  | .absent => False
  | .entry => s.freedBy = [] ∧ s.reported = none ∧ s.calls = 0 ∧ s.period = false
  | .createPeriod times =>
    s.freedBy = [] ∧ s.reported = none ∧ s.calls = 0 ∧ s.period = false ∧ times = argTimes
  | .loop times =>
    s.freedBy = [] ∧ s.reported = none ∧ Looping env argTimes times s.period s.calls
  | .period times =>
    s.freedBy = [] ∧ s.reported = none ∧ Looping env argTimes (times + 1) s.period s.calls ∧
      0 ≤ times
  | .call times =>
    s.freedBy = [] ∧ s.reported = none ∧ Looping env argTimes (times + 1) s.period s.calls ∧
      0 ≤ times ∧ (1 < argTimes → env.missed s.calls = false)
  | .inFn times =>
    s.freedBy = [] ∧ s.reported = none ∧ ∃ c, s.calls = c + 1 ∧
      Looping env argTimes (times + 1) s.period c ∧ 0 ≤ times ∧
        (1 < argTimes → env.missed c = false)
  | .cleanup | .release => s.freedBy = [] ∧ Called env argTimes s.calls s.reported
  | .delete | .gone => s.freedBy = [.task] ∧ Called env argTimes s.calls s.reported

def DeleteInv (s : Sys) : Prop :=
  match s.task with
  | .entry | .release => s.freedBy = []
  | .call _ | .inFn _ | .delete | .gone => s.freedBy = [.task]
  | _ => False

/-- What the task has done, and that it is the only one to use the record. -/
structure Running (h : Helper) (env : Env) (s : Sys) : Prop where
  allocated : s.allocated = true
  sound : s.fault = false
  never : s.late = false
  done : match h.wrapper with
    | .wrap times => WrapInv env times s
    | .wrapDelete => DeleteInv s

/-- The task could not be created, or not be started. -/
def NotStarted (env : Env) (object : Bool) : Prop :=
  (object = false ∧ env.create = false) ∨
    (object = true ∧ env.create = true ∧ env.start = false)

/-- The states of a run, by what the spawner has done. -/
inductive Inv (h : Helper) (env : Env) : Sys → Prop
  | alloc : Inv h env Sys.init
  | refused (halloc : env.alloc = false) (hchecks : h.checksNull = true) :
      Inv h env { Sys.init with spawner := .returned false }
  | fill (hrecord : env.alloc = true ∨ h.checksNull = false) :
      Inv h env { Sys.init with spawner := .fill, allocated := env.alloc }
  | crashed {s : Sys} (halloc : env.alloc = false) (hchecks : h.checksNull = false)
      (hfault : s.fault = true) : Inv h env s
  | create (halloc : env.alloc = true) :
      Inv h env { Sys.init with spawner := .create, allocated := true }
  | start (halloc : env.alloc = true) (hcreate : env.create = true) :
      Inv h env { Sys.init with spawner := .start, allocated := true, object := true }
  | undo (halloc : env.alloc = true) {object : Bool} (hnot : NotStarted env object) :
      Inv h env { Sys.init with spawner := .undo, allocated := true, object := object }
  | failed (halloc : env.alloc = true) {object : Bool} (hnot : NotStarted env object) :
      Inv h env { Sys.init with
        spawner := .returned false, allocated := true, object := object, freedBy := [.spawner] }
  | running {s : Sys} (halloc : env.alloc = true)
      (hstart : env.create = true ∧ env.start = true)
      (hspawner : s.spawner = .started ∨ s.spawner = .returned true)
      (hrunning : Running h env s) : Inv h env s

variable {h : Helper} {env : Env}

theorem touch_live {s : Sys} (halloc : s.allocated = true) (hheld : s.freedBy = [])
    (hsound : s.fault = false) (hnever : s.late = false) : s.touch .task = s := by
  obtain ⟨_, _, _, _, _, _, _, _, _, _⟩ := s
  simp_all [Sys.touch, Sys.live]

theorem release_live {s : Sys} (halloc : s.allocated = true) (hheld : s.freedBy = [])
    (hsound : s.fault = false) (hnever : s.late = false) :
    s.release .task = { s with freedBy := [.task] } := by
  unfold Sys.release
  rw [if_pos halloc, touch_live halloc hheld hsound hnever, hheld]
  rfl

/-- The periods behind the first `c`, if these were not missed. -/
theorem periods_add {times : Int} {c d : Nat} (htimes : times.toNat = c + d)
    (hbefore : ∀ k, k < c → env.missed k = false) :
    periods env times =
      c + (((List.range d).map (c + ·)).takeWhile fun k => !env.missed k).length := by
  have hfirst : ∀ k ∈ List.range c, (!env.missed k) = true := by
    intro k hk
    rw [hbefore k (List.mem_range.mp hk)]
    rfl
  unfold periods
  rw [htimes, List.range_add, List.takeWhile_append_of_pos hfirst, List.length_append,
    List.length_range]

/-- The first missed deadline is at `c`, or there is none among the periods. -/
theorem periods_eq {times : Int} {c : Nat} (hle : c ≤ times.toNat)
    (hbefore : ∀ k, k < c → env.missed k = false)
    (hmiss : c < times.toNat → env.missed c = true) : periods env times = c := by
  obtain ⟨d, hd⟩ := Nat.exists_eq_add_of_le hle
  have hrest : ((List.range d).map (c + ·)).takeWhile (fun k => !env.missed k) = [] := by
    cases d with
    | zero => rfl
    | succ d =>
      have hc := hmiss (by omega)
      rw [List.range_succ_eq_map, List.map_cons, List.takeWhile_cons_of_neg]
      rw [Nat.add_zero, hc]
      decide
  rw [periods_add hd hbefore, hrest]
  rfl

/-! ## Steps of the task -/

variable {argTimes times : Int} {period : Bool} {calls : Nat}

/-- The loop is left when all turns are made. -/
theorem called_of_turns (hl : Looping env argTimes times period calls) (htimes : times ≤ 0) :
    Called env argTimes calls none where
  returned := hl.returned
  planned := by
    have hturns := hl.turns
    have hstarted := hl.started
    unfold SsrlApps.Spawn.planned
    by_cases hone : argTimes ≤ 1
    · rw [if_pos hone]
      omega
    · rw [if_neg hone, if_pos (hl.created (by omega))]
      exact (periods_eq (by omega) (hl.inTime (by omega)) (by omega)).symm
  reported := by
    intro hone _
    have hturns := hl.turns
    have hstarted := hl.started
    rw [if_neg (by omega)]

/-- Or at a missed deadline. -/
theorem called_of_miss (hl : Looping env argTimes (times + 1) period calls)
    (htimes : 0 ≤ times) (hone : 1 < argTimes) (hmiss : env.missed calls = true) :
    Called env argTimes calls (some (argTimes - times - 1)) where
  returned := hl.returned
  planned := by
    have hturns := hl.turns
    unfold SsrlApps.Spawn.planned
    rw [if_neg (by omega), if_pos (hl.created hone)]
    exact (periods_eq (by omega) (hl.inTime hone) fun _ => hmiss).symm
  reported := by
    intro _ _
    have hturns := hl.turns
    rw [if_pos (by omega)]
    exact congrArg some (by omega)

/-- The loop begins. -/
theorem looping_first (hperiod : period = decide (1 < argTimes))
    (hcreated : 1 < argTimes → env.periodCreate = true) :
    Looping env argTimes argTimes period 0 where
  turns := Int.zero_add _
  started := Or.inr rfl
  period := hperiod
  created := hcreated
  returned := fun _ hk => absurd hk (Nat.not_lt_zero _)
  inTime := fun _ _ hk => absurd hk (Nat.not_lt_zero _)

/-- One turn is made. -/
theorem looping_next (hl : Looping env argTimes (times + 1) period calls) (htimes : 0 ≤ times)
    (htime : 1 < argTimes → env.missed calls = false) (hreturns : env.returns calls = true) :
    Looping env argTimes times period (calls + 1) where
  turns := by
    have hturns := hl.turns
    omega
  started := Or.inl htimes
  period := hl.period
  created := hl.created
  returned := by
    intro k hk
    rcases Nat.lt_succ_iff_lt_or_eq.mp hk with hlt | rfl
    · exact hl.returned k hlt
    · exact hreturns
  inTime := by
    intro hone k hk
    rcases Nat.lt_succ_iff_lt_or_eq.mp hk with hlt | rfl
    · exact hl.inTime hone k hlt
    · exact htime hone

/-- What a step of the task leaves alone. -/
structure TaskStep (s s' : Sys) : Prop where
  spawner : s'.spawner = s.spawner
  allocated : s'.allocated = s.allocated
  fault : s'.fault = s.fault
  late : s'.late = s.late

section WrapSteps

variable {s s' : Sys}

/-- The loop begins, unless there is no period to be had. -/
theorem wrapInv_createPeriod (htask : s.task = .createPeriod times)
    (hinv : WrapInv env argTimes s) (hstep : wrapStep env argTimes s = some s') :
    WrapInv env argTimes s' ∧ TaskStep s s' := by
  unfold WrapInv at hinv
  unfold wrapStep at hstep
  rw [htask] at hinv hstep
  dsimp only at hinv hstep
  obtain ⟨hheld, hsilent, hcalls, hperiod, rfl⟩ := hinv
  split at hstep
  · next hone =>
    split at hstep
    · next hcreate =>
      cases hstep
      refine ⟨⟨hheld, hsilent, ?_⟩, rfl, rfl, rfl, rfl⟩
      dsimp only
      rw [hcalls]
      exact looping_first (decide_eq_true hone).symm fun _ => hcreate
    · next hcreate =>
      cases hstep
      refine ⟨⟨hheld, ?_, ?_, fun _ h => absurd h hcreate⟩, rfl, rfl, rfl, rfl⟩
      · intro k hk
        exact absurd (hcalls ▸ hk) (Nat.not_lt_zero k)
      · unfold SsrlApps.Spawn.planned
        rw [if_neg (by omega), if_neg hcreate]
        exact hcalls
  · next hone =>
    cases hstep
    refine ⟨⟨hheld, hsilent, ?_⟩, rfl, rfl, rfl, rfl⟩
    dsimp only
    rw [hcalls, hperiod]
    exact looping_first (decide_eq_false hone).symm fun h => absurd h hone

theorem wrapInv_loop (htask : s.task = .loop times) (hinv : WrapInv env argTimes s)
    (hstep : wrapStep env argTimes s = some s') : WrapInv env argTimes s' ∧ TaskStep s s' := by
  unfold WrapInv at hinv
  unfold wrapStep at hstep
  rw [htask] at hinv hstep
  dsimp only at hinv hstep
  obtain ⟨hheld, hsilent, hl⟩ := hinv
  split at hstep
  · next hpos =>
    cases hstep
    refine ⟨⟨hheld, hsilent, ?_, by omega⟩, rfl, rfl, rfl, rfl⟩
    rw [Int.sub_add_cancel]
    exact hl
  · next hpos =>
    cases hstep
    refine ⟨⟨hheld, ?_⟩, rfl, rfl, rfl, rfl⟩
    dsimp only
    rw [hsilent]
    exact called_of_turns hl (by omega)

/-- A period that is missed ends the loop. -/
theorem wrapInv_period (htask : s.task = .period times) (hinv : WrapInv env argTimes s)
    (htouch : s.freedBy = [] → s.touch .task = s) (hstep : wrapStep env argTimes s = some s') :
    WrapInv env argTimes s' ∧ TaskStep s s' := by
  unfold WrapInv at hinv
  unfold wrapStep at hstep
  rw [htask] at hinv hstep
  dsimp only at hinv hstep
  obtain ⟨hheld, hsilent, hl, htimes⟩ := hinv
  rw [htouch hheld] at hstep
  split at hstep
  · next hperiod =>
    have hone : 1 < argTimes := of_decide_eq_true (hl.period.symm.trans hperiod)
    split at hstep
    · next hmiss =>
      cases hstep
      exact ⟨⟨hheld, called_of_miss hl htimes hone hmiss⟩, rfl, rfl, rfl, rfl⟩
    · next hmiss =>
      cases hstep
      exact ⟨⟨hheld, hsilent, hl, htimes, fun _ => Bool.eq_false_iff.mpr hmiss⟩,
        rfl, rfl, rfl, rfl⟩
  · next hperiod =>
    cases hstep
    refine ⟨⟨hheld, hsilent, hl, htimes, fun hone => ?_⟩, rfl, rfl, rfl, rfl⟩
    exact absurd (hl.period.trans (decide_eq_true hone)) hperiod

/-- A call that returns is a turn of the loop. -/
theorem wrapInv_inFn (htask : s.task = .inFn times) (hinv : WrapInv env argTimes s)
    (hstep : wrapStep env argTimes s = some s') : WrapInv env argTimes s' ∧ TaskStep s s' := by
  unfold WrapInv at hinv
  unfold wrapStep at hstep
  rw [htask] at hinv hstep
  dsimp only at hinv hstep
  obtain ⟨hheld, hsilent, c, hcalls, hl, htimes, htime⟩ := hinv
  split at hstep
  · next hreturns =>
    rw [hcalls, Nat.add_sub_cancel] at hreturns
    cases hstep
    refine ⟨⟨hheld, hsilent, ?_⟩, rfl, rfl, rfl, rfl⟩
    dsimp only
    rw [hcalls]
    exact looping_next hl htimes htime hreturns
  · cases hstep

theorem wrapInv_step (halloc : s.allocated = true) (hsound : s.fault = false)
    (hnever : s.late = false) (hinv : WrapInv env argTimes s)
    (hstep : wrapStep env argTimes s = some s') :
    WrapInv env argTimes s' ∧ TaskStep s s' := by
  have htouch : s.freedBy = [] → s.touch .task = s := fun hheld =>
    touch_live halloc hheld hsound hnever
  have hinv' := hinv
  have hstep' := hstep
  unfold WrapInv at hinv'
  unfold wrapStep at hstep'
  cases htask : s.task <;> rw [htask] at hinv' hstep' <;> dsimp only at hinv' hstep'
  case entry =>
    obtain ⟨hheld, hsilent, hcalls, hperiod⟩ := hinv'
    rw [htouch hheld] at hstep'
    cases hstep'
    exact ⟨⟨hheld, hsilent, hcalls, hperiod, rfl⟩, rfl, rfl, rfl, rfl⟩
  case createPeriod => exact wrapInv_createPeriod htask hinv hstep
  case loop => exact wrapInv_loop htask hinv hstep
  case period => exact wrapInv_period htask hinv htouch hstep
  case call =>
    obtain ⟨hheld, hsilent, hl, htimes, htime⟩ := hinv'
    rw [htouch hheld] at hstep'
    cases hstep'
    exact ⟨⟨hheld, hsilent, s.calls, rfl, hl, htimes, htime⟩, rfl, rfl, rfl, rfl⟩
  case inFn => exact wrapInv_inFn htask hinv hstep
  case cleanup =>
    cases hstep'
    exact ⟨hinv', rfl, rfl, rfl, rfl⟩
  case release =>
    obtain ⟨hheld, hcalled⟩ := hinv'
    rw [release_live halloc hheld hsound hnever] at hstep'
    cases hstep'
    exact ⟨⟨rfl, hcalled⟩, rfl, rfl, rfl, rfl⟩
  case delete =>
    cases hstep'
    exact ⟨hinv', rfl, rfl, rfl, rfl⟩
  case gone => cases hstep'

end WrapSteps

theorem deleteInv_step {s s' : Sys} (halloc : s.allocated = true) (hsound : s.fault = false)
    (hnever : s.late = false) (hinv : DeleteInv s) (hstep : wrapDeleteStep env s = some s') :
    DeleteInv s' ∧ TaskStep s s' := by
  unfold DeleteInv at hinv
  unfold wrapDeleteStep at hstep
  split at hstep
  · next htask =>
    rw [htask] at hinv
    rw [touch_live halloc hinv hsound hnever] at hstep
    cases hstep
    exact ⟨hinv, rfl, rfl, rfl, rfl⟩
  · next htask =>
    rw [htask] at hinv
    rw [release_live halloc hinv hsound hnever] at hstep
    cases hstep
    exact ⟨rfl, rfl, rfl, rfl, rfl⟩
  · next htask =>
    rw [htask] at hinv
    cases hstep
    exact ⟨hinv, rfl, rfl, rfl, rfl⟩
  · next htask =>
    rw [htask] at hinv
    split at hstep
    · cases hstep
      exact ⟨hinv, rfl, rfl, rfl, rfl⟩
    · cases hstep
  · next htask =>
    rw [htask] at hinv
    cases hstep
    exact ⟨hinv, rfl, rfl, rfl, rfl⟩
  · cases hstep

theorem running_task {s s' : Sys} (hrunning : Running h env s)
    (hstep : taskStep env h.wrapper s = some s') :
    Running h env s' ∧ s'.spawner = s.spawner := by
  obtain ⟨halloc, hsound, hnever, hdone⟩ := hrunning
  obtain ⟨checksNull, wrapper⟩ := h
  cases wrapper with
  | wrap times =>
    obtain ⟨hinv, hkeep⟩ := wrapInv_step halloc hsound hnever hdone hstep
    exact ⟨⟨hkeep.allocated.trans halloc, hkeep.fault.trans hsound, hkeep.late.trans hnever,
      hinv⟩, hkeep.spawner⟩
  | wrapDelete =>
    obtain ⟨hinv, hkeep⟩ := deleteInv_step halloc hsound hnever hdone hstep
    exact ⟨⟨hkeep.allocated.trans halloc, hkeep.fault.trans hsound, hkeep.late.trans hnever,
      hinv⟩, hkeep.spawner⟩

/-! ## Steps of both -/

/-- Before the start there is no step of the task. -/
theorem taskStep_absent {s : Sys} (habsent : s.task = .absent) (wrapper : Wrapper) :
    taskStep env wrapper s = none := by
  cases wrapper with
  | wrap times =>
    show wrapStep env times s = none
    unfold wrapStep
    rw [habsent]
  | wrapDelete =>
    show wrapDeleteStep env s = none
    unfold wrapDeleteStep
    rw [habsent]

theorem move_some {s s' : Sys} {p : Party} (hmove : move h env s p = some s') :
    s.fault = false ∧ (p = .spawner ∧ spawnerStep h env s = some s' ∨
      p = .task ∧ taskStep env h.wrapper s = some s') := by
  unfold move at hmove
  split at hmove
  · cases hmove
  · next hsound =>
    refine ⟨Bool.eq_false_iff.mpr hsound, ?_⟩
    cases p with
    | spawner => exact Or.inl ⟨rfl, hmove⟩
    | task => exact Or.inr ⟨rfl, hmove⟩

/-- The start makes the task run. -/
theorem running_entry (h : Helper) (env : Env) :
    Running h env { Sys.init with
      spawner := .started, task := .entry, allocated := true, object := true } where
  allocated := rfl
  sound := rfl
  never := rfl
  done := by
    obtain ⟨checksNull, wrapper⟩ := h
    cases wrapper with
    | wrap times => exact ⟨rfl, rfl, rfl, rfl⟩
    | wrapDelete => exact rfl

theorem inv_spawner {s s' : Sys} (hinv : Inv h env s) (hsound : s.fault = false)
    (hstep : spawnerStep h env s = some s') : Inv h env s' := by
  cases hinv with
  | alloc =>
    unfold spawnerStep at hstep
    dsimp only [Sys.init] at hstep
    split at hstep
    · next hnull =>
      cases hstep
      exact .refused hnull.1 hnull.2
    · next hnull =>
      cases hstep
      refine .fill ?_
      cases ha : env.alloc with
      | true => exact Or.inl rfl
      | false => exact Or.inr (Bool.eq_false_iff.mpr fun hc => hnull ⟨ha, hc⟩)
  | refused => cases hstep
  | fill hrecord =>
    cases hstep
    cases ha : env.alloc with
    | true => exact .create ha
    | false =>
      refine .crashed ha (hrecord.resolve_left ?_) rfl
      rw [ha]
      decide
  | crashed _ _ hfault =>
    rw [hfault] at hsound
    cases hsound
  | create halloc =>
    unfold spawnerStep at hstep
    dsimp only at hstep
    split at hstep
    · next hcreate =>
      cases hstep
      exact .start halloc hcreate
    · next hcreate =>
      cases hstep
      exact .undo halloc (Or.inl ⟨rfl, Bool.eq_false_iff.mpr hcreate⟩)
  | start halloc hcreate =>
    unfold spawnerStep at hstep
    dsimp only at hstep
    split at hstep
    · next hstart =>
      cases hstep
      exact .running halloc ⟨hcreate, hstart⟩ (Or.inl rfl) (running_entry h env)
    · next hstart =>
      cases hstep
      exact .undo halloc (Or.inr ⟨rfl, hcreate, Bool.eq_false_iff.mpr hstart⟩)
  | undo halloc hnot =>
    cases hstep
    exact .failed halloc hnot
  | failed => cases hstep
  | running halloc hstart hspawner hrunning =>
    unfold spawnerStep at hstep
    rcases hspawner with hspawner | hspawner
    · rw [hspawner] at hstep
      cases hstep
      exact .running halloc hstart (Or.inr rfl)
        ⟨hrunning.allocated, hrunning.sound, hrunning.never, hrunning.done⟩
    · rw [hspawner] at hstep
      cases hstep

theorem inv_task {s s' : Sys} (hinv : Inv h env s) (hsound : s.fault = false)
    (hstep : taskStep env h.wrapper s = some s') : Inv h env s' := by
  have hnone : s.task = .absent → Inv h env s' := by
    intro habsent
    rw [taskStep_absent habsent] at hstep
    cases hstep
  cases hinv with
  | crashed _ _ hfault =>
    rw [hfault] at hsound
    cases hsound
  | running halloc hstart hspawner hrunning =>
    obtain ⟨hrunning', hkeep⟩ := running_task hrunning hstep
    rw [← hkeep] at hspawner
    exact .running halloc hstart hspawner hrunning'
  | _ => exact hnone rfl

/-- **One step keeps the invariant.** -/
theorem inv_move {s s' : Sys} {p : Party} (hinv : Inv h env s)
    (hmove : move h env s p = some s') : Inv h env s' := by
  obtain ⟨hsound, ⟨-, hstep⟩ | ⟨-, hstep⟩⟩ := move_some hmove
  · exact inv_spawner hinv hsound hstep
  · exact inv_task hinv hsound hstep

/-- And so does every run. -/
theorem inv_run {ps : List Party} (hps : (system h env).Legal Sys.init ps) :
    Inv h env ((system h env).exec Sys.init ps) := by
  refine Guarded.invariant ?_ Inv.alloc hps
  intro s p hinv hguard
  obtain ⟨s', hmove⟩ := Option.isSome_iff_exists.mp hguard
  have hnext : (system h env).step s p = s' := by
    show (move h env s p).getD s = s'
    rw [hmove]
    rfl
  rw [hnext]
  exact inv_move hinv hmove

/-! ## Runs end -/

def wrapRank (argTimes : Int) : TaskPc → Nat
  | .absent | .entry => 4 * argTimes.toNat + 6
  | .createPeriod times => 4 * times.toNat + 5
  | .loop times => 4 * times.toNat + 4
  | .period times => 4 * times.toNat + 7
  | .call times => 4 * times.toNat + 6
  | .inFn times => 4 * times.toNat + 5
  | .cleanup => 3
  | .release => 2
  | .delete => 1
  | .gone => 0

def deleteRank : TaskPc → Nat
  | .absent | .entry => 5
  | .release => 4
  | .call _ => 3
  | .inFn _ => 2
  | .delete => 1
  | _ => 0

def taskRank : Wrapper → TaskPc → Nat
  | .wrap times => wrapRank times
  | .wrapDelete => deleteRank

def spawnerRank : SpawnerPc → Nat
  | .alloc => 6
  | .fill => 5
  | .create => 4
  | .start => 3
  | .undo | .started => 1
  | .returned _ => 0

/-- A bound on the steps that are still to come. -/
def rank (h : Helper) (s : Sys) : Nat := spawnerRank s.spawner + taskRank h.wrapper s.task

theorem wrapRank_step {s s' : Sys} (hstep : wrapStep env argTimes s = some s') :
    wrapRank argTimes s'.task < wrapRank argTimes s.task := by
  unfold wrapStep at hstep
  grind [wrapRank]

theorem deleteRank_step {s s' : Sys} (hstep : wrapDeleteStep env s = some s') :
    deleteRank s'.task < deleteRank s.task := by
  unfold wrapDeleteStep at hstep
  grind [deleteRank]

theorem taskRank_step {s s' : Sys} {wrapper : Wrapper}
    (hstep : taskStep env wrapper s = some s') :
    taskRank wrapper s'.task < taskRank wrapper s.task := by
  cases wrapper with
  | wrap times => exact wrapRank_step hstep
  | wrapDelete => exact deleteRank_step hstep

theorem taskRank_entry (wrapper : Wrapper) :
    taskRank wrapper .entry = taskRank wrapper .absent := by
  cases wrapper <;> rfl

theorem spawnerStep_task {s s' : Sys} (hstep : spawnerStep h env s = some s')
    (hstart : s.spawner ≠ .start) :
    s'.task = s.task ∧ spawnerRank s'.spawner < spawnerRank s.spawner := by
  unfold spawnerStep Sys.release at hstep
  grind [spawnerRank, Sys.touch]

theorem absent_of_start {s : Sys} (hinv : Inv h env s) (hsound : s.fault = false)
    (hstart : s.spawner = .start) : s.task = .absent := by
  cases hinv with
  | crashed _ _ hfault =>
    rw [hfault] at hsound
    cases hsound
  | running _ _ hspawner _ =>
    rcases hspawner with hspawner | hspawner <;> rw [hspawner] at hstart <;> cases hstart
  | _ => rfl

/-- Every step lowers the rank. -/
theorem rank_move {s s' : Sys} {p : Party} (hinv : Inv h env s)
    (hmove : move h env s p = some s') : rank h s' < rank h s := by
  obtain ⟨hsound, ⟨-, hstep⟩ | ⟨-, hstep⟩⟩ := move_some hmove
  · by_cases hstart : s.spawner = .start
    · have habsent := absent_of_start hinv hsound hstart
      have hentry := taskRank_entry h.wrapper
      have hstarted : spawnerRank .started < spawnerRank .start := by decide
      have hundo : spawnerRank .undo < spawnerRank .start := by decide
      unfold spawnerStep at hstep
      rw [hstart] at hstep
      unfold rank
      rw [hstart, habsent]
      dsimp only at hstep
      split at hstep
      · cases hstep
        rw [hentry]
        exact Nat.add_lt_add_right hstarted _
      · cases hstep
        rw [habsent]
        exact Nat.add_lt_add_right hundo _
    · obtain ⟨htask, hlt⟩ := spawnerStep_task hstep hstart
      unfold rank
      rw [htask]
      exact Nat.add_lt_add_right hlt _
  · have hlt := taskRank_step hstep
    have hkeep : s'.spawner = s.spawner ∨ s.task = .absent := by
      cases hinv with
      | crashed _ _ hfault =>
        rw [hfault] at hsound
        cases hsound
      | running _ _ _ hrunning => exact Or.inl (running_task hrunning hstep).2
      | _ => exact Or.inr rfl
    rcases hkeep with hkeep | habsent
    · unfold rank
      rw [hkeep]
      exact Nat.add_lt_add_left hlt _
    · rw [taskStep_absent habsent] at hstep
      cases hstep

theorem move_of_guard {s : Sys} {p : Party} (hguard : (system h env).guard s p) :
    move h env s p = some ((system h env).step s p) := by
  obtain ⟨s', hmove⟩ := Option.isSome_iff_exists.mp hguard
  show _ = some ((move h env s p).getD s)
  rw [hmove]
  rfl

theorem run_ends {ps : List Party} (hps : (system h env).Legal Sys.init ps) :
    ps.length ≤ rank h Sys.init := by
  have hprice := Guarded.priced (M := system h env) (c := fun _ _ => 0) (k := 0)
    (P := fun s n => Inv h env s ∧ rank h s = n) (F := fun _ _ => True)
    (fun s p n hs hguard _ => by
      obtain ⟨hinv, rfl⟩ := hs
      have hmove := move_of_guard hguard
      exact ⟨Nat.le_refl 0, _, rank_move hinv hmove, inv_move hinv hmove, rfl⟩)
    ⟨Inv.alloc, rfl⟩ hps (Guarded.always_true _ _)
  exact hprice.1

/-! ## The end of a run -/

theorem le_periods {times : Int} {c : Nat} (hle : c ≤ times.toNat)
    (hbefore : ∀ k, k < c → env.missed k = false) : c ≤ periods env times := by
  obtain ⟨d, hd⟩ := Nat.exists_eq_add_of_le hle
  rw [periods_add hd hbefore]
  exact Nat.le_add_right _ _

/-- A call that is made is planned. -/
theorem lt_planned (hl : Looping env argTimes (times + 1) period calls) (htimes : 0 ≤ times)
    (htime : 1 < argTimes → env.missed calls = false) : calls < planned env argTimes := by
  have hturns := hl.turns
  unfold planned
  by_cases hone : argTimes ≤ 1
  · rw [if_pos hone]
    omega
  · have hmany : 1 < argTimes := by omega
    rw [if_neg hone, if_pos (hl.created hmany)]
    refine le_periods (by omega) fun k hk => ?_
    rcases Nat.lt_succ_iff_lt_or_eq.mp hk with hlt | rfl
    · exact hl.inTime hmany k hlt
    · exact htime hmany

theorem wrapStep_none {s : Sys} (hrest : wrapStep env argTimes s = none) :
    s.task = .absent ∨ s.task = .gone ∨
      ∃ times, s.task = .inFn times ∧ env.returns (s.calls - 1) = false := by
  unfold wrapStep at hrest
  grind

theorem wrapDeleteStep_none {s : Sys} (hrest : wrapDeleteStep env s = none) :
    s.task ≠ .entry ∧ s.task ≠ .release := by
  unfold wrapDeleteStep at hrest
  grind

/-- `wrap` is through, or in a call that does not return. -/
theorem wrap_rest {s : Sys} (hinv : WrapInv env argTimes s)
    (hrest : wrapStep env argTimes s = none) :
    s.freedBy = [.task] ∧ Called env argTimes s.calls s.reported ∨
      s.freedBy = [] ∧ ∃ k, k < planned env argTimes ∧ env.returns k = false := by
  unfold WrapInv at hinv
  rcases wrapStep_none hrest with htask | htask | ⟨times, htask, hnever⟩
  · rw [htask] at hinv
    exact hinv.elim
  · rw [htask] at hinv
    exact Or.inl hinv
  · rw [htask] at hinv
    obtain ⟨hheld, -, c, hcalls, hl, htimes, htime⟩ := hinv
    rw [hcalls, Nat.add_sub_cancel] at hnever
    exact Or.inr ⟨hheld, c, lt_planned hl htimes htime, hnever⟩

theorem wrapDelete_rest {s : Sys} (hinv : DeleteInv s) (hrest : wrapDeleteStep env s = none) :
    s.freedBy = [.task] := by
  obtain ⟨hentry, hrelease⟩ := wrapDeleteStep_none hrest
  unfold DeleteInv at hinv
  split at hinv
  · exact absurd ‹_› hentry
  · exact absurd ‹_› hrelease
  · exact hinv
  · exact hinv
  · exact hinv
  · exact hinv
  · exact hinv.elim

/-- The record of a running task is freed by nobody else, and not twice. -/
theorem running_freed {s : Sys} (hrunning : Running h env s) :
    s.freedBy = [] ∨ s.freedBy = [.task] := by
  have hdone := hrunning.done
  obtain ⟨checksNull, wrapper⟩ := h
  cases wrapper with
  | wrap times =>
    have hinv : WrapInv env times s := hdone
    unfold WrapInv at hinv
    grind
  | wrapDelete =>
    have hinv : DeleteInv s := hdone
    unfold DeleteInv at hinv
    grind

theorem atRest_none {s : Sys} (hrest : AtRest h env s) (p : Party) :
    move h env s p = none := by
  cases hmove : move h env s p with
  | none => rfl
  | some s' => exact absurd (show (move h env s p).isSome = true by rw [hmove]; rfl) (hrest p)

/-- How a run can end. -/
inductive Ended (h : Helper) (env : Env) (s : Sys) : Prop
  | crashed (halloc : env.alloc = false) (hchecks : h.checksNull = false)
      (hfault : s.fault = true)
  | refused (halloc : env.alloc = false) (hchecks : h.checksNull = true)
      (hend : s = { Sys.init with spawner := .returned false })
  | failed (halloc : env.alloc = true) {object : Bool} (hnot : NotStarted env object)
      (hend : s = { Sys.init with
        spawner := .returned false, allocated := true, object := object, freedBy := [.spawner] })
  | ran (halloc : env.alloc = true) (hstart : env.create = true ∧ env.start = true)
      (hspawner : s.spawner = .returned true) (hrunning : Running h env s)
      (htask : taskStep env h.wrapper s = none)

theorem ended_of_rest {s : Sys} (hinv : Inv h env s) (hrest : AtRest h env s) :
    Ended h env s := by
  have hspawn := atRest_none hrest .spawner
  have htask := atRest_none hrest .task
  have hstep : s.fault = false →
      spawnerStep h env s = none ∧ taskStep env h.wrapper s = none := by
    intro hsound
    unfold move at hspawn htask
    rw [hsound] at hspawn htask
    exact ⟨hspawn, htask⟩
  cases hinv with
  | alloc =>
    have hnone := (hstep rfl).1
    unfold spawnerStep at hnone
    dsimp only [Sys.init] at hnone
    split at hnone <;> cases hnone
  | refused halloc hchecks => exact .refused halloc hchecks rfl
  | fill => cases (hstep rfl).1
  | crashed halloc hchecks hfault => exact .crashed halloc hchecks hfault
  | create =>
    have hnone := (hstep rfl).1
    unfold spawnerStep at hnone
    dsimp only at hnone
    split at hnone <;> cases hnone
  | start =>
    have hnone := (hstep rfl).1
    unfold spawnerStep at hnone
    dsimp only at hnone
    split at hnone <;> cases hnone
  | undo => cases (hstep rfl).1
  | failed halloc hnot => exact .failed halloc hnot rfl
  | running halloc hstart hspawner hrunning =>
    obtain ⟨hnone, hnone'⟩ := hstep hrunning.sound
    refine .ran halloc hstart (hspawner.resolve_left fun hsp => ?_) hrunning hnone'
    unfold spawnerStep at hnone
    rw [hsp] at hnone
    cases hnone

/-- A task that is at rest has freed its record, or is in a call that does not return. -/
theorem running_rest {s : Sys} (hrunning : Running h env s)
    (htask : taskStep env h.wrapper s = none) :
    (s.freedBy = [.task] ∧ ∀ times, h.wrapper = .wrap times →
        Called env times s.calls s.reported) ∨
      s.freedBy = [] ∧ ∃ times k, h.wrapper = .wrap times ∧ k < planned env times ∧
        env.returns k = false := by
  have hdone := hrunning.done
  obtain ⟨checksNull, wrapper⟩ := h
  cases wrapper with
  | wrap times =>
    rcases wrap_rest hdone htask with ⟨hfreed, hcalled⟩ | ⟨hheld, k, hk, hnever⟩
    · refine Or.inl ⟨hfreed, ?_⟩
      rintro times' ⟨⟩
      exact hcalled
    · exact Or.inr ⟨hheld, times, k, rfl, hk, hnever⟩
  | wrapDelete => exact Or.inl ⟨wrapDelete_rest hdone htask, fun times h => (nomatch h)⟩

/-! ## The law -/

theorem benign_not_started (hb : Benign h env) (halloc : env.alloc = true) {object : Bool}
    (hnot : NotStarted env object) : object = false := by
  rcases hnot with ⟨hobject, -⟩ | ⟨-, hcreate, hstart⟩
  · exact hobject
  · rw [hb.starts halloc hcreate] at hstart
    cases hstart

theorem benign_settled (hb : Benign h env) {s : Sys} (hend : Ended h env s) :
    Settled h env s := by
  cases hend with
  | crashed halloc hchecks =>
    rw [hb.record hchecks] at halloc
    cases halloc
  | refused halloc hchecks hend =>
    subst hend
    exact ⟨⟨false, rfl⟩, fun _ => ⟨rfl, rfl⟩, fun h => (nomatch h), fun _ _ _ _ h => (nomatch h)⟩
  | failed halloc hnot hend =>
    subst hend
    have hobject := benign_not_started hb halloc hnot
    exact ⟨⟨false, rfl⟩, fun _ => ⟨hobject, rfl⟩, fun h => (nomatch h),
      fun _ _ _ _ h => (nomatch h)⟩
  | ran halloc hstart hspawner hrunning htask =>
    have hok : s.spawner ≠ .returned false := by
      rw [hspawner]
      decide
    rcases running_rest hrunning htask with ⟨hfreed, hcalled⟩ | ⟨-, times, k, hw, hk, hnever⟩
    · refine ⟨⟨true, hspawner⟩, fun h => absurd h hok, fun _ => hfreed, ?_⟩
      intro times hw hone hcreated _
      have hcount := (hcalled times hw).planned
      unfold planned at hcount
      rw [if_neg (by omega), if_pos hcreated] at hcount
      exact ⟨hcount, (hcalled times hw).reported hone hcreated⟩
    · rw [hb.comesBack halloc hstart.1 times hw k hk] at hnever
      cases hnever

theorem benign_clean (hb : Benign h env) {s : Sys} (hinv : Inv h env s) :
    s.fault = false ∧ s.late = false ∧ s.freedBy.length ≤ 1 := by
  cases hinv with
  | crashed halloc hchecks =>
    rw [hb.record hchecks] at halloc
    cases halloc
  | running halloc hstart hspawner hrunning =>
    refine ⟨hrunning.sound, hrunning.never, ?_⟩
    rcases running_freed hrunning with hfreed | hfreed
    · rw [hfreed]
      exact Nat.zero_le 1
    · rw [hfreed]
      exact Nat.le_refl 1
  | failed => exact ⟨rfl, rfl, Nat.le_refl 1⟩
  | _ => exact ⟨rfl, rfl, Nat.zero_le 1⟩

theorem spawnOk_benign (hb : Benign h env) : SpawnOk h env where
  ends := ⟨rank h Sys.init, fun _ hps => run_ends hps⟩
  clean := fun _ hps => benign_clean hb (inv_run hps)
  settled := fun _ hps hrest => benign_settled hb (ended_of_rest (inv_run hps) hrest)

/-- What is behind a run that ends well. -/
theorem benign_of_settled {s : Sys} (hend : Ended h env s) (hsound : s.fault = false)
    (hs : Settled h env s) : Benign h env := by
  cases hend with
  | crashed _ _ hfault =>
    rw [hfault] at hsound
    cases hsound
  | refused halloc hchecks =>
    have hno : env.alloc ≠ true := by
      rw [halloc]
      decide
    refine ⟨fun h => ?_, fun h => absurd h hno, fun h => absurd h hno⟩
    rw [h] at hchecks
    cases hchecks
  | failed halloc hnot hend =>
    subst hend
    have hobject := (hs.failed rfl).1
    have hcreate : env.create ≠ true := by
      rcases hnot with ⟨-, hcreate⟩ | ⟨hobject', -, -⟩
      · rw [hcreate]
        decide
      · rw [show _ = true from hobject'] at hobject
        cases hobject
    exact ⟨fun _ => halloc, fun _ h => absurd h hcreate, fun _ h => absurd h hcreate⟩
  | ran halloc hstart hspawner hrunning htask =>
    refine ⟨fun _ => halloc, fun _ _ => hstart.2, fun _ _ times hw k hk => ?_⟩
    have hfreed := hs.succeeded hspawner
    rcases running_rest hrunning htask with ⟨-, hcalled⟩ | ⟨hheld, -⟩
    · have hcount := hcalled times hw
      exact hcount.returned k (hcount.planned ▸ hk)
    · rw [hheld] at hfreed
      cases hfreed

theorem benign_of_spawnOk (hok : SpawnOk h env) : Benign h env := by
  obtain ⟨ps, hps, hrest⟩ := Guarded.exists_rest (M := system h env)
    (s := Sys.init) fun ps hps => run_ends hps
  exact benign_of_settled (ended_of_rest (inv_run hps) hrest) (hok.clean ps hps).1
    (hok.settled ps hps hrest)

/-- **A failed call leaves nothing behind and a successful one hands its record over, in
    every interleaving, exactly if the environment is benign**: a missing record is looked
    for, a task that was created can be started, and the user function returns to `wrap`. -/
theorem spawnOk_iff (h : Helper) (env : Env) : SpawnOk h env ↔ Benign h env :=
  ⟨benign_of_spawnOk, spawnOk_benign⟩

/-- The task is created, but cannot be started. -/
def cannotStart : Env := ⟨true, true, false, true, fun _ => false, fun _ => true⟩

/-- There is no memory for the record. -/
def noMemory : Env := ⟨false, true, true, true, fun _ => false, fun _ => true⟩

/-- The user function never returns. -/
def neverReturns : Env := ⟨true, true, true, true, fun _ => false, fun _ => false⟩

/-- A task that cannot be started stays, whichever function created it; `spawnUtil` writes to
    a record that it did not get, and the record of `loopUtil` stays where the user function
    does not return. -/
theorem spawn_leaks :
    (system telnetdDfltSpawn cannotStart).exec Sys.init (List.replicate 5 .spawner) =
        { Sys.init with
          spawner := .returned false, allocated := true, object := true, freedBy := [.spawner] } ∧
      (∀ h, ¬ SpawnOk h cannotStart) ∧ ¬ SpawnOk spawnUtil noMemory ∧
      ¬ SpawnOk (loopUtil 10) neverReturns := by
  refine ⟨rfl, fun h hok => ?_, fun hok => ?_, fun hok => ?_⟩
  · cases (benign_of_spawnOk hok).starts rfl rfl
  · cases (benign_of_spawnOk hok).record rfl
  · have hplanned : 0 < planned neverReturns 10 := by decide
    cases (benign_of_spawnOk hok).comesBack rfl rfl 10 rfl 0 hplanned

end SsrlApps.Spawn
