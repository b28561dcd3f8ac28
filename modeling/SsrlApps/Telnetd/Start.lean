/-
  Starting the telnet daemon: `startTelnetd` and the life of `rtems_task_telnetd`.

  Model. `Globals` holds the settings, `telnetd_task_id`, the PTY driver, and one `Phase`
  for each running task of the daemon: the call it makes next. A failed `socket`, `bind`
  or `listen` clears `telnetd_task_id` and deletes the task; behind `listen` the task
  accepts for ever. The outcome of the driver's registration and of `telnetd_spawn_task`
  are part of the call. Pointers are addresses, 0 is NULL; `int` and `uint32_t` are
  `Int32` and `UInt32`.

  No function of the source writes a task id into `telnetd_task_id`, so it is 0 in every
  state and neither of the two checks of it ever refuses a start.

  Proved:
  * `step_started`, `started_of_run`: the invariant, for a step and for a run.
  * `startTelnetd_running`: what a start does while a daemon runs.
  * `redundant_start_iff`: such a start is refused without any effect exactly when the
    spawn fails and the settings it asks for are the current ones; and there is never more
    than one daemon in the runs in which every such start is of that kind.
  * `second_daemon`: two starts, two daemons.
-/
import SsrlApps.Telnetd.Driver

namespace SsrlApps.Telnetd

/-! ## The code -/

structure Settings where
  telnetdShell : Nat
  telnetdShellArg : Nat
  telnetdStackSize : UInt32
  telnetdTaskPriority : UInt32
  telnetdDontSpawn : Int32
deriving DecidableEq

/-- The next call of a task in `rtems_task_telnetd`. -/
inductive Phase where
  | socket
  | bind
  | listen
  | accept
deriving DecidableEq

structure Globals where
  telnetdTaskId : UInt32
  settings : Settings
  drv : Driver
  daemons : List Phase

/-- The static state at program start. -/
def zeroGlobals : Globals := ⟨0, ⟨0, 0, 32000, 0, 0⟩, zeroDriver, []⟩

/-- The arguments of `startTelnetd`, and what the calls it makes return. -/
structure StartCall where
  cmd : Nat
  arg : Nat
  dontSpawn : Int32
  stack : Int32
  priority : Int32
  /-- `rtems_io_register_driver` -/
  registered : Bool
  /-- `telnetd_spawn_task` -/
  spawnOk : Bool
  /-- `rtems_bsdnet_config.network_task_priority` -/
  networkTaskPriority : UInt32

/-- `if (telnetd_stack_size<=0) telnetd_stack_size = 32000;` -/
def stackSizeOf (size : UInt32) : UInt32 := if size ≤ 0 then 32000 else size

/-- The priority that `startTelnetd` makes of its argument. -/
def priorityOf (call : StartCall) : UInt32 :=
  let priority := if call.priority = 0 then call.networkTaskPriority.toInt32 else call.priority
  (if priority < 2 then 100 else priority).toUInt32

/-- `RTEMS_RESOURCE_IN_USE` -/
def rtemsResourceInUse : Int32 := 12

/-- `initialize_telnetd` -/
def initializeTelnetd (s : Globals) (spawnOk : Bool) : Globals × Int32 :=
  if s.telnetdTaskId ≠ 0 then (s, rtemsResourceInUse)
  else
    let size := stackSizeOf s.settings.telnetdStackSize
    let s := { s with settings := { s.settings with telnetdStackSize := size } }
    if spawnOk then ({ s with daemons := s.daemons ++ [.socket] }, 0) else (s, -1)

def startTelnetd (s : Globals) (call : StartCall) : Globals × Int32 :=
  if s.settings.telnetdShell = 0 ∧ call.cmd = 0 then (s, 1)
  else if s.telnetdTaskId ≠ 0 then (s, 1)
  else
    let s := { s with drv := (ptyDoInitialize s.drv call.registered).1 }
    if s.drv.telnetPtyInited = false then (s, 1)
    else
      initializeTelnetd { s with settings :=
        { telnetdShell := if call.cmd ≠ 0 then call.cmd else s.settings.telnetdShell
          telnetdShellArg := call.arg
          telnetdStackSize := call.stack.toUInt32
          telnetdTaskPriority := priorityOf call
          telnetdDontSpawn := call.dontSpawn } } call.spawnOk

/-- The call that follows one that succeeded; `none` if it failed: the task is deleted. -/
def Phase.next : Phase → Bool → Option Phase
  | .socket, true => some .bind
  | .bind, true => some .listen
  | .listen, true => some .accept
  -- a failing `accept` is tried again
  | .accept, _ => some .accept
  | _, false => none

/-- Daemon number `i` makes its next call. -/
def daemonStep (s : Globals) (i : Nat) (ok : Bool) : Globals :=
  match s.daemons[i]? with
  | none => s
  | some phase =>
    match phase.next ok with
    | some phase' => { s with daemons := s.daemons.set i phase' }
    | none => { s with telnetdTaskId := 0, daemons := s.daemons.eraseIdx i }

/-! ## Runs -/

inductive StartEvent where
  | start (call : StartCall)
  | daemon (i : Nat) (ok : Bool)

def startStep (s : Globals) : StartEvent → Globals
  | .start call => (startTelnetd s call).1
  | .daemon i ok => daemonStep s i ok

/-- Any start at any time, and any interleaving of the daemons. -/
def starts : Guarded Globals StartEvent := ⟨fun _ _ => True, startStep⟩

/-- The call is refused, spawns nothing and changes no setting. -/
def Refused (s : Globals) (call : StartCall) : Prop :=
  (startTelnetd s call).2 ≠ 0 ∧ (startTelnetd s call).1.daemons = s.daemons ∧
    (startTelnetd s call).1.settings = s.settings

/-- The spawn fails, and the call asks for the settings as they are. -/
structure Harmless (s : Globals) (call : StartCall) : Prop where
  spawn : call.spawnOk = false
  shell : call.cmd = 0 ∨ call.cmd = s.settings.telnetdShell
  shellArg : call.arg = s.settings.telnetdShellArg
  stackSize : stackSizeOf call.stack.toUInt32 = s.settings.telnetdStackSize
  priority : priorityOf call = s.settings.telnetdTaskPriority
  dontSpawn : call.dontSpawn = s.settings.telnetdDontSpawn

/-- The runs in which every start while a daemon runs is harmless. -/
def harmlessStarts : Guarded Globals StartEvent where
  guard s
    | .start call => s.daemons = [] ∨ Harmless s call
    | .daemon _ _ => True
  step := startStep

/-! ## The invariant -/

/-- The guard variable is clear; where a daemon runs, there is a shell and a driver. -/
structure Started (s : Globals) : Prop where
  taskId : s.telnetdTaskId = 0
  running : s.daemons ≠ [] → s.settings.telnetdShell ≠ 0 ∧ s.drv.telnetPtyInited = true

theorem started_zero : Started zeroGlobals := ⟨rfl, fun h => absurd rfl h⟩

theorem ptyDoInitialize_inited {d : Driver} (h : d.telnetPtyInited = true)
    (registered : Bool) : ptyDoInitialize d registered = (d, []) := by
  unfold ptyDoInitialize
  rw [if_pos h]

/-- `initialize_telnetd` with the guard variable clear. -/
theorem initializeTelnetd_clear {s : Globals} (h : s.telnetdTaskId = 0) (spawnOk : Bool) :
    initializeTelnetd s spawnOk =
      ({ s with
          settings := { s.settings with
            telnetdStackSize := stackSizeOf s.settings.telnetdStackSize }
          daemons := if spawnOk then s.daemons ++ [.socket] else s.daemons },
        if spawnOk then 0 else -1) := by
  unfold initializeTelnetd
  rw [if_neg (not_not.mpr h)]
  cases spawnOk <;> rfl

/-- What a start that nothing refuses makes of the state. -/
def accepted (s : Globals) (drv : Driver) (call : StartCall) : Globals × Int32 :=
  ({ telnetdTaskId := s.telnetdTaskId
     settings :=
      { telnetdShell := if call.cmd ≠ 0 then call.cmd else s.settings.telnetdShell
        telnetdShellArg := call.arg
        telnetdStackSize := stackSizeOf call.stack.toUInt32
        telnetdTaskPriority := priorityOf call
        telnetdDontSpawn := call.dontSpawn }
     drv := drv
     daemons := if call.spawnOk then s.daemons ++ [.socket] else s.daemons },
    if call.spawnOk then 0 else -1)

/-- Everything `startTelnetd` can do with the guard variable clear: there is no shell, or
    no driver, or nothing refuses the start. -/
theorem startTelnetd_cases {s : Globals} (hid : s.telnetdTaskId = 0) (call : StartCall) :
    ((s.settings.telnetdShell = 0 ∧ call.cmd = 0) ∧ startTelnetd s call = (s, 1)) ∨
    ((ptyDoInitialize s.drv call.registered).1.telnetPtyInited = false ∧
      startTelnetd s call =
        ({ s with drv := (ptyDoInitialize s.drv call.registered).1 }, 1)) ∨
    (¬ (s.settings.telnetdShell = 0 ∧ call.cmd = 0) ∧
      (ptyDoInitialize s.drv call.registered).1.telnetPtyInited = true ∧
      startTelnetd s call = accepted s (ptyDoInitialize s.drv call.registered).1 call) := by
  unfold startTelnetd
  by_cases hcmd : s.settings.telnetdShell = 0 ∧ call.cmd = 0
  · rw [if_pos hcmd]
    exact Or.inl ⟨hcmd, rfl⟩
  · rw [if_neg hcmd, if_neg (not_not.mpr hid)]
    dsimp only
    cases hinit : (ptyDoInitialize s.drv call.registered).1.telnetPtyInited with
    | false =>
      rw [if_pos rfl]
      exact Or.inr (Or.inl ⟨rfl, rfl⟩)
    | true =>
      refine Or.inr (Or.inr ⟨hcmd, rfl, ?_⟩)
      rw [if_neg Bool.noConfusion]
      apply initializeTelnetd_clear
      exact hid

/-- While a daemon runs, nothing refuses a further start. -/
theorem startTelnetd_running {s : Globals} (hs : Started s) (hrun : s.daemons ≠ [])
    (call : StartCall) : startTelnetd s call = accepted s s.drv call := by
  obtain ⟨hshell, hinit⟩ := hs.running hrun
  have hdrv := ptyDoInitialize_inited hinit call.registered
  rcases startTelnetd_cases hs.taskId call with
    ⟨hcmd, -⟩ | ⟨hnone, -⟩ | ⟨-, -, hret⟩
  · exact absurd hcmd.1 hshell
  · rw [hdrv, hinit] at hnone
    cases hnone
  · rw [hret, hdrv]

theorem started_start {s : Globals} (hs : Started s) (call : StartCall) :
    Started (startTelnetd s call).1 := by
  rcases startTelnetd_cases hs.taskId call with
    ⟨-, hret⟩ | ⟨hnone, hret⟩ | ⟨hcmd, hinit, hret⟩
  · rw [hret]
    exact hs
  · -- the driver is not there, so no daemon was started either
    rw [hret]
    refine ⟨hs.taskId, fun hrun => ?_⟩
    rw [ptyDoInitialize_inited (hs.running hrun).2, (hs.running hrun).2] at hnone
    cases hnone
  · rw [hret]
    refine ⟨hs.taskId, fun _ => ⟨?_, hinit⟩⟩
    show (if call.cmd ≠ 0 then call.cmd else s.settings.telnetdShell) ≠ 0
    split
    · next hne => exact hne
    · next hzero => exact fun hshell => hcmd ⟨hshell, not_not.mp hzero⟩

theorem started_daemon {s : Globals} (hs : Started s) (i : Nat) (ok : Bool) :
    Started (daemonStep s i ok) := by
  unfold daemonStep
  split
  · exact hs
  · next phase hphase =>
    have hrun : s.daemons ≠ [] := by
      intro hnil
      rw [hnil] at hphase
      cases hphase
    split
    · exact ⟨hs.taskId, fun _ => hs.running hrun⟩
    · exact ⟨rfl, fun _ => hs.running hrun⟩

theorem step_started (s : Globals) (e : StartEvent) (hs : Started s) :
    Started (startStep s e) := by
  cases e with
  | start call => exact started_start hs call
  | daemon i ok => exact started_daemon hs i ok

theorem started_of_run (es : List StartEvent) : Started (starts.exec zeroGlobals es) := by
  have hlegal : ∀ s, starts.Legal s es := by
    induction es with
    | nil => intro s; trivial
    | cons e es ih => intro s; exact ⟨trivial, ih _⟩
  exact Guarded.invariant (fun s e hs _ => step_started s e hs) started_zero (hlegal _)

/-! ## Redundant starts -/

theorem refused_iff_harmless {s : Globals} (hs : Started s) (hrun : s.daemons ≠ [])
    (call : StartCall) : Refused s call ↔ Harmless s call := by
  unfold Refused
  rw [startTelnetd_running hs hrun]
  constructor
  · intro ⟨hret, _, hset⟩
    have hspawn : call.spawnOk = false := by
      by_contra hok
      rw [Bool.not_eq_false] at hok
      exact hret (if_pos hok)
    refine ⟨hspawn, ?_, congrArg Settings.telnetdShellArg hset,
      congrArg Settings.telnetdStackSize hset, congrArg Settings.telnetdTaskPriority hset,
      congrArg Settings.telnetdDontSpawn hset⟩
    have hshell : (if call.cmd ≠ 0 then call.cmd else s.settings.telnetdShell) =
        s.settings.telnetdShell := congrArg Settings.telnetdShell hset
    by_cases hcmd : call.cmd = 0
    · exact Or.inl hcmd
    · rw [if_pos hcmd] at hshell
      exact Or.inr hshell
  · intro h
    have hno : ¬ call.spawnOk = true := by rw [h.spawn]; exact Bool.noConfusion
    have hshell : (if call.cmd ≠ 0 then call.cmd else s.settings.telnetdShell) =
        s.settings.telnetdShell := by
      split
      · next hne => exact h.shell.resolve_left hne
      · rfl
    refine ⟨?_, if_neg hno, ?_⟩
    · show (if call.spawnOk = true then (0 : Int32) else -1) ≠ 0
      rw [if_neg hno]
      decide
    · unfold accepted
      dsimp only
      rw [hshell, h.shellArg, h.stackSize, h.priority, h.dontSpawn]

theorem daemons_start {s : Globals} (hs : Started s) (call : StartCall) :
    (startTelnetd s call).1.daemons.length ≤ s.daemons.length + 1 := by
  rcases startTelnetd_cases hs.taskId call with ⟨-, hret⟩ | ⟨-, hret⟩ | ⟨-, -, hret⟩
  · rw [hret]
    exact Nat.le_succ _
  · rw [hret]
    exact Nat.le_succ _
  · rw [hret]
    show (if call.spawnOk = true then s.daemons ++ [.socket] else s.daemons).length ≤ _
    split
    · rw [List.length_append]
      exact Nat.le_refl _
    · exact Nat.le_succ _

/-- A harmless start adds no daemon, and no daemon adds one. -/
theorem daemons_harmless (s : Globals) (e : StartEvent)
    (hs : Started s ∧ s.daemons.length ≤ 1) (hg : harmlessStarts.guard s e) :
    Started (startStep s e) ∧ (startStep s e).daemons.length ≤ 1 := by
  obtain ⟨hst, hone⟩ := hs
  refine ⟨step_started s e hst, ?_⟩
  cases e with
  | start call =>
    rcases hg with hnone | hharm
    · have hlen := daemons_start hst call
      rw [hnone] at hlen
      exact hlen
    · by_cases hrun : s.daemons = []
      · have hlen := daemons_start hst call
        rw [hrun] at hlen
        exact hlen
      · have hkeep := ((refused_iff_harmless hst hrun call).mpr hharm).2.1
        show (startTelnetd s call).1.daemons.length ≤ 1
        rw [hkeep]
        exact hone
  | daemon i ok =>
    show (daemonStep s i ok).daemons.length ≤ 1
    unfold daemonStep
    split
    · exact hone
    · split
      · rw [List.length_set]
        exact hone
      · exact Nat.le_trans (List.length_eraseIdx_le ..) hone

/-- **Redundant starts.** In every state of every run of starts and daemons:

    * a start while a daemon runs is refused, spawns nothing and changes no setting,
      exactly if its spawn fails and the settings it asks for are the current ones;
    * if every start of the run that found a daemon running was of that kind, there is at
      most one daemon. -/
theorem redundant_start_iff (es : List StartEvent) :
    let s := starts.exec zeroGlobals es
    (∀ call, s.daemons ≠ [] → (Refused s call ↔ Harmless s call)) ∧
    (harmlessStarts.Legal zeroGlobals es → s.daemons.length ≤ 1) := by
  intro s
  refine ⟨fun call hrun => refused_iff_harmless (started_of_run es) hrun call, fun h => ?_⟩
  exact (Guarded.invariant daemons_harmless ⟨started_zero, Nat.zero_le 1⟩ h).2

/-- A start with the default stack size and priority. -/
def plainStart (spawnOk : Bool) : StartCall := ⟨4096, 0, 0, 0, 0, true, spawnOk, 0⟩

theorem redundant_start_iff_retry :
    Refused (starts.exec zeroGlobals [.start (plainStart true)]) (plainStart false) ∧
      (starts.exec zeroGlobals
        [.start (plainStart true), .start (plainStart false)]).daemons.length ≤ 1 := by
  refine ⟨?_, ?_⟩
  · refine ((redundant_start_iff [.start (plainStart true)]).1 (plainStart false)
      (by decide)).mpr ?_
    exact ⟨rfl, Or.inr rfl, rfl, rfl, rfl, rfl⟩
  · refine (redundant_start_iff [.start (plainStart true), .start (plainStart false)]).2 ?_
    exact ⟨Or.inl rfl, Or.inr ⟨rfl, Or.inr rfl, rfl, rfl, rfl, rfl⟩, trivial⟩

/-- The first daemon waits in `accept` when a second start, which asks for other settings,
    spawns another and returns 0. -/
theorem second_daemon :
    let s := starts.exec zeroGlobals
      [.start (plainStart true), .daemon 0 true, .daemon 0 true, .daemon 0 true]
    let call := { plainStart true with dontSpawn := 1, stack := 5000 }
    s.daemons = [.accept] ∧ ¬ Refused s call ∧ (startTelnetd s call).2 = 0 ∧
      (startTelnetd s call).1.daemons = [.accept, .socket] ∧
      (startTelnetd s call).1.settings ≠ s.settings := by
  intro s call
  have hret : (startTelnetd s call).2 = 0 := by decide
  refine ⟨by decide, fun h => h.1 hret, hret, by decide, by decide⟩

end SsrlApps.Telnetd
