/-
  The telnet daemon of telnetd/telnetd.c and its session tasks.

  Model. What the calls of one connection's handling return is an `Outcome`. The code is
  translated to functions from an outcome to the list of `Action`s it performs on stdio,
  on the connection's device and on the outside: `checkAndRun` (the two lines that check
  the password and run the shell), `spawnedShell`, `releaseAConnection`, and `serve`, the
  body of the accept loop of `rtems_task_telnetd`.

  `Net` is the running system: the PTY driver and the descriptors (`World`), the number of
  open handles of each device (termios calls `ptyPollInitialize` when the first is opened
  and `ptyShutdown` when the last is closed), and one task for each connection that got a
  slot: the daemon itself, for what it does in its own loop, or the spawned session. A
  task does one action at a time, in any interleaving; reads, writes and ioctls on the
  devices happen in between. The daemon accepts only when its own task is done.

  `malloc` of the session's arguments is taken to succeed: the source does not check it.
-/
import SsrlApps.Telnetd.Driver
import SsrlApps.Telnetd.Passwd

namespace SsrlApps.Telnetd

/-! ## The code of one connection -/

/-- An open or close of the connection's device. -/
inductive DevAct where
  | openDev
  | closeDev
deriving DecidableEq

inductive Action where
  | dev (a : DevAct)
  /-- `stdin = nstd[0]` -/
  | redirect
  /-- `stdin = ostd[0]` -/
  | restore
  /-- `check_passwd` reads a line from stdin. -/
  | passwdLine (line : List UInt8)
  /-- `check_passwd` returns. -/
  | passwdDone (rval : Int)
  /-- `telnetd_shell` is called. -/
  | shell
deriving DecidableEq

/-- What the calls made for one connection return. -/
structure Outcome where
  /-- `telnetd_spawn_task` -/
  spawnOk : Bool
  /-- The `fopen` of the dummy stream. -/
  dummyOk : Bool
  /-- `rtems_libio_set_private_env` -/
  privateEnvOk : Bool
  /-- The `fopen` of each of the three session streams. -/
  fopenOk : Fin 3 → Bool
  auth : PasswdEnv
  /-- What the shell opens and closes of the device. -/
  shellActs : List DevAct
  /-- The terminal termios makes for the device. -/
  tty : Tty

/-- `release_a_Connection`: `while (--n >= 0) if (pstd[n]) fclose(pstd[n])`. -/
def releaseAConnection (pstd : List Bool) (n : Nat) : List Action :=
  (pstd.take n).reverse.filterMap fun p => if p then some (.dev .closeDev) else none

/-- `if ( 0 == check_passwd(peername) ) telnetd_shell(devname, arg);` -/
def checkAndRun (o : Outcome) : List Action :=
  let result := checkPasswd o.auth
  result.lines.map .passwdLine ++ .passwdDone result.rval ::
    if result.rval = 0 then .shell :: o.shellActs.map .dev else []

/-- `spawned_shell`. At `cleanup` the streams below index `i` are closed. -/
def spawnedShell (o : Outcome) : List Action :=
  if !o.privateEnvOk then releaseAConnection [false, false, false] 0
  else if !o.fopenOk 0 then releaseAConnection [false, false, false] 0
  else .dev .openDev ::
    if !o.fopenOk 1 then releaseAConnection [true, false, false] 1
    else .dev .openDev ::
      if !o.fopenOk 2 then releaseAConnection [true, true, false] 2
      else .dev .openDev :: .redirect ::
        (checkAndRun o ++ .restore :: releaseAConnection [true, true, true] 3)

/-- The accept loop of `rtems_task_telnetd` behind a successful `grab_a_Connection`: the
    actions, and whether the daemon performs them itself. -/
def serve (dontSpawn : Bool) (o : Outcome) : Bool × List Action :=
  if dontSpawn then (true, checkAndRun o)
  else if o.spawnOk then (false, spawnedShell o)
  else
    -- the slot can only be released by opening and closing the device
    (true, if o.dummyOk then .dev .openDev :: releaseAConnection [true] 1
      else releaseAConnection [false] 1)

/-! ## The running system -/

/-- Where the lines of a task's stdin come from. -/
inductive Stream where
  | inherited
  | device (slot : Fin maxPtys)
deriving DecidableEq

/-- The handling of one connection: by the daemon (`inDaemon`) or by a session task.
    `handles` counts its open handles of the device, `released` records that closing one
    of them was the last close of the device. -/
structure Task where
  slot : Fin maxPtys
  inDaemon : Bool
  oc : Outcome
  todo : List Action
  stdin : Stream
  handles : Nat
  released : Bool

/-- What the outside sees. `peer` is the connection behind the PTY the line came from,
    if it came from one. -/
inductive Entry where
  | line (conn : Nat) (peer : Option Nat) (text : List UInt8)
  | result (conn : Nat) (rval : Int)
  | shell (conn : Nat)
deriving DecidableEq

structure Net where
  world : World
  /-- The reference count termios keeps for each device. -/
  refs : Fin maxPtys → Nat
  /-- The task of each connection that got a slot. -/
  tasks : Nat → Option Task
  log : List Entry

inductive NetEvent where
  /-- `accept` returned `fd`; `o` is what will happen to the connection. -/
  | connect (fd : Int) (o : Outcome)
  /-- The task of connection `c` performs its next action. -/
  | act (c : Nat)
  /-- A read, write, or control call on some device. -/
  | io (e : DriverEvent)

/-- The minor number behind a device name. -/
def minorOf (name : String) : Option (Fin maxPtys) :=
  (List.finRange maxPtys).find? fun i => ptyName i = name

/-- The connection whose bytes a stream delivers now. -/
def peerOf (w : World) : Stream → Option Nat
  | .inherited => none
  | .device i => if 0 ≤ (w.drv.ptys i).socket then w.fds.owner (w.drv.ptys i).socket else none

/-- `rtems_termios_open` -/
def openDevice (net : Net) (slot : Fin maxPtys) (tty : Tty) : Net :=
  { net with
    world := if net.refs slot = 0 then step net.world (.firstOpen slot tty) else net.world
    refs := Function.update net.refs slot (net.refs slot + 1) }

/-- `rtems_termios_close` -/
def closeDevice (net : Net) (slot : Fin maxPtys) : Net :=
  { net with
    world := if net.refs slot - 1 = 0 then step net.world (.lastClose slot) else net.world
    refs := Function.update net.refs slot (net.refs slot - 1) }

def setTask (net : Net) (c : Nat) (t : Task) : Net :=
  { net with tasks := Function.update net.tasks c (some t) }

/-- Task `t` of connection `c` performs `a`, and has `rest` left. -/
def perform (net : Net) (c : Nat) (t : Task) (rest : List Action) : Action → Net
  | .dev .openDev =>
    setTask (openDevice net t.slot t.oc.tty) c { t with todo := rest, handles := t.handles + 1 }
  | .dev .closeDev =>
    setTask (closeDevice net t.slot) c
      { t with todo := rest, handles := t.handles - 1,
               released := t.released || net.refs t.slot - 1 == 0 }
  | .redirect => setTask net c { t with todo := rest, stdin := .device t.slot }
  | .restore => setTask net c { t with todo := rest, stdin := .inherited }
  | .passwdLine text =>
    { setTask net c { t with todo := rest } with
      log := net.log ++ [.line c (peerOf net.world t.stdin) text] }
  | .passwdDone rval =>
    { setTask net c { t with todo := rest } with log := net.log ++ [.result c rval] }
  | .shell => { setTask net c { t with todo := rest } with log := net.log ++ [.shell c] }

/-- `grab_a_Connection`, and the start of what the loop does with the connection. -/
def connect (dontSpawn : Bool) (net : Net) (fd : Int) (o : Outcome) : Net :=
  let net' := { net with world := step net.world (.getPty fd) }
  match (telnetGetPty net.world.drv fd).2.1.bind minorOf with
  | none => net'
  | some slot =>
    setTask net' net.world.fds.next
      { slot, inDaemon := (serve dontSpawn o).1, oc := o, todo := (serve dontSpawn o).2,
        stdin := .inherited, handles := 0, released := false }

def netStep (dontSpawn : Bool) (net : Net) : NetEvent → Net
  | .connect fd o => connect dontSpawn net fd o
  | .act c =>
    match net.tasks c with
    | none => net
    | some t =>
      match t.todo with
      | [] => net
      | a :: rest => perform net c t rest a
  | .io e => { net with world := step net.world e }

/-- The number of handles left open by `acts`, starting from `h`; `none` if one is closed
    that was not opened. -/
def devDepth : Nat → List DevAct → Option Nat
  | h, [] => some h
  | h, .openDev :: acts => devDepth (h + 1) acts
  | 0, .closeDev :: _ => none
  | h + 1, .closeDev :: acts => devDepth h acts

/-- What is assumed of an outcome. The first open of the device that is attempted
    succeeds; the shell closes only what it opened, and in the daemon's own task it closes
    all of it. -/
structure OutcomeOk (dontSpawn : Bool) (o : Outcome) : Prop where
  dummy : o.dummyOk = true
  first : o.fopenOk 0 = true
  shell : (devDepth 0 o.shellActs).isSome
  closed : dontSpawn = true → devDepth 0 o.shellActs = some 0

def IsIo : DriverEvent → Prop
  | .getPty _ | .firstOpen _ _ | .lastClose _ => False
  | _ => True

def netGuard (dontSpawn : Bool) (net : Net) : NetEvent → Prop
  | .connect fd o => 0 ≤ fd ∧ net.world.fds.owner fd = none ∧ OutcomeOk dontSpawn o ∧
      ∀ c t, net.tasks c = some t → t.inDaemon = true → t.todo = []
  | .act _ => True
  | .io e => IsIo e

/-- The daemon, in one of its two modes. -/
def daemon (dontSpawn : Bool) : Guarded Net NetEvent := ⟨netGuard dontSpawn, netStep dontSpawn⟩

def netBoot : Net := ⟨boot, fun _ => 0, fun _ => none, []⟩

/-- A task that is scheduled performs its next action, if it has one. -/
theorem act_cases (dontSpawn : Bool) (net : Net) (c : Nat) :
    netStep dontSpawn net (.act c) = net ∨ ∃ t a rest, net.tasks c = some t ∧
      t.todo = a :: rest ∧ netStep dontSpawn net (.act c) = perform net c t rest a := by
  unfold netStep
  dsimp only
  cases ht : net.tasks c with
  | none => exact Or.inl rfl
  | some t =>
    cases htodo : t.todo with
    | nil => dsimp only; rw [htodo]; exact Or.inl rfl
    | cons a rest => dsimp only; rw [htodo]; exact Or.inr ⟨t, a, rest, rfl, htodo, rfl⟩

/-! ## Device actions of a task -/

def Action.dev? : Action → Option DevAct
  | .dev a => some a
  | _ => none

def devs (as : List Action) : List DevAct := as.filterMap Action.dev?

theorem devs_append (as bs : List Action) : devs (as ++ bs) = devs as ++ devs bs :=
  List.filterMap_append

theorem devs_map_dev (acts : List DevAct) : devs (acts.map .dev) = acts := by
  induction acts with
  | nil => rfl
  | cons a acts ih =>
    rw [List.map_cons, devs, List.filterMap_cons]
    exact congrArg (a :: ·) ih

/-- The handles and the released flag behind `acts`, when no other task has the device
    open. -/
def runDevs : Nat × Bool → List DevAct → Nat × Bool
  | s, [] => s
  | (h, r), .openDev :: acts => runDevs (h + 1, r) acts
  | (h, r), .closeDev :: acts => runDevs (h - 1, r || h - 1 == 0) acts

/-- The device is closed for the last time only by the last action. -/
def Tight : Nat → List DevAct → Prop
  | _, [] => True
  | h, .openDev :: acts => Tight (h + 1) acts
  | h, .closeDev :: acts => (h - 1 = 0 → acts = []) ∧ Tight (h - 1) acts

/-- Acts that keep at least one handle open do not release the device. -/
theorem runDevs_shell {acts : List DevAct} {d d' : Nat} (h : devDepth d acts = some d')
    (b : Nat) (hb : 0 < b) (tail : List DevAct) :
    runDevs (b + d, false) (acts ++ tail) = runDevs (b + d', false) tail := by
  induction acts generalizing d with
  | nil => rw [devDepth, Option.some.injEq] at h; rw [h]; rfl
  | cons a acts ih =>
    cases a with
    | openDev => exact ih h
    | closeDev =>
      cases d with
      | zero => cases h
      | succ d =>
        have hne : (b + (d + 1) - 1 == 0) = false := by
          simp only [beq_eq_false_iff_ne]; omega
        rw [List.cons_append, runDevs, hne, Bool.or_self, show b + (d + 1) - 1 = b + d by omega]
        exact ih h

theorem tight_shell {acts : List DevAct} {d d' : Nat} (h : devDepth d acts = some d')
    (b : Nat) (hb : 0 < b) (tail : List DevAct) (ht : Tight (b + d') tail) :
    Tight (b + d) (acts ++ tail) := by
  induction acts generalizing d with
  | nil => rw [devDepth, Option.some.injEq] at h; rw [h]; exact ht
  | cons a acts ih =>
    cases a with
    | openDev => exact ih h
    | closeDev =>
      cases d with
      | zero => cases h
      | succ d =>
        rw [List.cons_append, Tight, show b + (d + 1) - 1 = b + d by omega]
        exact ⟨fun h0 => by omega, ih h⟩

theorem devDepth_append {acts : List DevAct} {d d' : Nat} (h : devDepth d acts = some d')
    (b : Nat) (tail : List DevAct) : devDepth (b + d) (acts ++ tail) = devDepth (b + d') tail := by
  induction acts generalizing d with
  | nil => rw [devDepth, Option.some.injEq] at h; rw [h]; rfl
  | cons a acts ih =>
    cases a with
    | openDev => exact ih h
    | closeDev =>
      cases d with
      | zero => cases h
      | succ d => exact ih h

/-- Acts that close all they opened release the device if there are any. -/
theorem runDevs_closed {acts : List DevAct} {h : Nat} (hd : devDepth h acts = some 0)
    (r : Bool) : (runDevs (h, r) acts).1 = 0 ∧
      ((runDevs (h, r) acts).2 = true ↔ r = true ∨ 0 < h ∨ acts ≠ []) := by
  induction acts generalizing h r with
  | nil =>
    rw [devDepth, Option.some.injEq] at hd
    subst hd
    simp [runDevs]
  | cons a acts ih =>
    cases a with
    | openDev =>
      obtain ⟨h0, hiff⟩ := ih hd r
      refine ⟨h0, ?_⟩
      rw [runDevs, hiff]
      simp
    | closeDev =>
      cases h with
      | zero => cases hd
      | succ h =>
        obtain ⟨h0, hiff⟩ := ih hd (r || h == 0)
        refine ⟨h0, ?_⟩
        rw [runDevs, Nat.add_sub_cancel, hiff]
        by_cases hz : h = 0
        · simp [hz]
        · have hpos : 0 < h := Nat.pos_of_ne_zero hz
          simp [hpos]

end SsrlApps.Telnetd
