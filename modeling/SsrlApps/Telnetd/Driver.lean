/-
  The PTY driver of telnetd/pty.c: the slot table, and who owns a socket.

  Model. `Driver` is the static `telnet_ptys` table and `telnet_pty_inited`. Every entry
  point is a function from the driver (and the outcome of the calls it makes) to the new
  driver, its return value and its system calls. The order of events is free: the daemon
  assigns sockets (`telnetGetPty`), termios opens, closes, reads and writes devices.

  `World` adds the descriptors of the system (`FdTable`). A socket given to
  `telnet_get_pty` is a new object under the descriptor that `accept` returned; the guard
  is that `accept` returns no descriptor that is in use.

  Proved:
  * `telnetGetPty_cases`: everything a call of `telnet_get_pty` can do.
  * `step_owned`, `owned_of_legal`: the ownership invariant, for a step and for a run.
  * `slot_table_ownership`: an opened slot holds a socket, no two slots hold one socket,
    no slot is handed out twice, a socket for which there is no slot is closed at once, and
    every socket ever passed in is either held by exactly one slot and open, or was closed
    exactly once and is held by none.
-/
import SsrlApps.Lib.Ledger
import SsrlApps.Lib.Machine
import SsrlApps.Telnetd.Pty

namespace SsrlApps.Telnetd

def maxPtys : Nat := 5

instance : NeZero maxPtys := ⟨by decide⟩

/-- `CS8|B9600` of termios.h, the termios default. -/
def defaultCflag : Nat := 0o60 ||| 0o15

/-- `"/dev/pty%X"` -/
def ptyName (ndx : Fin maxPtys) : String := "/dev/pty" ++ (Nat.digitChar ndx).toString

structure Driver where
  telnetPtyInited : Bool
  ptys : Fin maxPtys → Pty

/-- The static state at program start. -/
def zeroDriver : Driver := ⟨false, fun _ => zeroPty⟩

def Driver.setPty (d : Driver) (ndx : Fin maxPtys) (pty : Pty) : Driver :=
  { d with ptys := Function.update d.ptys ndx pty }

@[simp] theorem setPty_self (d : Driver) (ndx : Fin maxPtys) (pty : Pty) :
    (d.setPty ndx pty).ptys ndx = pty :=
  Function.update_self ..

theorem setPty_ne (d : Driver) {ndx i : Fin maxPtys} (h : i ≠ ndx) (pty : Pty) :
    (d.setPty ndx pty).ptys i = d.ptys i :=
  Function.update_of_ne h ..

/-! ## Entry points -/

/-- The first slot without a socket. -/
def freeSlot (d : Driver) : Option (Fin maxPtys) :=
  (List.finRange maxPtys).find? fun ndx => (d.ptys ndx).socket < 0

/-- `telnet_get_pty`. Without a free slot the socket is closed and NULL returned. -/
def telnetGetPty (d : Driver) (socket : Int) : Driver × Option String × List SysCall :=
  match (if d.telnetPtyInited then freeSlot d else none) with
  | some ndx =>
    (d.setPty ndx { d.ptys ndx with socket := socket }, some (d.ptys ndx).devname,
      -- a long polling interval, to save CPU time
      [.setRcvTimeo socket 2 0])
  | none => (d, none, [.close socket])

def ptySetAttributes (d : Driver) (minor : Nat) (cflag : Nat) : Driver × Int :=
  if h : minor < maxPtys then
    (d.setPty ⟨minor, h⟩ { d.ptys ⟨minor, h⟩ with cCflag := cflag }, 0)
  else (d, -1)

/-- What `ptyPollInitialize` makes of a slot that holds a socket. -/
def openPty (pty : Pty) (tty : Tty) : Pty :=
  { pty with
    opened := true, ttyp := some tty, iacMode := 0, sbInd := 0, width := 0, height := 0 }

/-- `ptyPollInitialize`, the first-open handler. -/
def ptyPollInitialize (d : Driver) (minor : Nat) (tty : Tty) : Driver × Int :=
  if h : minor < maxPtys then
    if (d.ptys ⟨minor, h⟩).socket < 0 then (d, -1)
    else ptySetAttributes (d.setPty ⟨minor, h⟩ (openPty (d.ptys ⟨minor, h⟩) tty)) minor
      defaultCflag
  else (d, -1)

/-- The slot that `ptyPollInitialize` leaves, if it succeeds. -/
theorem ptyPollInitialize_slot {d : Driver} {minor : Fin maxPtys}
    (hsock : 0 ≤ (d.ptys minor).socket) (tty : Tty) :
    (ptyPollInitialize d minor tty).1.ptys minor =
      { openPty (d.ptys minor) tty with cCflag := defaultCflag } := by
  have hneg : ¬ (d.ptys minor).socket < 0 := by omega
  unfold ptyPollInitialize ptySetAttributes
  simp only [minor.isLt, dite_true, Fin.eta, setPty_self, hneg, if_false]

/-- `ptyShutdown`, the last-close handler. -/
def ptyShutdown (d : Driver) (minor : Nat) : Driver × Reply :=
  if h : minor < maxPtys then
    let pty := d.ptys ⟨minor, h⟩
    (d.setPty ⟨minor, h⟩ { pty with opened := false, socket := -1 },
      ⟨0, (if 0 ≤ pty.socket then [.close pty.socket] else []) ++ [.chown pty.devname 2 0]⟩)
  else (d, ⟨-1, []⟩)

/-- `ptyPollWrite`; `count` is what `write` returns. -/
def ptyPollWrite (d : Driver) (minor : Nat) (buf : List UInt8) (count : Int) : Reply :=
  if h : minor < maxPtys then
    if (d.ptys ⟨minor, h⟩).socket < 0 then ⟨-1, []⟩
    else ⟨count, [.write (d.ptys ⟨minor, h⟩).socket buf]⟩
  else ⟨-1, []⟩

def ptyPollRead (d : Driver) (minor : Nat) (r : ReadResult) : Driver × Reply :=
  if h : minor < maxPtys then
    if (d.ptys ⟨minor, h⟩).socket < 0 then (d, ⟨-1, []⟩)
    else
      let result := readPty (d.ptys ⟨minor, h⟩) r
      (d.setPty ⟨minor, h⟩ result.1, result.2)
  else (d, ⟨-1, []⟩)

/-- `struct winsize` -/
structure Winsize where
  wsRow : UInt16
  wsCol : UInt16
deriving DecidableEq

/-- `my_pty_control` on TIOCGWINSZ. -/
def getWinsize (d : Driver) (minor : Fin maxPtys) : Winsize :=
  ⟨(d.ptys minor).height.toUInt16, (d.ptys minor).width.toUInt16⟩

/-- `my_pty_control` on TIOCSWINSZ. -/
def setWinsize (d : Driver) (minor : Fin maxPtys) (wp : Winsize) : Driver :=
  d.setPty minor { d.ptys minor with height := wp.wsRow.toNat, width := wp.wsCol.toNat }

/-- What `my_pty_initialize` makes of slot `ndx`: `iac_mode`, `last_cr` and `sb_buf` keep
    what is in them. -/
def initPty (pty : Pty) (ndx : Fin maxPtys) : Pty :=
  { pty with
    devname := ptyName ndx, ttyp := none, cCflag := defaultCflag, socket := -1,
    opened := false, sbInd := 0, width := 0, height := 0 }

/-- `my_pty_initialize`, when all the names can be registered (a failure is fatal). -/
def myPtyInitialize (d : Driver) : Driver × List SysCall :=
  ({ d with ptys := fun ndx => initPty (d.ptys ndx) ndx },
    (List.finRange maxPtys).flatMap fun ndx =>
      [.chmod (ptyName ndx) 0o660, .chown (ptyName ndx) 2 0])

/-- `pty_do_initialize`; `registered` is whether `rtems_io_register_driver` succeeds,
    which runs the driver's initialisation. -/
def ptyDoInitialize (d : Driver) (registered : Bool) : Driver × List SysCall :=
  if d.telnetPtyInited then (d, [])
  else if registered then
    ({ (myPtyInitialize d).1 with telnetPtyInited := true }, (myPtyInitialize d).2)
  else (d, [])

/-- Everything a call of `telnet_get_pty` can do. -/
theorem telnetGetPty_cases (d : Driver) (socket : Int) :
    (∃ ndx, (d.ptys ndx).socket < 0 ∧
      telnetGetPty d socket = (d.setPty ndx { d.ptys ndx with socket := socket },
        some (d.ptys ndx).devname, [.setRcvTimeo socket 2 0])) ∨
    ((d.telnetPtyInited = false ∨ ∀ ndx, 0 ≤ (d.ptys ndx).socket) ∧
      telnetGetPty d socket = (d, none, [.close socket])) := by
  unfold telnetGetPty
  cases hi : d.telnetPtyInited with
  | false => exact Or.inr ⟨Or.inl rfl, rfl⟩
  | true =>
    rw [if_pos rfl]
    cases hf : freeSlot d with
    | some ndx =>
      have hneg := List.find?_some hf
      exact Or.inl ⟨ndx, of_decide_eq_true hneg, rfl⟩
    | none =>
      refine Or.inr ⟨Or.inr ?_, rfl⟩
      intro ndx
      have hpos := List.find?_eq_none.mp hf ndx (List.mem_finRange ndx)
      have : ¬ (d.ptys ndx).socket < 0 := fun h => hpos (decide_eq_true h)
      omega

/-! ## Runs of the driver -/

inductive DriverEvent where
  /-- The daemon passes a freshly accepted socket to `telnet_get_pty`. -/
  | getPty (fd : Int)
  | firstOpen (minor : Nat) (tty : Tty)
  | lastClose (minor : Nat)
  | pollRead (minor : Nat) (r : ReadResult)
  | pollWrite (minor : Nat) (buf : List UInt8) (count : Int)
  | setAttributes (minor : Nat) (cflag : Nat)
  | setWinsize (minor : Fin maxPtys) (wp : Winsize)

structure World where
  drv : Driver
  fds : FdTable Int

/-- The effect of system calls on the open descriptors. -/
def runSys (fds : FdTable Int) : List SysCall → FdTable Int
  | [] => fds
  | .close fd :: sys => runSys (fds.close fd) sys
  | _ :: sys => runSys fds sys

def step (w : World) : DriverEvent → World
  | .getPty fd =>
    let result := telnetGetPty w.drv fd
    ⟨result.1, runSys (w.fds.openAs fd) result.2.2⟩
  | .firstOpen minor tty => { w with drv := (ptyPollInitialize w.drv minor tty).1 }
  | .lastClose minor =>
    let result := ptyShutdown w.drv minor
    ⟨result.1, runSys w.fds result.2.sys⟩
  | .pollRead minor r =>
    let result := ptyPollRead w.drv minor r
    ⟨result.1, runSys w.fds result.2.sys⟩
  | .pollWrite minor buf count =>
    { w with fds := runSys w.fds (ptyPollWrite w.drv minor buf count).sys }
  | .setAttributes minor cflag => { w with drv := (ptySetAttributes w.drv minor cflag).1 }
  | .setWinsize minor wp => { w with drv := Telnetd.setWinsize w.drv minor wp }

/-- `accept` succeeded and returned a descriptor that is not open. -/
def guard (w : World) : DriverEvent → Prop
  | .getPty fd => 0 ≤ fd ∧ w.fds.owner fd = none
  | _ => True

def system : Guarded World DriverEvent := ⟨guard, step⟩

/-- After one initialisation; no socket was accepted yet. -/
def boot : World := ⟨(ptyDoInitialize zeroDriver true).1, FdTable.empty⟩

/-! ## Ownership -/

/-- The ownership invariant: the open descriptors are exactly the sockets of the slots. -/
structure Owned (w : World) : Prop where
  wf : w.fds.Wf
  inited : w.drv.telnetPtyInited = true
  names : ∀ i, (w.drv.ptys i).devname = ptyName i
  opened : ∀ i, (w.drv.ptys i).opened = true → 0 ≤ (w.drv.ptys i).socket
  held : ∀ i, 0 ≤ (w.drv.ptys i).socket → ∃ c, w.fds.owner (w.drv.ptys i).socket = some c
  distinct : ∀ i j, 0 ≤ (w.drv.ptys i).socket →
    (w.drv.ptys i).socket = (w.drv.ptys j).socket → i = j
  slots : ∀ fd c, w.fds.owner fd = some c → 0 ≤ fd ∧ ∃ i, (w.drv.ptys i).socket = fd

theorem boot_socket (i : Fin maxPtys) : (boot.drv.ptys i).socket = -1 := rfl

theorem owned_boot : Owned boot where
  wf := FdTable.wf_empty
  inited := rfl
  names := by intro i; rfl
  opened := by intro i h; cases h
  held := by intro i h; rw [boot_socket] at h; omega
  distinct := by intro i j h; rw [boot_socket] at h; omega
  slots := by intro fd c h; cases h

theorem runSys_writes {fds : FdTable Int} {socket : Int} {sys : List SysCall}
    (h : WritesTo socket sys) : runSys fds sys = fds := by
  induction sys with
  | nil => rfl
  | cons c cs ih =>
    obtain ⟨buf, rfl⟩ := h c List.mem_cons_self
    exact ih fun c hc => h c (List.mem_cons_of_mem _ hc)

/-- An event that moves no socket: names, sockets and descriptors stay, and a slot is
    newly opened only if it holds a socket. -/
structure Still (w w' : World) : Prop where
  fds : w'.fds = w.fds
  inited : w'.drv.telnetPtyInited = w.drv.telnetPtyInited
  devname : ∀ i, (w'.drv.ptys i).devname = (w.drv.ptys i).devname
  socket : ∀ i, (w'.drv.ptys i).socket = (w.drv.ptys i).socket
  opened : ∀ i, (w'.drv.ptys i).opened = true →
    (w.drv.ptys i).opened = true ∨ 0 ≤ (w.drv.ptys i).socket

theorem still_refl (w : World) : Still w w :=
  ⟨rfl, rfl, fun _ => rfl, fun _ => rfl, fun _ h => Or.inl h⟩

/-- Changing one slot, apart from its name and its socket. -/
theorem still_setPty (w : World) (ndx : Fin maxPtys) (pty : Pty)
    (hname : pty.devname = (w.drv.ptys ndx).devname)
    (hsock : pty.socket = (w.drv.ptys ndx).socket)
    (hopen : pty.opened = true →
      (w.drv.ptys ndx).opened = true ∨ 0 ≤ (w.drv.ptys ndx).socket) :
    Still w { w with drv := w.drv.setPty ndx pty } := by
  refine ⟨rfl, rfl, ?_, ?_, ?_⟩
  all_goals
    intro i
    by_cases h : i = ndx
    · subst h
      simp only [setPty_self]
      assumption
    · simp only [setPty_ne w.drv h]
      first | done | exact Or.inl

theorem owned_of_still {w w' : World} (h : Still w w') (ho : Owned w) : Owned w' := by
  refine ⟨?_, ?_, ?_, ?_, ?_, ?_, ?_⟩
  · rw [h.fds]; exact ho.wf
  · rw [h.inited]; exact ho.inited
  · intro i; rw [h.devname]; exact ho.names i
  · intro i hi
    rw [h.socket]
    rcases h.opened i hi with hop | hs
    · exact ho.opened i hop
    · exact hs
  · intro i; rw [h.socket, h.fds]; exact ho.held i
  · intro i j; rw [h.socket, h.socket]; exact ho.distinct i j
  · intro fd c hc
    rw [h.fds] at hc
    obtain ⟨hpos, i, hi⟩ := ho.slots fd c hc
    exact ⟨hpos, i, by rw [h.socket]; exact hi⟩

theorem still_setAttributes (w : World) (minor cflag : Nat) :
    Still w { w with drv := (ptySetAttributes w.drv minor cflag).1 } := by
  unfold ptySetAttributes
  split
  · exact still_setPty w _ _ rfl rfl Or.inl
  · exact still_refl w

theorem still_trans {a b c : World} (h : Still a b) (h' : Still b c) : Still a c := by
  refine ⟨h'.fds.trans h.fds, h'.inited.trans h.inited, ?_, ?_, ?_⟩
  · intro i; rw [h'.devname, h.devname]
  · intro i; rw [h'.socket, h.socket]
  · intro i hi
    rcases h'.opened i hi with hop | hs
    · exact h.opened i hop
    · exact Or.inr (h.socket i ▸ hs)

theorem still_firstOpen (w : World) (minor : Nat) (tty : Tty) :
    Still w (step w (.firstOpen minor tty)) := by
  unfold step ptyPollInitialize
  dsimp only
  split
  · split
    · exact still_refl w
    · next hm hneg =>
      have hpos : 0 ≤ (w.drv.ptys ⟨minor, hm⟩).socket := by omega
      exact still_trans
        (still_setPty w ⟨minor, hm⟩ (openPty (w.drv.ptys ⟨minor, hm⟩) tty) rfl rfl
          fun _ => Or.inr hpos)
        (still_setAttributes _ minor defaultCflag)
  · exact still_refl w

theorem still_pollRead (w : World) (minor : Nat) (r : ReadResult) :
    Still w (step w (.pollRead minor r)) := by
  unfold step ptyPollRead
  dsimp only
  split
  · split
    · exact still_refl w
    · next hm _ =>
      have hsame := readPty_sameSlot (w.drv.ptys ⟨minor, hm⟩) r
      dsimp only
      rw [runSys_writes (readPty_writes _ _)]
      refine still_setPty w _ _ hsame.devname hsame.socket ?_
      rw [hsame.opened]
      exact Or.inl
  · exact still_refl w

theorem still_pollWrite (w : World) (minor : Nat) (buf : List UInt8) (count : Int) :
    Still w (step w (.pollWrite minor buf count)) := by
  unfold step ptyPollWrite
  dsimp only
  split
  · split <;> exact still_refl w
  · exact still_refl w

/-- A socket goes into a free slot: it is the one descriptor that is new. -/
theorem owned_grant {w : World} (ho : Owned w) {fd : Int} (hfd : 0 ≤ fd)
    (hfresh : w.fds.owner fd = none) {ndx : Fin maxPtys}
    (hfree : (w.drv.ptys ndx).socket < 0) :
    Owned ⟨w.drv.setPty ndx { w.drv.ptys ndx with socket := fd }, w.fds.openAs fd⟩ := by
  have hnot : ∀ i, (w.drv.ptys i).socket ≠ fd := by
    intro i h
    obtain ⟨c, hc⟩ := ho.held i (by omega)
    rw [h, hfresh] at hc
    cases hc
  refine ⟨FdTable.wf_openAs ho.wf hfresh, ho.inited, ?_, ?_, ?_, ?_, ?_⟩
  · intro i
    by_cases h : i = ndx
    · subst h; rw [setPty_self]; exact ho.names i
    · rw [setPty_ne _ h]; exact ho.names i
  · intro i
    by_cases h : i = ndx
    · subst h; rw [setPty_self]; intro _; exact hfd
    · rw [setPty_ne _ h]; exact ho.opened i
  · intro i
    by_cases h : i = ndx
    · subst h; rw [setPty_self]; intro _; exact ⟨_, FdTable.openAs_owner_self fd⟩
    · rw [setPty_ne _ h, FdTable.openAs_owner_ne (hnot i)]; exact ho.held i
  · intro i j hi hij
    by_cases h : i = ndx
    · by_cases h' : j = ndx
      · rw [h, h']
      · subst h
        rw [setPty_self, setPty_ne _ h'] at hij
        exact absurd hij.symm (hnot j)
    · rw [setPty_ne _ h] at hi hij
      by_cases h' : j = ndx
      · subst h'
        rw [setPty_self] at hij
        exact absurd hij (hnot i)
      · rw [setPty_ne _ h'] at hij
        exact ho.distinct i j hi hij
  · intro fd' c hc
    by_cases h : fd' = fd
    · subst h
      exact ⟨hfd, ndx, by rw [setPty_self]⟩
    · rw [FdTable.openAs_owner_ne h] at hc
      obtain ⟨hpos, i, hi⟩ := ho.slots fd' c hc
      have hne : i ≠ ndx := by rintro rfl; omega
      exact ⟨hpos, i, by rw [setPty_ne _ hne]; exact hi⟩

/-- No slot is free: the socket is opened and closed, and nothing else moves. -/
theorem owned_refuse {w : World} (ho : Owned w) {fd : Int} (hfresh : w.fds.owner fd = none) :
    Owned ⟨w.drv, (w.fds.openAs fd).close fd⟩ := by
  have howner : ∀ fd', ((w.fds.openAs fd).close fd).owner fd' = w.fds.owner fd' := by
    intro fd'
    by_cases h : fd' = fd
    · subst h; rw [FdTable.close_owner_self, hfresh]
    · rw [FdTable.close_owner_ne h, FdTable.openAs_owner_ne h]
  refine ⟨FdTable.wf_close (FdTable.wf_openAs ho.wf hfresh) fd, ho.inited, ho.names, ho.opened,
    ?_, ho.distinct, ?_⟩
  · intro i; rw [howner]; exact ho.held i
  · intro fd' c hc; rw [howner] at hc; exact ho.slots fd' c hc

theorem owned_getPty {w : World} (ho : Owned w) {fd : Int} (hfd : 0 ≤ fd)
    (hfresh : w.fds.owner fd = none) : Owned (step w (.getPty fd)) := by
  rcases telnetGetPty_cases w.drv fd with ⟨ndx, hfree, hget⟩ | ⟨-, hget⟩
  · unfold step
    dsimp only
    rw [hget]
    exact owned_grant ho hfd hfresh hfree
  · unfold step
    dsimp only
    rw [hget]
    exact owned_refuse ho hfresh

theorem owned_lastClose {w : World} (ho : Owned w) (minor : Nat) :
    Owned (step w (.lastClose minor)) := by
  unfold step ptyShutdown
  dsimp only
  split
  · next hm =>
    generalize (⟨minor, hm⟩ : Fin maxPtys) = ndx
    -- a negative socket is not open, so closing it would not matter
    have hfds : runSys w.fds ((if 0 ≤ (w.drv.ptys ndx).socket
        then [.close (w.drv.ptys ndx).socket] else []) ++ [.chown (w.drv.ptys ndx).devname 2 0]) =
        w.fds.close (w.drv.ptys ndx).socket := by
      split
      · rfl
      · next hs =>
        cases hc : w.fds.owner (w.drv.ptys ndx).socket with
        | none => rw [FdTable.close_closed hc]; rfl
        | some c => exact absurd (ho.slots _ c hc).1 hs
    rw [hfds]
    have hother : ∀ i, i ≠ ndx → 0 ≤ (w.drv.ptys i).socket →
        (w.drv.ptys i).socket ≠ (w.drv.ptys ndx).socket :=
      fun i hne hi h => hne (ho.distinct i ndx hi h)
    refine ⟨FdTable.wf_close ho.wf _, ho.inited, ?_, ?_, ?_, ?_, ?_⟩
    · intro i
      by_cases h : i = ndx
      · subst h; rw [setPty_self]; exact ho.names i
      · rw [setPty_ne _ h]; exact ho.names i
    · intro i
      by_cases h : i = ndx
      · subst h; rw [setPty_self]; intro hf; cases hf
      · rw [setPty_ne _ h]; exact ho.opened i
    · intro i
      by_cases h : i = ndx
      · subst h; rw [setPty_self]; dsimp only; intro hf; omega
      · rw [setPty_ne _ h]
        intro hi
        rw [FdTable.close_owner_ne (hother i h hi)]
        exact ho.held i hi
    · intro i j
      by_cases h : i = ndx
      · subst h; rw [setPty_self]; dsimp only; intro hf; omega
      · rw [setPty_ne _ h]
        by_cases h' : j = ndx
        · subst h'; rw [setPty_self]; dsimp only; intro hi hij; omega
        · rw [setPty_ne _ h']; exact ho.distinct i j
    · intro fd c hc
      have hne : fd ≠ (w.drv.ptys ndx).socket := by
        rintro rfl
        rw [FdTable.close_owner_self] at hc
        cases hc
      rw [FdTable.close_owner_ne hne] at hc
      obtain ⟨hpos, i, hi⟩ := ho.slots fd c hc
      have hi' : i ≠ ndx := by rintro rfl; exact hne hi.symm
      exact ⟨hpos, i, by rw [setPty_ne _ hi']; exact hi⟩
  · exact ho

theorem step_owned (w : World) (e : DriverEvent) (ho : Owned w) (hg : guard w e) :
    Owned (step w e) := by
  cases e with
  | getPty fd => exact owned_getPty ho hg.1 hg.2
  | firstOpen minor tty => exact owned_of_still (still_firstOpen w minor tty) ho
  | lastClose minor => exact owned_lastClose ho minor
  | pollRead minor r => exact owned_of_still (still_pollRead w minor r) ho
  | pollWrite minor buf count => exact owned_of_still (still_pollWrite w minor buf count) ho
  | setAttributes minor cflag => exact owned_of_still (still_setAttributes w minor cflag) ho
  | setWinsize minor wp => exact owned_of_still (still_setPty w minor _ rfl rfl Or.inl) ho

theorem owned_of_legal {es : List DriverEvent} (h : system.Legal boot es) :
    Owned (system.exec boot es) :=
  Guarded.invariant step_owned owned_boot h

/-! ## The slot table -/

/-- Slot `i` holds the accepted socket number `c`: its descriptor is open and names `c`. -/
def Holds (w : World) (i : Fin maxPtys) (c : Nat) : Prop :=
  0 ≤ (w.drv.ptys i).socket ∧ w.fds.owner (w.drv.ptys i).socket = some c

/-- Every socket that was passed in is held by one slot and open, or closed once. -/
theorem accounted {w : World} (ho : Owned w) {c : Nat} (hc : c < w.fds.next) :
    ((∃! i, Holds w i c) ∧ w.fds.closes c = 0) ∨
      (w.fds.closes c = 1 ∧ ∀ i, ¬ Holds w i c) := by
  by_cases hopen : ∃ fd, w.fds.owner fd = some c
  · obtain ⟨fd, hfd⟩ := hopen
    obtain ⟨hpos, i, hi⟩ := ho.slots fd c hfd
    refine Or.inl ⟨⟨i, ⟨by omega, by rw [hi]; exact hfd⟩, ?_⟩, (ho.wf.live fd c hfd).2⟩
    intro j hj
    have hsame := ho.wf.inj _ _ c hj.2 hfd
    exact ho.distinct j i hj.1 (hsame.trans hi.symm)
  · rcases ho.wf.total c hc with h | h
    · exact absurd h hopen
    · exact Or.inr ⟨h, fun i hi => hopen ⟨_, hi.2⟩⟩

/-- **Slot table ownership.** In every state of every run after one initialisation:

    * an opened slot holds a socket,
    * no two slots hold one socket,
    * a slot that `telnet_get_pty` hands out held none, and holds the new one then,
    * when every slot holds one, `telnet_get_pty` closes the new one at once,
    * every socket ever passed to `telnet_get_pty` is held by exactly one slot and never
      closed, or closed exactly once and held by none. -/
theorem slot_table_ownership (es : List DriverEvent) (h : system.Legal boot es) :
    let w := system.exec boot es
    (∀ i, (w.drv.ptys i).opened = true → 0 ≤ (w.drv.ptys i).socket) ∧
    (∀ i j c, Holds w i c → Holds w j c → i = j) ∧
    (∀ fd name, (telnetGetPty w.drv fd).2.1 = some name → ∃ i, name = ptyName i ∧
      (w.drv.ptys i).socket < 0 ∧ ((telnetGetPty w.drv fd).1.ptys i).socket = fd ∧
      ∀ j, j ≠ i → (telnetGetPty w.drv fd).1.ptys j = w.drv.ptys j) ∧
    (∀ fd, (∀ i, 0 ≤ (w.drv.ptys i).socket) →
      telnetGetPty w.drv fd = (w.drv, none, [.close fd])) ∧
    (∀ c, c < w.fds.next →
      ((∃! i, Holds w i c) ∧ w.fds.closes c = 0) ∨
        (w.fds.closes c = 1 ∧ ∀ i, ¬ Holds w i c)) := by
  intro w
  have ho : Owned w := owned_of_legal h
  refine ⟨ho.opened, ?_, ?_, ?_, fun c hc => accounted ho hc⟩
  · intro i j c hi hj
    exact ho.distinct i j hi.1 (ho.wf.inj _ _ c hi.2 hj.2)
  · intro fd name hname
    rcases telnetGetPty_cases w.drv fd with ⟨i, hfree, hget⟩ | ⟨-, hget⟩
    · rw [hget] at hname ⊢
      refine ⟨i, ?_, hfree, by rw [setPty_self], fun j hj => setPty_ne _ hj _⟩
      rw [← ho.names i]
      exact (Option.some.inj hname).symm
    · rw [hget] at hname
      cases hname
  · intro fd hfull
    rcases telnetGetPty_cases w.drv fd with ⟨i, hfree, -⟩ | ⟨-, hget⟩
    · exact absurd (hfull i) (Int.not_le.mpr hfree)
    · exact hget

/-- A socket that is closed, one that comes under its descriptor and is held, and one for which
    there is no slot. -/
theorem slot_table_ownership_reuse :
    let w := system.exec boot [.getPty 7, .firstOpen 0 ⟨0, 0, 4⟩, .lastClose 0, .getPty 7,
      .getPty 8, .getPty 9, .getPty 10, .getPty 11]
    (∀ i, (w.drv.ptys i).opened = true → 0 ≤ (w.drv.ptys i).socket) ∧
      (w.fds.closes 0 = 1 ∧ ∀ i, ¬ Holds w i 0) ∧
      ((∃! i, Holds w i 1) ∧ w.fds.closes 1 = 0) ∧
      telnetGetPty w.drv 12 = (w.drv, none, [.close 12]) := by
  intro w
  obtain ⟨hopened, -, -, hfull, hsockets⟩ := slot_table_ownership
    [.getPty 7, .firstOpen 0 ⟨0, 0, 4⟩, .lastClose 0, .getPty 7,
      .getPty 8, .getPty 9, .getPty 10, .getPty 11]
    ⟨⟨by decide, rfl⟩, trivial, trivial, ⟨by decide, rfl⟩, ⟨by decide, rfl⟩, ⟨by decide, rfl⟩,
      ⟨by decide, rfl⟩, ⟨by decide, rfl⟩, trivial⟩
  have hclosed : w.fds.closes 0 ≠ 0 := by decide
  have hheld : w.fds.closes 1 ≠ 1 := by decide
  exact ⟨hopened, (hsockets 0 (by decide)).resolve_left fun h => hclosed h.2,
    (hsockets 1 (by decide)).resolve_right fun h => hheld h.1, hfull 12 (by decide)⟩

end SsrlApps.Telnetd
