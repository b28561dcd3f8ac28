/-
  Loading and unloading the PTY driver.

  Model. `ptyDoFinalize` is `pty_do_finalize`: whether `rtems_io_unregister_driver` succeeds,
  and which device nodes can be unlinked, is part of the event. A `Module` is the driver
  world beside the entry in the I/O driver table: devices can be used while the driver is
  registered, `telnet_get_pty` can be called at any time. Loads, unloads and the events of
  the driver come in any order, from program start.

  The finalizer looks at `opened`, the allocator at `socket`: between `telnet_get_pty` and
  the first open of the device the two disagree. `Settled` is an unload outside of that
  window.

  Proved:
  * `ptyDoFinalize_cases`: everything an unload can do.
  * `sound_step`: where the unloads are settled, the owned sockets are those of the slots,
    and an unloaded driver owns none.
  * `unload_iff`: no unload of a run drops a connection exactly if all are settled.
  * `unload_drops`: an accepted socket that is lost.
-/
import SsrlApps.Telnetd.Driver

namespace SsrlApps.Telnetd

/-! ## The finalizer -/

/-- What `pty_do_finalize` leaves behind. -/
structure Finalized where
  drv : Driver
  registered : Bool
  ret : Int
  freed : List String

/-- `pty_do_finalize`; `unregister` is whether `rtems_io_unregister_driver` succeeds,
    `unlink` which of the device nodes can be removed. -/
def ptyDoFinalize (d : Driver) (registered unregister : Bool)
    (unlink : Fin maxPtys → Bool) : Finalized :=
  if d.telnetPtyInited = false then ⟨d, registered, 0, []⟩
  else if ∃ ndx, (d.ptys ndx).opened = true then ⟨d, registered, -1, []⟩
  else if unregister = false then ⟨d, registered, -1, []⟩
  else ⟨{ d with telnetPtyInited := false }, false, 0,
    ((List.finRange maxPtys).filter unlink).map fun ndx => (d.ptys ndx).devname⟩

/-- Everything an unload can do. -/
theorem ptyDoFinalize_cases (d : Driver) (registered unregister : Bool)
    (unlink : Fin maxPtys → Bool) :
    (∃ ret, ptyDoFinalize d registered unregister unlink = ⟨d, registered, ret, []⟩ ∧
      (d.telnetPtyInited = true → (∃ i, (d.ptys i).opened = true) ∨ unregister = false)) ∨
    (d.telnetPtyInited = true ∧ (∀ i, (d.ptys i).opened = false) ∧ unregister = true ∧
      ∃ freed, ptyDoFinalize d registered unregister unlink =
        ⟨{ d with telnetPtyInited := false }, false, 0, freed⟩) := by
  unfold ptyDoFinalize
  split
  · next hi => exact Or.inl ⟨0, rfl, fun h => by rw [h] at hi; cases hi⟩
  · next hi =>
    split
    · next ho => exact Or.inl ⟨-1, rfl, fun _ => Or.inl ho⟩
    · next ho =>
      split
      · next hu => exact Or.inl ⟨-1, rfl, fun _ => Or.inr hu⟩
      · next hu =>
        refine Or.inr ⟨eq_true_of_ne_false hi, ?_, eq_true_of_ne_false hu, _, rfl⟩
        intro i
        exact eq_false_of_ne_true fun h => ho ⟨i, h⟩

/-! ## The module -/

/-- The driver's world, and whether `drvPty` is in the I/O driver table. -/
structure Module where
  world : World
  registered : Bool

inductive ModuleEvent
  | driver (e : DriverEvent)
  /-- `registered` is whether `rtems_io_register_driver` succeeds. -/
  | doInitialize (registered : Bool)
  | doFinalize (unregister : Bool) (unlink : Fin maxPtys → Bool)

def moduleStep (m : Module) : ModuleEvent → Module
  | .driver e => { m with world := step m.world e }
  | .doInitialize registered =>
    ⟨{ m.world with drv := (ptyDoInitialize m.world.drv registered).1 },
      if m.world.drv.telnetPtyInited = true then m.registered else registered⟩
  | .doFinalize unregister unlink =>
    let result := ptyDoFinalize m.world.drv m.registered unregister unlink
    ⟨{ m.world with drv := result.drv }, result.registered⟩

/-- A device can only be used while the driver is registered. -/
def moduleGuard (m : Module) : ModuleEvent → Prop
  | .driver (.getPty fd) => guard m.world (.getPty fd)
  | .driver _ => m.registered = true
  | _ => True

def moduleSystem : Guarded Module ModuleEvent := ⟨moduleGuard, moduleStep⟩

/-- Program start. -/
def unloaded : Module := ⟨⟨zeroDriver, FdTable.empty⟩, false⟩

/-! ## The law -/

/-- Every socket that was passed in is held by one slot and open, or closed once. -/
def Accounted (w : World) : Prop :=
  ∀ c, c < w.fds.next →
    ((∃! i, Holds w i c) ∧ w.fds.closes c = 0) ∨ (w.fds.closes c = 1 ∧ ∀ i, ¬Holds w i c)

/-- An unload takes the driver out of the table only if no slot holds a socket, and changes
    nothing when it fails. -/
def FinalizeSafe (m : Module) (result : Finalized) : Prop :=
  (result.ret = 0 → m.registered = true → result.registered = false →
    ∀ i, (m.world.drv.ptys i).socket < 0) ∧
  (result.ret = -1 → result.drv = m.world.drv ∧ result.registered = m.registered)

def Keeps (m : Module) (e : ModuleEvent) : Prop :=
  (∀ unregister unlink, e = .doFinalize unregister unlink →
    FinalizeSafe m (ptyDoFinalize m.world.drv m.registered unregister unlink)) ∧
  Accounted (moduleStep m e).world

/-- If a slot holds a socket when the driver could be unregistered, some slot is opened: it
    is not the case that all that hold one wait for their first open. -/
def Settled (m : Module) (e : ModuleEvent) : Prop :=
  ∀ unlink, e = .doFinalize true unlink → m.world.drv.telnetPtyInited = true →
    (∃ i, 0 ≤ (m.world.drv.ptys i).socket) → ∃ i, (m.world.drv.ptys i).opened = true

theorem Settled.free {m : Module} {unlink : Fin maxPtys → Bool}
    (h : Settled m (.doFinalize true unlink)) (hi : m.world.drv.telnetPtyInited = true)
    (hclosed : ∀ i, (m.world.drv.ptys i).opened = false) (i : Fin maxPtys) :
    (m.world.drv.ptys i).socket < 0 := by
  by_contra hpos
  obtain ⟨j, hj⟩ := h unlink rfl hi ⟨i, by omega⟩
  rw [hclosed j] at hj
  cases hj

/-! ## What a module keeps -/

/-- The ledger of a module: loaded, it owns what its slots hold, unloaded, nothing. -/
structure Sound (m : Module) : Prop where
  registered : m.registered = m.world.drv.telnetPtyInited
  loaded : m.world.drv.telnetPtyInited = true → Owned m.world
  unloaded : m.world.drv.telnetPtyInited = false →
    m.world.fds.Wf ∧ ∀ fd, m.world.fds.owner fd = none

theorem sound_unloaded : Sound unloaded :=
  ⟨rfl, fun h => (nomatch h), fun _ => ⟨FdTable.wf_empty, fun _ => rfl⟩⟩

theorem Sound.accounted {m : Module} (h : Sound m) : Accounted m.world := by
  intro c hc
  cases hi : m.world.drv.telnetPtyInited with
  | true => exact Telnetd.accounted (h.loaded hi) hc
  | false =>
    obtain ⟨hwf, hnone⟩ := h.unloaded hi
    have hno : ∀ fd, m.world.fds.owner fd ≠ some c := by
      intro fd ho
      rw [hnone fd] at ho
      cases ho
    have hclosed : m.world.fds.closes c = 1 :=
      (hwf.total c hc).resolve_left fun ⟨fd, ho⟩ => hno fd ho
    exact Or.inr ⟨hclosed, fun i hi => hno _ hi.2⟩

/-- While the driver is not loaded, a socket that is passed in is closed again. -/
theorem sound_refuse {m : Module} (h : Sound m) (hi : m.world.drv.telnetPtyInited = false)
    (fd : Int) : Sound (moduleStep m (.driver (.getPty fd))) := by
  obtain ⟨hwf, hnone⟩ := h.unloaded hi
  have hget : telnetGetPty m.world.drv fd = (m.world.drv, none, [.close fd]) := by
    unfold telnetGetPty
    rw [hi]
    rfl
  have hstep : moduleStep m (.driver (.getPty fd)) =
      ⟨⟨m.world.drv, (m.world.fds.openAs fd).close fd⟩, m.registered⟩ := by
    unfold moduleStep step
    dsimp only
    rw [hget]
    rfl
  rw [hstep]
  refine ⟨h.registered, fun ht => ?_, fun _ => ⟨?_, ?_⟩⟩
  · rw [hi] at ht
    cases ht
  · exact FdTable.wf_close (FdTable.wf_openAs hwf (hnone fd)) fd
  · intro fd'
    by_cases hfd : fd' = fd
    · subst hfd
      exact FdTable.close_owner_self fd'
    · show ((m.world.fds.openAs fd).close fd).owner fd' = none
      rw [FdTable.close_owner_ne hfd, FdTable.openAs_owner_ne hfd, hnone]

theorem sound_driver {m : Module} (h : Sound m) {e : DriverEvent}
    (hg : moduleGuard m (.driver e)) : Sound (moduleStep m (.driver e)) := by
  cases hi : m.world.drv.telnetPtyInited with
  | true =>
    have howned : Owned (step m.world e) := by
      refine step_owned m.world e (h.loaded hi) ?_
      cases e with
      | getPty fd => exact hg
      | _ => trivial
    refine ⟨?_, fun _ => howned, fun hf => ?_⟩
    · show m.registered = (step m.world e).drv.telnetPtyInited
      rw [howned.inited, h.registered, hi]
    · have ht : (step m.world e).drv.telnetPtyInited = true := howned.inited
      exact absurd (hf.symm.trans ht) (by decide)
  | false =>
    have hreg : m.registered ≠ true := by
      rw [h.registered, hi]
      decide
    cases e with
    | getPty fd => exact sound_refuse h hi fd
    | _ => exact absurd hg hreg

/-- The value that stands for no socket. -/
theorem free_not_held : ¬(0 : Int) ≤ -1 := by decide

/-- A driver that was just loaded holds no socket. -/
theorem owned_initialize (d : Driver) {fds : FdTable Int} (hwf : fds.Wf)
    (hnone : ∀ fd, fds.owner fd = none) :
    Owned ⟨{ (myPtyInitialize d).1 with telnetPtyInited := true }, fds⟩ where
  wf := hwf
  inited := rfl
  names := by intro i; rfl
  opened := by intro i h; cases h
  held := by
    intro i h
    exact absurd h free_not_held
  distinct := by
    intro i j h
    exact absurd h free_not_held
  slots := by
    intro fd c h
    have hno : fds.owner fd = some c := h
    rw [hnone fd] at hno
    cases hno

theorem sound_initialize {m : Module} (h : Sound m) (registered : Bool) :
    Sound (moduleStep m (.doInitialize registered)) := by
  unfold moduleStep ptyDoInitialize
  dsimp only
  cases hi : m.world.drv.telnetPtyInited with
  | true =>
    rw [if_pos rfl, if_pos rfl]
    exact h
  | false =>
    have hne : ¬false = true := by decide
    obtain ⟨hwf, hnone⟩ := h.unloaded hi
    rw [if_neg hne, if_neg hne]
    cases registered with
    | true =>
      rw [if_pos rfl]
      exact ⟨rfl, fun _ => owned_initialize _ hwf hnone, fun hf => nomatch hf⟩
    | false =>
      rw [if_neg hne]
      refine ⟨hi.symm, h.loaded, h.unloaded⟩

theorem sound_finalize {m : Module} (h : Sound m) {unregister : Bool}
    {unlink : Fin maxPtys → Bool}
    (hs : Settled m (.doFinalize unregister unlink)) :
    Sound (moduleStep m (.doFinalize unregister unlink)) := by
  unfold moduleStep
  dsimp only
  rcases ptyDoFinalize_cases m.world.drv m.registered unregister unlink with
    ⟨ret, heq, -⟩ | ⟨hi, hclosed, hu, freed, heq⟩
  · rw [heq]
    exact h
  · rw [heq]
    have howned := h.loaded hi
    have hfree : ∀ i, (m.world.drv.ptys i).socket < 0 := by
      rw [hu] at hs
      exact hs.free hi hclosed
    refine ⟨rfl, fun ht => (nomatch ht), fun _ => ⟨howned.wf, fun fd => ?_⟩⟩
    -- whatever is owned is held by a slot, and no slot holds anything
    cases hc : m.world.fds.owner fd with
    | none => rfl
    | some c =>
      obtain ⟨hpos, i, hi'⟩ := howned.slots fd c hc
      have hneg := hfree i
      omega

theorem sound_step {m : Module} (h : Sound m) {e : ModuleEvent} (hg : moduleGuard m e)
    (hs : Settled m e) : Sound (moduleStep m e) := by
  cases e with
  | driver e => exact sound_driver h hg
  | doInitialize registered => exact sound_initialize h registered
  | doFinalize unregister unlink => exact sound_finalize h hs

/-! ## Unloading -/

/-- An unload is safe exactly if it is settled. -/
theorem keeps_iff {m : Module} (h : Sound m) {e : ModuleEvent} (hg : moduleGuard m e) :
    Keeps m e ↔ Settled m e := by
  constructor
  · rintro ⟨hsafe, -⟩ unlink rfl hi ⟨i, hpos⟩
    obtain ⟨hfree, -⟩ := hsafe true unlink rfl
    rcases ptyDoFinalize_cases m.world.drv m.registered true unlink with
      ⟨ret, -, hwhy⟩ | ⟨-, -, -, freed, heq⟩
    · rcases hwhy hi with hopen | hu
      · exact hopen
      · cases hu
    · rw [heq] at hfree
      have hneg := hfree rfl (h.registered.trans hi) rfl i
      omega
  · intro hs
    refine ⟨?_, (sound_step h hg hs).accounted⟩
    rintro unregister unlink rfl
    rcases ptyDoFinalize_cases m.world.drv m.registered unregister unlink with
      ⟨ret, heq, -⟩ | ⟨hi, hclosed, hu, freed, heq⟩
    · rw [heq]
      refine ⟨fun _ ht hf => ?_, fun _ => ⟨rfl, rfl⟩⟩
      exact absurd (ht.symm.trans hf) (by decide)
    · rw [heq]
      subst hu
      exact ⟨fun _ _ _ => hs.free hi hclosed, fun hret => nomatch hret⟩

/-- In every run from program start, no unload drops a connection and every socket is
    accounted for at every moment, exactly if all unloads are settled. -/
theorem unload_iff {es : List ModuleEvent} (hes : moduleSystem.Legal unloaded es) :
    moduleSystem.Always Keeps unloaded es ↔ moduleSystem.Always Settled unloaded es := by
  have hall : moduleSystem.Always (fun _ _ => True) unloaded es :=
    Guarded.always_true unloaded es
  refine Guarded.always_iff ?_ ?_ sound_unloaded hes hall
  · exact fun m e h hg _ => keeps_iff h hg
  · exact fun m e h hg _ hs => sound_step h hg hs

/-- Load, a session during which an unload is refused, unload, and load again. -/
def reloadRun : List ModuleEvent :=
  [.doInitialize true, .driver (.getPty 7), .driver (.firstOpen 0 ⟨0, 0, 4⟩),
    .doFinalize true fun _ => true, .driver (.lastClose 0), .doFinalize true fun _ => true,
    .doInitialize true]

theorem unload_iff_reload : moduleSystem.Always Keeps unloaded reloadRun := by
  have hlegal : moduleSystem.Legal unloaded reloadRun :=
    ⟨trivial, ⟨by decide, rfl⟩, rfl, trivial, rfl, trivial, trivial, trivial⟩
  refine (unload_iff hlegal).mpr ⟨nofun, nofun, nofun, ?_, nofun, ?_, nofun, trivial⟩
  · exact fun _ _ _ _ => ⟨0, rfl⟩
  · exact fun _ _ _ hheld => absurd hheld (by decide)

/-- The driver is unloaded and loaded again while a socket waits for its device to be
    opened: the unload succeeds, and the socket is neither held nor closed then. -/
def dropRun : List ModuleEvent :=
  [.doInitialize true, .driver (.getPty 7), .doFinalize true fun _ => true, .doInitialize true]

theorem unload_drops :
    moduleSystem.Legal unloaded dropRun ∧ ¬moduleSystem.Always Keeps unloaded dropRun := by
  refine ⟨⟨trivial, ⟨by decide, rfl⟩, trivial, trivial, trivial⟩, ?_⟩
  rintro ⟨-, -, -, ⟨-, hlast⟩, -⟩
  rcases hlast 0 (by decide) with ⟨⟨i, hi, -⟩, -⟩ | ⟨hone, -⟩
  · exact absurd hi.1 free_not_held
  · cases hone

end SsrlApps.Telnetd
