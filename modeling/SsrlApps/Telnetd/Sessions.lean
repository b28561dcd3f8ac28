/-
  When the telnet daemon gets a PTY slot back.

  Model. The running daemon, in either mode. A slot is freed when its last
  handle is closed, which calls `ptyShutdown`. `ReleasesSlot` says, from what the calls
  made for a connection return, whether its handling opens the device and closes it again:
  with `telnetd_dont_spawn` set, a rejected password never opens it, and a session task
  whose `rtems_libio_set_private_env` fails bails out with no stream to close.

  Proved:
  * `serve_released`: the device actions of one connection release the slot exactly when
    `ReleasesSlot` holds.
  * `netStep_inv`, `netInv_of_legal`: the invariant of slots, handles and tasks, for a
    step and for a run.
  * `slot_released_iff`: in every run, a connection whose handling has finished has given
    its slot back, and its socket is closed, exactly when `ReleasesSlot` holds.
  * `slot_lost`: a rejected password in the daemon's own task, and a session task without
    a private environment, lose the slot.
-/
import SsrlApps.Telnetd.Daemon

namespace SsrlApps.Telnetd

/-! ## The device actions of one connection -/

-- literals of the stream numbers
local instance neZeroStreams : NeZero 3 := ⟨by decide⟩

/-- What the calls made for a connection must return for its slot to be given back. -/
def ReleasesSlot (dontSpawn : Bool) (o : Outcome) : Prop :=
  if dontSpawn then (checkPasswd o.auth).rval = 0 ∧ o.shellActs ≠ []
  else if o.spawnOk then
    o.privateEnvOk = true ∧ (o.fopenOk 1 = true → o.fopenOk 2 = true →
      (checkPasswd o.auth).rval = 0 → devDepth 0 o.shellActs = some 0)
  else True

instance (dontSpawn : Bool) (o : Outcome) : Decidable (ReleasesSlot dontSpawn o) := by
  unfold ReleasesSlot; infer_instance

/-- The device actions of the shell, if it is called. -/
def shellDevs (o : Outcome) : List DevAct :=
  if (checkPasswd o.auth).rval = 0 then o.shellActs else []

theorem devs_checkAndRun (o : Outcome) : devs (checkAndRun o) = shellDevs o := by
  have hlines : ∀ ls : List (List UInt8), devs (ls.map .passwdLine) = [] := by
    intro ls
    induction ls with
    | nil => rfl
    | cons l ls ih => exact ih
  unfold checkAndRun shellDevs
  rw [devs_append, hlines, List.nil_append]
  split
  · exact devs_map_dev o.shellActs
  · rfl

theorem devs_spawnedShell {o : Outcome} (henv : o.privateEnvOk = true)
    (hfirst : o.fopenOk 0 = true) : devs (spawnedShell o) =
      if o.fopenOk 1 = true then
        if o.fopenOk 2 = true then
          [.openDev, .openDev, .openDev] ++ (shellDevs o ++ [.closeDev, .closeDev, .closeDev])
        else [.openDev, .openDev, .closeDev, .closeDev]
      else [.openDev, .closeDev] := by
  unfold spawnedShell
  rw [henv, hfirst]
  cases h1 : o.fopenOk 1 with
  | false => rfl
  | true =>
    cases h2 : o.fopenOk 2 with
    | false => rfl
    | true =>
      have hdevs : devs (checkAndRun o ++ .restore :: releaseAConnection [true, true, true] 3) =
          shellDevs o ++ [.closeDev, .closeDev, .closeDev] := by
        rw [devs_append, devs_checkAndRun]
        rfl
      exact congrArg ([DevAct.openDev, .openDev, .openDev] ++ ·) hdevs

theorem shellDevs_depth {dontSpawn : Bool} {o : Outcome} (hok : OutcomeOk dontSpawn o) :
    ∃ d, devDepth 0 (shellDevs o) = some d ∧
      (d = 0 ↔ ((checkPasswd o.auth).rval = 0 → devDepth 0 o.shellActs = some 0)) := by
  obtain ⟨d, hd⟩ := Option.isSome_iff_exists.mp hok.shell
  unfold shellDevs
  split
  · next hr =>
    refine ⟨d, hd, ?_⟩
    rw [hd, Option.some.injEq]
    exact ⟨fun h _ => h, fun h => h hr⟩
  · next hr => exact ⟨0, rfl, fun _ h => absurd h hr, fun _ => rfl⟩

/-- The actions of one connection release its slot exactly when `ReleasesSlot` holds, and
    then leave no handle open. -/
theorem serve_released {dontSpawn : Bool} {o : Outcome} (hok : OutcomeOk dontSpawn o) :
    ((runDevs (0, false) (devs (serve dontSpawn o).2)).2 = true ↔ ReleasesSlot dontSpawn o) ∧
      ((runDevs (0, false) (devs (serve dontSpawn o).2)).2 = true →
        (runDevs (0, false) (devs (serve dontSpawn o).2)).1 = 0) := by
  unfold serve ReleasesSlot
  cases dontSpawn with
  | true =>
    rw [if_pos rfl, if_pos rfl, devs_checkAndRun]
    unfold shellDevs
    split
    · next hr =>
      obtain ⟨hzero, hiff⟩ := runDevs_closed (hok.closed rfl) false
      refine ⟨?_, fun _ => hzero⟩
      rw [hiff]
      simp [hr]
    · next hr => simp [runDevs, hr]
  | false =>
    rw [if_neg Bool.false_ne_true, if_neg Bool.false_ne_true]
    cases hspawn : o.spawnOk with
    | false =>
      simp only [Bool.false_eq_true, ↓reduceIte, hok.dummy]
      decide
    | true =>
      simp only [↓reduceIte]
      cases henv : o.privateEnvOk with
      | false =>
        have hnone : devs (spawnedShell o) = [] := by unfold spawnedShell; rw [henv]; rfl
        rw [hnone]
        simp [runDevs]
      | true =>
        rw [devs_spawnedShell henv hok.first]
        obtain ⟨d, hd, hzero⟩ := shellDevs_depth hok
        cases h1 : o.fopenOk 1 with
        | false => simp [runDevs]
        | true =>
          cases h2 : o.fopenOk 2 with
          | false => simp [runDevs]
          | true =>
            have hrun := runDevs_shell hd 3 (by decide) [.closeDev, .closeDev, .closeDev]
            have hlast : runDevs (0, false) ([.openDev, .openDev, .openDev] ++
                (shellDevs o ++ [.closeDev, .closeDev, .closeDev])) = (d, d == 0) := by
              refine hrun.trans ?_
              have h3 : 3 + d - 1 = d + 2 := by omega
              simp [runDevs, h3]
            simp only [↓reduceIte]
            rw [hlast]
            simp only [beq_iff_eq, true_and, forall_const]
            exact ⟨hzero, fun h => h⟩

/-- The device is never closed more often than it was opened. -/
theorem serve_depth {dontSpawn : Bool} {o : Outcome} (hok : OutcomeOk dontSpawn o) :
    (devDepth 0 (devs (serve dontSpawn o).2)).isSome := by
  obtain ⟨d, hd, -⟩ := shellDevs_depth hok
  unfold serve
  split
  · rw [devs_checkAndRun, hd]; rfl
  · split
    · cases henv : o.privateEnvOk with
      | false => unfold spawnedShell; rw [henv]; rfl
      | true =>
        rw [devs_spawnedShell henv hok.first]
        split
        · split
          · have h3 := devDepth_append hd 3 [.closeDev, .closeDev, .closeDev]
            have : (devDepth (3 + 0)
                (shellDevs o ++ [.closeDev, .closeDev, .closeDev])).isSome := by
              rw [h3, Nat.add_comm]; rfl
            exact this
          · rfl
        · rfl
    · rw [hok.dummy]; rfl

/-- A session task keeps the device open until its last action on it. -/
theorem serve_tight {dontSpawn : Bool} {o : Outcome} (hok : OutcomeOk dontSpawn o)
    (h : (serve dontSpawn o).1 = false) : Tight 0 (devs (serve dontSpawn o).2) := by
  obtain ⟨d, hd, -⟩ := shellDevs_depth hok
  unfold serve at h ⊢
  split at h
  · cases h
  · next hmode =>
    rw [if_neg hmode]
    split at h
    · next hspawn =>
      rw [if_pos hspawn]
      cases henv : o.privateEnvOk with
      | false => unfold spawnedShell; rw [henv]; trivial
      | true =>
        rw [devs_spawnedShell henv hok.first]
        split
        · split
          · refine tight_shell hd 3 (by decide) _ ?_
            refine ⟨fun h0 => ?_, fun h0 => ?_, fun _ => rfl, trivial⟩ <;> omega
          · exact ⟨fun h0 => absurd h0 (by decide), fun _ => rfl, trivial⟩
        · exact ⟨fun _ => rfl, trivial⟩
    · cases h

/-! ## Sockets under one step of the driver -/

theorem still_io {e : DriverEvent} (w : World) (h : IsIo e) : Still w (step w e) := by
  cases e with
  | getPty fd => exact absurd h id
  | firstOpen minor tty => exact absurd h id
  | lastClose minor => exact absurd h id
  | pollRead minor r => exact still_pollRead w minor r
  | pollWrite minor buf count => exact still_pollWrite w minor buf count
  | setAttributes minor cflag => exact still_setAttributes w minor cflag
  | setWinsize minor wp => exact still_setPty w minor _ rfl rfl Or.inl

theorem holds_of_still {w w' : World} (h : Still w w') (i : Fin maxPtys) (c : Nat) :
    Holds w' i c ↔ Holds w i c := by
  unfold Holds
  rw [h.socket, h.fds]

theorem lastClose_socket (w : World) (slot : Fin maxPtys) :
    ((step w (.lastClose slot)).drv.ptys slot).socket = -1 ∧
      ∀ i, i ≠ slot →
        ((step w (.lastClose slot)).drv.ptys i).socket = (w.drv.ptys i).socket := by
  unfold step ptyShutdown
  dsimp only
  rw [dif_pos slot.isLt]
  exact ⟨by rw [setPty_self], fun i hi => by rw [setPty_ne _ hi]⟩

theorem lastClose_fds (w : World) (slot : Fin maxPtys) :
    (step w (.lastClose slot)).fds =
      if 0 ≤ (w.drv.ptys slot).socket then w.fds.close (w.drv.ptys slot).socket else w.fds := by
  unfold step ptyShutdown
  dsimp only
  rw [dif_pos slot.isLt]
  split <;> rfl

theorem lastClose_next (w : World) (slot : Fin maxPtys) :
    (step w (.lastClose slot)).fds.next = w.fds.next := by
  rw [lastClose_fds]
  split
  · exact FdTable.close_next _
  · rfl

/-- The last close takes the socket from its slot and from no other. -/
theorem holds_lastClose {w : World} (ho : Owned w) (slot i : Fin maxPtys) (c : Nat) :
    Holds (step w (.lastClose slot)) i c ↔ Holds w i c ∧ i ≠ slot := by
  obtain ⟨hself, hother⟩ := lastClose_socket w slot
  unfold Holds
  by_cases h : i = slot
  · subst h
    rw [hself]
    exact ⟨fun hi => absurd hi.1 (by decide), fun hi => absurd rfl hi.2⟩
  · rw [hother i h, lastClose_fds]
    have howner : 0 ≤ (w.drv.ptys i).socket →
        (if 0 ≤ (w.drv.ptys slot).socket then w.fds.close (w.drv.ptys slot).socket
          else w.fds).owner (w.drv.ptys i).socket = w.fds.owner (w.drv.ptys i).socket := by
      intro hi
      split
      · exact FdTable.close_owner_ne fun heq => h (ho.distinct i slot hi heq)
      · rfl
    constructor
    · intro ⟨hi, hc⟩
      exact ⟨⟨hi, by rw [← howner hi]; exact hc⟩, h⟩
    · intro ⟨⟨hi, hc⟩, _⟩
      exact ⟨hi, by rw [howner hi]; exact hc⟩

theorem minorOf_ptyName (ndx : Fin maxPtys) : minorOf (ptyName ndx) = some ndx := by
  revert ndx
  decide

/-- Everything an accepted connection can do to the world: it goes into a free slot, or
    its socket is closed at once. -/
theorem connect_cases (dontSpawn : Bool) {net : Net} (ho : Owned net.world) {fd : Int}
    (hfd : 0 ≤ fd) (hfresh : net.world.fds.owner fd = none) (o : Outcome) :
    (∃ w' slot, Owned w' ∧ w'.fds.next = net.world.fds.next + 1 ∧
      (net.world.drv.ptys slot).socket < 0 ∧
      (∀ i c, Holds w' i c ↔
        Holds net.world i c ∨ i = slot ∧ c = net.world.fds.next) ∧
      connect dontSpawn net fd o = setTask { net with world := w' } net.world.fds.next
        { slot, inDaemon := (serve dontSpawn o).1, oc := o, todo := (serve dontSpawn o).2,
          stdin := .inherited, handles := 0, released := false }) ∨
    (∃ w', Owned w' ∧ w'.fds.next = net.world.fds.next + 1 ∧
      (∀ i c, Holds w' i c ↔ Holds net.world i c) ∧
      connect dontSpawn net fd o = { net with world := w' }) := by
  have hnot : ∀ i, 0 ≤ (net.world.drv.ptys i).socket →
      (net.world.drv.ptys i).socket ≠ fd := by
    intro i hi h
    obtain ⟨c, hc⟩ := ho.held i hi
    rw [h, hfresh] at hc
    cases hc
  rcases telnetGetPty_cases net.world.drv fd with ⟨slot, hfree, hget⟩ | ⟨-, hget⟩
  · refine Or.inl ⟨step net.world (.getPty fd), slot, owned_getPty ho hfd hfresh, ?_, hfree,
      ?_, ?_⟩
    · unfold step; dsimp only; rw [hget]; rfl
    · intro i c
      unfold step Holds
      dsimp only
      rw [hget]
      simp only [runSys]
      by_cases h : i = slot
      · subst h
        rw [setPty_self, FdTable.openAs_owner_self, Option.some.injEq]
        constructor
        · intro ⟨_, hc⟩; exact Or.inr ⟨rfl, hc.symm⟩
        · rintro (⟨hi, _⟩ | ⟨_, hc⟩)
          · omega
          · exact ⟨hfd, hc.symm⟩
      · rw [setPty_ne _ h]
        constructor
        · intro ⟨hi, hc⟩
          rw [FdTable.openAs_owner_ne (hnot i hi)] at hc
          exact Or.inl ⟨hi, hc⟩
        · rintro (⟨hi, hc⟩ | ⟨he, _⟩)
          · exact ⟨hi, by rw [FdTable.openAs_owner_ne (hnot i hi)]; exact hc⟩
          · exact absurd he h
    · unfold connect
      rw [hget, ho.names, Option.bind_some, minorOf_ptyName]
  · refine Or.inr ⟨step net.world (.getPty fd), owned_getPty ho hfd hfresh, ?_, ?_, ?_⟩
    · unfold step; dsimp only; rw [hget]; exact FdTable.close_next _
    · intro i c
      unfold step Holds
      dsimp only
      rw [hget]
      simp only [runSys]
      constructor
      · intro ⟨hi, hc⟩
        rw [FdTable.close_owner_ne (hnot i hi), FdTable.openAs_owner_ne (hnot i hi)] at hc
        exact ⟨hi, hc⟩
      · intro ⟨hi, hc⟩
        refine ⟨hi, ?_⟩
        rw [FdTable.close_owner_ne (hnot i hi), FdTable.openAs_owner_ne (hnot i hi)]
        exact hc
    · unfold connect
      rw [hget, Option.bind_none]

/-! ## The invariant -/

/-- The task has released its slot and will not touch the device again. -/
def Retired (t : Task) : Prop := t.released = true ∧ t.handles = 0 ∧ devs t.todo = []

/-- What holds of the task of connection `c` at every moment. -/
structure TaskInv (dontSpawn : Bool) (net : Net) (c : Nat) (t : Task) : Prop where
  bound : c < net.world.fds.next
  ok : OutcomeOk dontSpawn t.oc
  /-- The rest of the task leads where the whole of it leads. -/
  path : runDevs (t.handles, t.released) (devs t.todo) =
    runDevs (0, false) (devs (serve dontSpawn t.oc).2)
  depth : (devDepth t.handles (devs t.todo)).isSome
  holds : t.released = false → Holds net.world t.slot c
  tight : t.inDaemon = false →
    Tight t.handles (devs t.todo) ∧ (t.released = true → Retired t)

structure NetInv (dontSpawn : Bool) (net : Net) : Prop where
  owned : Owned net.world
  task : ∀ c t, net.tasks c = some t → TaskInv dontSpawn net c t
  /-- A slot is handed out again only when its earlier task is through with it. -/
  order : ∀ c c' t t', net.tasks c = some t → net.tasks c' = some t' → t.slot = t'.slot →
    c < c' → Retired t
  refs : ∀ c t, net.tasks c = some t → ¬ Retired t → net.refs t.slot = t.handles
  idle : ∀ i, (∀ c t, net.tasks c = some t → t.slot = i → Retired t) → net.refs i = 0
  holders : ∀ i c, Holds net.world i c →
    ∃ t, net.tasks c = some t ∧ t.slot = i ∧ t.released = false

theorem netInv_boot (dontSpawn : Bool) : NetInv dontSpawn netBoot where
  owned := owned_boot
  task := by intro c t h; cases h
  order := by intro c c' t t' h; cases h
  refs := by intro c t h; cases h
  idle := by intro i _; rfl
  holders := by
    intro i c h
    have hsock : (netBoot.world.drv.ptys i).socket = -1 := boot_socket i
    rw [Holds, hsock] at h
    exact absurd h.1 (by decide)

variable {dontSpawn : Bool} {net net' : Net} {c : Nat} {t t' : Task}

/-- While one task of a slot is not retired, all the others of that slot are. -/
theorem others_retired (hi : NetInv dontSpawn net) (ht : net.tasks c = some t)
    (hactive : ¬ Retired t) {c₁ : Nat} {t₁ : Task} (ht₁ : net.tasks c₁ = some t₁)
    (hslot : t₁.slot = t.slot) (hne : c₁ ≠ c) : Retired t₁ := by
  rcases Nat.lt_or_gt_of_ne hne with hlt | hgt
  · exact hi.order c₁ c t₁ t ht₁ ht hslot hlt
  · exact absurd (hi.order c c₁ t t₁ ht ht₁ hslot.symm hgt) hactive

theorem taskInv_mono (h : TaskInv dontSpawn net c t)
    (hnext : net.world.fds.next ≤ net'.world.fds.next)
    (hholds : t.released = false → Holds net.world t.slot c → Holds net'.world t.slot c) :
    TaskInv dontSpawn net' c t :=
  ⟨Nat.lt_of_lt_of_le h.bound hnext, h.ok, h.path, h.depth, fun hr => hholds hr (h.holds hr),
    h.tight⟩

/-- One task moves from `t` to `t'`, and the world with it. The reference count of the slot
    follows the task, if the task is the active one of its slot. -/
structure Moved (net net' : Net) (c : Nat) (t t' : Task) : Prop where
  before : net.tasks c = some t
  tasks : net'.tasks = Function.update net.tasks c (some t')
  slot : t'.slot = t.slot
  next : net'.world.fds.next = net.world.fds.next
  holds : ∀ i c', Holds net'.world i c' ↔
    Holds net.world i c' ∧ (i = t.slot → t'.released = t.released)
  retired : Retired t → Retired t'
  refs : ∀ i, i ≠ t.slot → net'.refs i = net.refs i
  self : (¬ Retired t ∧ net'.refs t.slot = t'.handles) ∨
    (net'.refs t.slot = net.refs t.slot ∧ t'.handles = t.handles ∧ (Retired t' → Retired t))

theorem Moved.after (hm : Moved net net' c t t') : net'.tasks c = some t' := by
  rw [hm.tasks]
  exact Function.update_self ..

theorem Moved.other (hm : Moved net net' c t t') {c₁ : Nat} (hne : c₁ ≠ c) :
    net'.tasks c₁ = net.tasks c₁ := by
  rw [hm.tasks]
  exact Function.update_of_ne hne ..

/-- A task after the move is the one that moved, or one that was there before. -/
theorem Moved.task_cases (hm : Moved net net' c t t') {c₁ : Nat} {t₁ : Task}
    (ht₁ : net'.tasks c₁ = some t₁) :
    c₁ = c ∧ t₁ = t' ∨ c₁ ≠ c ∧ net.tasks c₁ = some t₁ := by
  rw [hm.tasks] at ht₁
  exact Table.entry_set ht₁

theorem Moved.order (hm : Moved net net' c t t') (hi : NetInv dontSpawn net) {c₁ c₂ : Nat}
    {t₁ t₂ : Task} (ht₁ : net'.tasks c₁ = some t₁) (ht₂ : net'.tasks c₂ = some t₂)
    (hs : t₁.slot = t₂.slot) (hlt : c₁ < c₂) : Retired t₁ := by
  rcases hm.task_cases ht₁ with ⟨rfl, rfl⟩ | ⟨-, hold₁⟩
  · rcases hm.task_cases ht₂ with ⟨rfl, -⟩ | ⟨-, hold₂⟩
    · exact absurd hlt (Nat.lt_irrefl _)
    · exact hm.retired (hi.order _ c₂ t t₂ hm.before hold₂ (hm.slot.symm.trans hs) hlt)
  · rcases hm.task_cases ht₂ with ⟨rfl, rfl⟩ | ⟨-, hold₂⟩
    · exact hi.order c₁ _ t₁ t hold₁ hm.before (hs.trans hm.slot) hlt
    · exact hi.order c₁ c₂ t₁ t₂ hold₁ hold₂ hs hlt

theorem Moved.refs_eq (hm : Moved net net' c t t') (hi : NetInv dontSpawn net) {c₁ : Nat}
    {t₁ : Task} (ht₁ : net'.tasks c₁ = some t₁) (hactive : ¬ Retired t₁) :
    net'.refs t₁.slot = t₁.handles := by
  rcases hm.task_cases ht₁ with ⟨rfl, rfl⟩ | ⟨hne, hold⟩
  · rw [hm.slot]
    rcases hm.self with ⟨-, href⟩ | ⟨href, hh, -⟩
    · exact href
    · rw [href, hh]
      exact hi.refs _ t hm.before fun h => hactive (hm.retired h)
  · by_cases hs : t₁.slot = t.slot
    · rcases hm.self with ⟨hact, -⟩ | ⟨href, -, -⟩
      · exact absurd (others_retired hi hm.before hact hold hs hne) hactive
      · rw [hs, href, ← hs]
        exact hi.refs c₁ t₁ hold hactive
    · rw [hm.refs _ hs]
      exact hi.refs c₁ t₁ hold hactive

theorem Moved.idle (hm : Moved net net' c t t') (hi : NetInv dontSpawn net) {i : Fin maxPtys}
    (hall : ∀ c₁ t₁, net'.tasks c₁ = some t₁ → t₁.slot = i → Retired t₁) :
    net'.refs i = 0 := by
  by_cases hs : i = t.slot
  · subst hs
    have hret' : Retired t' := hall c t' hm.after hm.slot
    rcases hm.self with ⟨-, href⟩ | ⟨href, -, hback⟩
    · rw [href]
      exact hret'.2.1
    · rw [href]
      refine hi.idle _ fun c₁ t₁ ht₁ hs₁ => ?_
      by_cases he : c₁ = c
      · subst he
        rw [hm.before, Option.some.injEq] at ht₁
        exact ht₁ ▸ hback hret'
      · exact hall c₁ t₁ ((hm.other he).trans ht₁) hs₁
  · rw [hm.refs i hs]
    refine hi.idle i fun c₁ t₁ ht₁ hs₁ => ?_
    have he : c₁ ≠ c := by
      rintro rfl
      rw [hm.before, Option.some.injEq] at ht₁
      exact hs (by rw [ht₁, hs₁])
    exact hall c₁ t₁ ((hm.other he).trans ht₁) hs₁

theorem Moved.holders (hm : Moved net net' c t t') (hi : NetInv dontSpawn net)
    {i : Fin maxPtys} {c₁ : Nat} (hh : Holds net'.world i c₁) :
    ∃ t₁, net'.tasks c₁ = some t₁ ∧ t₁.slot = i ∧ t₁.released = false := by
  obtain ⟨hold, hkeep⟩ := (hm.holds i c₁).mp hh
  obtain ⟨t₁, ht₁, hs₁, hr₁⟩ := hi.holders i c₁ hold
  by_cases he : c₁ = c
  · subst he
    rw [hm.before, Option.some.injEq] at ht₁
    subst ht₁
    exact ⟨t', hm.after, hm.slot.trans hs₁, (hkeep hs₁.symm).trans hr₁⟩
  · exact ⟨t₁, (hm.other he).trans ht₁, hs₁, hr₁⟩

/-- What the others know of themselves survives the move. -/
theorem Moved.task_other (hm : Moved net net' c t t') (hi : NetInv dontSpawn net) {c₁ : Nat}
    {t₁ : Task} (hne : c₁ ≠ c) (ht₁ : net.tasks c₁ = some t₁) :
    TaskInv dontSpawn net' c₁ t₁ := by
  refine taskInv_mono (hi.task c₁ t₁ ht₁) (Nat.le_of_eq hm.next.symm) ?_
  intro hr hh
  refine (hm.holds _ _).mpr ⟨hh, fun hs => ?_⟩
  -- an unreleased task is not retired, so the moving one is
  by_cases hactive : Retired t
  · exact (hm.retired hactive).1.trans hactive.1.symm
  · have hrel := (others_retired hi hm.before hactive ht₁ hs hne).1
    rw [hr] at hrel
    cases hrel

/-- One task moves: it is left to check the moving task, and the driver. -/
theorem netInv_move (hi : NetInv dontSpawn net) (hm : Moved net net' c t t')
    (ho : Owned net'.world) (ht' : TaskInv dontSpawn net' c t') : NetInv dontSpawn net' where
  owned := ho
  task := by
    intro c₁ t₁ ht₁
    rcases hm.task_cases ht₁ with ⟨rfl, rfl⟩ | ⟨hne, hold⟩
    · exact ht'
    · exact hm.task_other hi hne hold
  order := by
    intro c₁ c₂ t₁ t₂ ht₁ ht₂ hs hlt
    exact hm.order hi ht₁ ht₂ hs hlt
  refs := by
    intro c₁ t₁ ht₁ hactive
    exact hm.refs_eq hi ht₁ hactive
  idle := by
    intro i hall
    exact hm.idle hi hall
  holders := by
    intro i c₁ hh
    exact hm.holders hi hh

/-! ## One step -/

/-- An action that is not about the device changes nothing that the invariant sees. -/
theorem netInv_quiet (hi : NetInv dontSpawn net) (ht : net.tasks c = some t) {a : Action}
    {rest : List Action} (htodo : t.todo = a :: rest) (ha : a.dev? = none) (stdin : Stream)
    (log : List Entry) :
    NetInv dontSpawn
      { setTask net c { t with todo := rest, stdin := stdin } with log := log } := by
  have hdevs : devs rest = devs t.todo := by
    rw [htodo, devs, devs, List.filterMap_cons, ha]
  have hinv := hi.task c t ht
  have hret : Retired { t with todo := rest, stdin := stdin } ↔ Retired t := by
    unfold Retired
    rw [hdevs]
  refine netInv_move hi ⟨ht, rfl, rfl, rfl, ?_, hret.mpr, fun _ _ => rfl,
    Or.inr ⟨rfl, rfl, hret.mp⟩⟩ hi.owned ?_
  · intro i c'
    exact ⟨fun h => ⟨h, fun _ => rfl⟩, fun h => h.1⟩
  · refine ⟨hinv.bound, hinv.ok, ?_, ?_, hinv.holds, ?_⟩
    · rw [hdevs]; exact hinv.path
    · rw [hdevs]; exact hinv.depth
    · rw [hdevs, hret]; exact hinv.tight

theorem not_retired_of_dev {a : DevAct} {rest : List Action} (h : t.todo = .dev a :: rest) :
    ¬ Retired t := by
  intro hr
  rw [Retired, h] at hr
  cases hr.2.2

theorem netInv_openDev (hi : NetInv dontSpawn net) (ht : net.tasks c = some t)
    {rest : List Action} (htodo : t.todo = .dev .openDev :: rest) :
    NetInv dontSpawn (perform net c t rest (.dev .openDev)) := by
  have hinv := hi.task c t ht
  have hactive : ¬ Retired t := not_retired_of_dev htodo
  have hdevs : devs t.todo = .openDev :: devs rest := by rw [htodo]; rfl
  have hstill : Still net.world (openDevice net t.slot t.oc.tty).world := by
    unfold openDevice
    dsimp only
    split
    · exact still_firstOpen _ _ _
    · exact still_refl _
  have hholds := holds_of_still hstill
  refine netInv_move hi ⟨ht, rfl, rfl, congrArg FdTable.next hstill.fds, ?_,
    fun h => absurd h hactive, ?_, Or.inl ⟨hactive, ?_⟩⟩ (owned_of_still hstill hi.owned) ?_
  · intro i c'
    exact ⟨fun h => ⟨(hholds i c').mp h, fun _ => rfl⟩, fun h => (hholds i c').mpr h.1⟩
  · intro i hne
    exact Function.update_of_ne hne ..
  · have href : (perform net c t rest (.dev .openDev)).refs t.slot = net.refs t.slot + 1 :=
      Function.update_self ..
    rw [href, hi.refs c t ht hactive]
  · refine ⟨?_, hinv.ok, ?_, ?_, fun hr => (hholds _ _).mpr (hinv.holds hr), ?_⟩
    · exact Nat.lt_of_lt_of_eq hinv.bound (congrArg FdTable.next hstill.fds).symm
    · have hpath := hinv.path
      rw [hdevs] at hpath
      exact hpath
    · have hdepth := hinv.depth
      rw [hdevs] at hdepth
      exact hdepth
    · intro hd
      obtain ⟨htight, hret⟩ := hinv.tight hd
      rw [hdevs] at htight
      exact ⟨htight, fun hr => absurd (hret hr) hactive⟩

/-- No socket is in the slot of an active task that has released it. -/
theorem gone_of_released (hi : NetInv dontSpawn net) (ht : net.tasks c = some t)
    (hactive : ¬ Retired t) (hr : t.released = true) (c' : Nat) :
    ¬ Holds net.world t.slot c' := by
  intro hh
  obtain ⟨t₁, ht₁, hs₁, hr₁⟩ := hi.holders _ _ hh
  by_cases he : c' = c
  · subst he
    rw [ht, Option.some.injEq] at ht₁
    rw [← ht₁, hr] at hr₁
    cases hr₁
  · rw [(others_retired hi ht hactive ht₁ hs₁ he).1] at hr₁
    cases hr₁

theorem netInv_closeDev (hi : NetInv dontSpawn net) (ht : net.tasks c = some t)
    {rest : List Action} (htodo : t.todo = .dev .closeDev :: rest) :
    NetInv dontSpawn (perform net c t rest (.dev .closeDev)) := by
  have hinv := hi.task c t ht
  have hactive : ¬ Retired t := not_retired_of_dev htodo
  have hdevs : devs t.todo = .closeDev :: devs rest := by rw [htodo]; rfl
  have hrefs := hi.refs c t ht hactive
  have hworld : (perform net c t rest (.dev .closeDev)).world =
      if t.handles - 1 = 0 then step net.world (.lastClose t.slot) else net.world := by
    rw [← hrefs]
    rfl
  have hself : (perform net c t rest (.dev .closeDev)).refs t.slot = t.handles - 1 := by
    rw [← hrefs]
    exact Function.update_self ..
  have htask : (perform net c t rest (.dev .closeDev)).tasks = Function.update net.tasks c
      (some { t with todo := rest, handles := t.handles - 1,
                     released := t.released || t.handles - 1 == 0 }) := by
    rw [perform, hrefs]
    rfl
  have hnext : (perform net c t rest (.dev .closeDev)).world.fds.next =
      net.world.fds.next := by
    rw [hworld]
    split
    · exact lastClose_next _ _
    · rfl
  have hholds : ∀ i c', Holds (perform net c t rest (.dev .closeDev)).world i c' ↔
      Holds net.world i c' ∧
        (i = t.slot → (t.released || t.handles - 1 == 0) = t.released) := by
    intro i c'
    rw [hworld]
    by_cases hlast : t.handles - 1 = 0
    · rw [if_pos hlast, holds_lastClose hi.owned, beq_iff_eq.mpr hlast, Bool.or_true]
      refine and_congr_right fun hh => ⟨fun hne he => absurd he hne, fun hrel he => ?_⟩
      exact gone_of_released hi ht hactive (hrel he).symm c' (he ▸ hh)
    · rw [if_neg hlast, beq_eq_false_iff_ne.mpr hlast, Bool.or_false]
      exact ⟨fun h => ⟨h, fun _ => rfl⟩, fun h => h.1⟩
  refine netInv_move hi ⟨ht, htask, rfl, hnext, hholds, fun h => absurd h hactive, ?_,
    Or.inl ⟨hactive, hself⟩⟩ ?_ ?_
  · intro i hne
    exact Function.update_of_ne hne ..
  · rw [hworld]
    split
    · exact owned_lastClose hi.owned _
    · exact hi.owned
  · refine ⟨Nat.lt_of_lt_of_eq hinv.bound hnext.symm, hinv.ok, ?_, ?_, ?_, ?_⟩
    · have hpath := hinv.path
      rw [hdevs] at hpath
      exact hpath
    · have hdepth := hinv.depth
      rw [hdevs] at hdepth
      show (devDepth (t.handles - 1) (devs rest)).isSome
      cases hh : t.handles with
      | zero => rw [hh] at hdepth; cases hdepth
      | succ n => rw [hh] at hdepth; exact hdepth
    · intro hr
      have hr' : (t.released || t.handles - 1 == 0) = false := hr
      have hrel : t.released = false := (Bool.or_eq_false_iff.mp hr').1
      exact (hholds _ _).mpr ⟨hinv.holds hrel, fun _ => hr'.trans hrel.symm⟩
    · intro hd
      obtain ⟨htight, hret⟩ := hinv.tight hd
      rw [hdevs] at htight
      refine ⟨htight.2, fun hr => ?_⟩
      have hr' : (t.released || t.handles - 1 == 0) = true := hr
      rcases Bool.or_eq_true_iff.mp hr' with hrel | hlast
      · exact absurd (hret hrel) hactive
      · exact ⟨hr, beq_iff_eq.mp hlast, htight.1 (beq_iff_eq.mp hlast)⟩

theorem netInv_perform (hi : NetInv dontSpawn net) (ht : net.tasks c = some t) {a : Action}
    {rest : List Action} (htodo : t.todo = a :: rest) :
    NetInv dontSpawn (perform net c t rest a) := by
  cases a with
  | dev a =>
    cases a with
    | openDev => exact netInv_openDev hi ht htodo
    | closeDev => exact netInv_closeDev hi ht htodo
  | redirect => exact netInv_quiet hi ht htodo rfl (.device t.slot) net.log
  | restore => exact netInv_quiet hi ht htodo rfl .inherited net.log
  | passwdLine text => exact netInv_quiet hi ht htodo rfl t.stdin _
  | passwdDone rval => exact netInv_quiet hi ht htodo rfl t.stdin _
  | shell => exact netInv_quiet hi ht htodo rfl t.stdin _

/-- A finished task has released its slot exactly when `ReleasesSlot` holds, and has no
    handle left then. -/
theorem finished_released (hinv : TaskInv dontSpawn net c t) (hdone : t.todo = []) :
    (t.released = true ↔ ReleasesSlot dontSpawn t.oc) ∧ (t.released = true → Retired t) := by
  obtain ⟨hiff, hzero⟩ := serve_released hinv.ok
  have hpath := hinv.path
  rw [hdone] at hpath
  have hrun : (t.handles, t.released) = runDevs (0, false) (devs (serve dontSpawn t.oc).2) :=
    hpath
  rw [← hrun] at hiff hzero
  refine ⟨hiff, fun hr => ⟨hr, hzero hr, ?_⟩⟩
  rw [hdone]
  rfl

/-- When the daemon is between two connections, the tasks of a free slot are through. -/
theorem retired_of_free (hi : NetInv dontSpawn net)
    (hidle : ∀ c t, net.tasks c = some t → t.inDaemon = true → t.todo = [])
    {slot : Fin maxPtys} (hfree : (net.world.drv.ptys slot).socket < 0) {c₁ : Nat} {t₁ : Task}
    (ht₁ : net.tasks c₁ = some t₁) (hs₁ : t₁.slot = slot) : Retired t₁ := by
  have hinv := hi.task c₁ t₁ ht₁
  have hrel : t₁.released = true := by
    by_contra hr
    have hh := hinv.holds (Bool.eq_false_iff.mpr hr)
    rw [hs₁] at hh
    exact absurd hh.1 (by omega)
  cases hd : t₁.inDaemon with
  | false => exact (hinv.tight hd).2 hrel
  | true => exact (finished_released hinv (hidle c₁ t₁ ht₁ hd)).2 hrel

/-- A new task joins, with a slot whose earlier tasks are through. -/
theorem netInv_join (hi : NetInv dontSpawn net) {w' : World} {tnew : Task} (ho : Owned w')
    (hnext : w'.fds.next = net.world.fds.next + 1)
    (hholds : ∀ i c, Holds w' i c ↔
      Holds net.world i c ∨ i = tnew.slot ∧ c = net.world.fds.next)
    (hearlier : ∀ c₁ t₁, net.tasks c₁ = some t₁ → t₁.slot = tnew.slot → Retired t₁)
    (hhandles : tnew.handles = 0) (hreleased : tnew.released = false)
    (hinv : TaskInv dontSpawn (setTask { net with world := w' } net.world.fds.next tnew)
      net.world.fds.next tnew) :
    NetInv dontSpawn (setTask { net with world := w' } net.world.fds.next tnew) := by
  have hne : ∀ {c₁ t₁}, net.tasks c₁ = some t₁ → c₁ ≠ net.world.fds.next :=
    fun ht₁ => Nat.ne_of_lt (hi.task _ _ ht₁).bound
  refine ⟨ho, ?_, ?_, ?_, ?_, ?_⟩
  · intro c₁ t₁ ht₁
    rcases Table.entry_set ht₁ with ⟨rfl, rfl⟩ | ⟨-, hold⟩
    · exact hinv
    · refine taskInv_mono (hi.task c₁ t₁ hold) ?_ fun _ hh => (hholds _ _).mpr (Or.inl hh)
      exact Nat.le_of_lt (Nat.lt_of_lt_of_eq (Nat.lt_succ_self _) hnext.symm)
  · intro c₁ c₂ t₁ t₂ ht₁ ht₂ hs hlt
    rcases Table.entry_set ht₁ with ⟨rfl, rfl⟩ | ⟨-, hold₁⟩
    · rcases Table.entry_set ht₂ with ⟨rfl, -⟩ | ⟨-, hold₂⟩
      · omega
      · have hbound := (hi.task c₂ t₂ hold₂).bound
        omega
    · rcases Table.entry_set ht₂ with ⟨-, rfl⟩ | ⟨-, hold₂⟩
      · exact hearlier c₁ t₁ hold₁ hs
      · exact hi.order c₁ c₂ t₁ t₂ hold₁ hold₂ hs hlt
  · intro c₁ t₁ ht₁ hactive
    rcases Table.entry_set ht₁ with ⟨-, rfl⟩ | ⟨-, hold⟩
    · exact (hi.idle _ hearlier).trans hhandles.symm
    · exact hi.refs c₁ t₁ hold hactive
  · intro i hall
    refine hi.idle i fun c₁ t₁ ht₁ hs₁ => hall c₁ t₁ ?_ hs₁
    exact (Function.update_of_ne (hne ht₁) ..).trans ht₁
  · intro i c₁ hh
    rcases (hholds i c₁).mp hh with hold | ⟨rfl, rfl⟩
    · obtain ⟨t₁, ht₁, hs₁, hr₁⟩ := hi.holders i c₁ hold
      exact ⟨t₁, (Function.update_of_ne (hne ht₁) ..).trans ht₁, hs₁, hr₁⟩
    · exact ⟨tnew, Function.update_self .., rfl, hreleased⟩

theorem netInv_connect (hi : NetInv dontSpawn net) {fd : Int} {o : Outcome}
    (hg : netGuard dontSpawn net (.connect fd o)) :
    NetInv dontSpawn (connect dontSpawn net fd o) := by
  obtain ⟨hfd, hfresh, hok, hidle⟩ := hg
  rcases connect_cases dontSpawn hi.owned hfd hfresh o with
    ⟨w', slot, ho, hnext, hfree, hholds, hnet⟩ | ⟨w', ho, hnext, hholds, hnet⟩
  · rw [hnet]
    refine netInv_join hi ho hnext hholds ?_ rfl rfl ?_
    · intro c₁ t₁ ht₁ hs₁
      exact retired_of_free hi hidle hfree ht₁ hs₁
    · refine ⟨?_, hok, rfl, serve_depth hok, fun _ => (hholds _ _).mpr (Or.inr ⟨rfl, rfl⟩),
        fun hd => ⟨serve_tight hok hd, fun hr => by cases hr⟩⟩
      exact Nat.lt_of_lt_of_eq (Nat.lt_succ_self _) hnext.symm
  · rw [hnet]
    refine ⟨ho, ?_, hi.order, hi.refs, hi.idle, ?_⟩
    · intro c₁ t₁ ht₁
      refine taskInv_mono (hi.task c₁ t₁ ht₁) ?_ fun _ hh => (hholds _ _).mpr hh
      exact Nat.le_of_lt (Nat.lt_of_lt_of_eq (Nat.lt_succ_self _) hnext.symm)
    · intro i c₁ hh
      exact hi.holders i c₁ ((hholds i c₁).mp hh)

theorem netInv_io (hi : NetInv dontSpawn net) {e : DriverEvent} (he : IsIo e) :
    NetInv dontSpawn { net with world := step net.world e } := by
  have hstill := still_io net.world he
  have hholds := holds_of_still hstill
  refine ⟨owned_of_still hstill hi.owned, ?_, hi.order, hi.refs, hi.idle, ?_⟩
  · intro c₁ t₁ ht₁
    refine taskInv_mono (hi.task c₁ t₁ ht₁) ?_ fun _ hh => (hholds _ _).mpr hh
    exact Nat.le_of_eq (congrArg FdTable.next hstill.fds).symm
  · intro i c₁ hh
    exact hi.holders i c₁ ((hholds i c₁).mp hh)

theorem netStep_inv (net : Net) (e : NetEvent) (hi : NetInv dontSpawn net)
    (hg : netGuard dontSpawn net e) : NetInv dontSpawn (netStep dontSpawn net e) := by
  cases e with
  | connect fd o => exact netInv_connect hi hg
  | act c =>
    rcases act_cases dontSpawn net c with hnet | ⟨t, a, rest, ht, htodo, hnet⟩
    · rw [hnet]; exact hi
    · rw [hnet]; exact netInv_perform hi ht htodo
  | io e => exact netInv_io hi hg

theorem netInv_of_legal {es : List NetEvent} (h : (daemon dontSpawn).Legal netBoot es) :
    NetInv dontSpawn ((daemon dontSpawn).exec netBoot es) :=
  Guarded.invariant netStep_inv (netInv_boot dontSpawn) h

/-! ## Slots given back -/

/-- The socket of connection `c` was closed, and the slot it had is free or serves a
    later connection. -/
def Freed (net : Net) (slot : Fin maxPtys) (c : Nat) : Prop :=
  net.world.fds.closes c = 1 ∧
    ((net.world.drv.ptys slot).socket < 0 ∨ ∃ c', c < c' ∧ Holds net.world slot c')

theorem freed_iff_released (hi : NetInv dontSpawn net) (ht : net.tasks c = some t) :
    Freed net t.slot c ↔ t.released = true := by
  have hinv := hi.task c t ht
  constructor
  · intro ⟨hclosed, _⟩
    by_contra hr
    have hh := hinv.holds (Bool.eq_false_iff.mpr hr)
    have hzero := (hi.owned.wf.live _ c hh.2).2
    omega
  · intro hr
    -- whoever holds the socket has not released it
    have hnone : ∀ i, ¬ Holds net.world i c := by
      intro i hh
      obtain ⟨t₁, ht₁, -, hr₁⟩ := hi.holders i c hh
      rw [ht, Option.some.injEq] at ht₁
      rw [← ht₁, hr] at hr₁
      cases hr₁
    refine ⟨?_, ?_⟩
    · rcases accounted hi.owned hinv.bound with ⟨⟨i, hh, -⟩, -⟩ | ⟨hclosed, -⟩
      · exact absurd hh (hnone i)
      · exact hclosed
    · by_cases hsock : (net.world.drv.ptys t.slot).socket < 0
      · exact Or.inl hsock
      · obtain ⟨c', hc'⟩ := hi.owned.held t.slot (by omega)
        have hh : Holds net.world t.slot c' := ⟨by omega, hc'⟩
        obtain ⟨t', ht', hs', hr'⟩ := hi.holders _ _ hh
        refine Or.inr ⟨c', ?_, hh⟩
        have hne : c' ≠ c := fun he => hnone t.slot (he ▸ hh)
        rcases Nat.lt_or_gt_of_ne hne with hlt | hgt
        · have hret := hi.order c' c t' t ht' ht hs' hlt
          rw [hret.1] at hr'
          cases hr'
        · exact hgt

/-- **When the daemon gets a slot back.** In every state of every run of the daemon:

    * a connection whose handling has finished has had its socket closed, and its slot is
      free or serves a later connection, exactly if `ReleasesSlot` holds of it;
    * when the handling of every connection has finished, all the slots are free exactly
      if `ReleasesSlot` holds of every one. -/
theorem slot_released_iff (dontSpawn : Bool) (es : List NetEvent)
    (h : (daemon dontSpawn).Legal netBoot es) :
    let net := (daemon dontSpawn).exec netBoot es
    (∀ c t, net.tasks c = some t → t.todo = [] →
      (Freed net t.slot c ↔ ReleasesSlot dontSpawn t.oc)) ∧
    ((∀ c t, net.tasks c = some t → t.todo = []) →
      ((∀ i, (net.world.drv.ptys i).socket < 0) ↔
        ∀ c t, net.tasks c = some t → ReleasesSlot dontSpawn t.oc)) := by
  intro net
  have hi : NetInv dontSpawn net := netInv_of_legal h
  have hdone : ∀ c t, net.tasks c = some t → t.todo = [] →
      (t.released = true ↔ ReleasesSlot dontSpawn t.oc) :=
    fun c t ht htodo => (finished_released (hi.task c t ht) htodo).1
  refine ⟨?_, fun hall => ⟨?_, ?_⟩⟩
  · intro c t ht htodo
    exact (freed_iff_released hi ht).trans (hdone c t ht htodo)
  · intro hfree c t ht
    rw [← hdone c t ht (hall c t ht)]
    by_contra hr
    have hh := (hi.task c t ht).holds (Bool.eq_false_iff.mpr hr)
    have := hfree t.slot
    have := hh.1
    omega
  · intro hrel i
    by_contra hsock
    obtain ⟨c, hc⟩ := hi.owned.held i (by omega)
    obtain ⟨t, ht, -, hr⟩ := hi.holders i c ⟨by omega, hc⟩
    have := (hdone c t ht (hall c t ht)).mpr (hrel c t ht)
    rw [hr] at this
    cases this

/-- Three wrong passwords. The terminal works, every open and every spawn succeeds. -/
def threeWrong : Outcome where
  spawnOk := true
  dummyOk := true
  privateEnvOk := true
  fopenOk := fun _ => true
  auth := ⟨none, some ⟨true, true, 0, 1⟩, true,
    [some [97, 10], some [98, 10], some [99, 10]], fun key _ => key⟩
  shellActs := []
  tty := ⟨0, 0, 4⟩

theorem threeWrong_ok (dontSpawn : Bool) : OutcomeOk dontSpawn threeWrong :=
  ⟨rfl, rfl, rfl, fun _ => rfl⟩

theorem legal_acts (dontSpawn : Bool) (net : Net) (cs : List Nat) :
    (daemon dontSpawn).Legal net (cs.map .act) := by
  induction cs generalizing net with
  | nil => trivial
  | cons c cs ih => exact ⟨trivial, ih _⟩

theorem legal_first (dontSpawn : Bool) {o : Outcome} (hok : OutcomeOk dontSpawn o)
    (cs : List Nat) : (daemon dontSpawn).Legal netBoot (.connect 7 o :: cs.map .act) :=
  ⟨⟨by decide, rfl, hok, fun c t ht => by cases ht⟩, legal_acts dontSpawn _ cs⟩

/-- The first connection performs its first `n` actions. -/
def firstRun (o : Outcome) (n : Nat) : List NetEvent :=
  .connect 7 o :: (List.replicate n 0).map .act

/-- A session task gives its slot back after three wrong passwords. -/
theorem slot_released_iff_threeWrong :
    ∃ t, ((daemon false).exec netBoot (firstRun threeWrong 12)).tasks 0 = some t ∧
      Freed ((daemon false).exec netBoot (firstRun threeWrong 12)) t.slot 0 := by
  have h := slot_released_iff false (firstRun threeWrong 12)
    (legal_first false (threeWrong_ok false) _)
  refine ⟨_, rfl, (h.1 0 _ rfl rfl).mpr ?_⟩
  decide

/-- Three wrong passwords in the daemon's own task, and a session task that gets no
    private environment: all is done, and the slot is still taken. -/
theorem slot_lost :
    ((daemon true).Legal netBoot (firstRun threeWrong 4) ∧
      ∃ t, ((daemon true).exec netBoot (firstRun threeWrong 4)).tasks 0 = some t ∧
        t.todo = [] ∧
        ¬ Freed ((daemon true).exec netBoot (firstRun threeWrong 4)) t.slot 0) ∧
    ((daemon false).Legal netBoot (firstRun { threeWrong with privateEnvOk := false } 0) ∧
      ∃ t, ((daemon false).exec netBoot
          (firstRun { threeWrong with privateEnvOk := false } 0)).tasks 0 = some t ∧
        t.todo = [] ∧
        ¬ Freed ((daemon false).exec netBoot
          (firstRun { threeWrong with privateEnvOk := false } 0)) t.slot 0) := by
  refine ⟨⟨legal_first true (threeWrong_ok true) _, _, rfl, rfl, ?_⟩,
    ⟨legal_first false ⟨rfl, rfl, rfl, fun _ => rfl⟩ _, _, rfl, rfl, ?_⟩⟩
  · intro hf
    exact absurd hf.1 (by decide)
  · intro hf
    exact absurd hf.1 (by decide)

end SsrlApps.Telnetd
