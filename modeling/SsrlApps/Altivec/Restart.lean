/-
  Restarting a thread, in both builds.

  Model. `vecKernel all` runs the hooks as the kernel calls them; without
  ALL_THREADS_ALTIVEC it is `vecSystem`. With it, the extension is an initial one: every
  thread gets its context from the create hook, and a creation that finds no memory leaves
  no thread. A thread without a context is older than the extension and executes no vector
  instructions.

  A thread is ready (`Ready`) when it executes and can use the vector registers. What it
  sees when it next does is what the hardware holds then, behind any legal events in which
  it did not use them.

  Proved:
  * `kernelStep_false`: the system without ALL_THREADS_ALTIVEC is the one of the context
    manager.
  * `reinit_view`: what a start or a restart does to the lazy view with
    ALL_THREADS_ALTIVEC.
  * `fresh_step`: a thread whose registers are at their initial values keeps them so, as
    long as it does not write them.
  * `restart_fresh_iff`: a restarted thread sees fresh registers exactly if it does not own
    the unit with others in it, or in the build without ALL_THREADS_ALTIVEC.
-/
import SsrlApps.Altivec.Refine

namespace SsrlApps.Altivec

/-! ## The kernel in both builds -/

def kernelStep (all : Bool) (s : VecState) : VecEvent → VecState
  | .create t p junk =>
    let new := vecThreadCreate all (setTcb s t ⟨.dormant, 0, 0, 0⟩) t p junk
    if new.2 then new.1 else setPhase new.1 t .absent
  | .start t msr gpr1 =>
    setPhase (vecThreadStart all (loadEnvironment s t msr gpr1) t) t .started
  | .restart t msr gpr1 =>
    let s := vecThreadRestart all (loadEnvironment s t msr gpr1) t
    if s.executing = t then { s with msr := (s.tcb t).msr } else s
  | .delete t => setPhase (vecThreadDelete s t) t .absent
  | .switch heir => contextSwitch (vecThreadSwitch s heir) heir
  | .enable r1 p junk => (vecTaskEnable all s r1 p junk).1
  | .write regs => { s with regs := regs }
  | .setMsr msr => { s with msr := msr }
  | .store a w => { s with ram := Function.update s.ram a w }

/-- With ALL_THREADS_ALTIVEC the create hook allocates, and MSR_VE does not tell the threads
    apart. -/
def kernelGuard (all : Bool) (s : VecState) (e : VecEvent) : Prop :=
  vecGuard s e ∧ (all = true → match e with
    | .create _ p _ => CanAllocate s p
    | .write _ => getTcp s s.executing ≠ 0
    | _ => True)

def vecKernel (all : Bool) : Guarded VecState VecEvent := ⟨kernelGuard all, kernelStep all⟩

theorem kernelStep_false (s : VecState) (e : VecEvent) : kernelStep false s e = vecStep s e := by
  cases e <;> rfl

/-- `vec_install_extension` has returned, and no thread has a context. -/
structure Installed (all : Bool) (s : VecState) : Prop where
  ext : ∀ t, getTcp s t = 0
  owner : s.vecOwner = none
  hw : HasVE s.msr ↔ all = true
  ve : all = false → ∀ t, (s.tcb t).phase = .started → t ≠ s.executing → ¬ HasVE (s.tcb t).msr
  live : ∀ p, s.live p = false
  installed : s.vecExtensionId ≠ 0

theorem Installed.booted {s : VecState} (h : Installed false s) : Booted s :=
  ⟨h.ext, h.owner, fun hv => absurd (h.hw.mp hv) Bool.false_ne_true, h.ve rfl, h.live,
    h.installed⟩

/-! ## What a thread sees -/

/-- Thread `t` executes and can use the vector registers. -/
structure Ready (s : VecState) (t : Nat) : Prop where
  executing : s.executing = t
  hw : HasVE s.msr
  ext : getTcp s t ≠ 0

/-- The control registers are as for a new thread. -/
structure Fresh (r : VecRegs) : Prop where
  vscr : r.vscr = vscrInitVal
  vrsave : r.vrsave = vrsaveInitVal

/-- Not a vector instruction of thread `t`. -/
def Abstains (t : Nat) (s : VecState) : VecEvent → Prop
  | .write _ => s.executing ≠ t
  | _ => True

/-- In state `s`, and behind any events in which it abstained, thread `t` sees fresh
    registers as soon as it is ready. -/
def SeesFresh (all : Bool) (t : Nat) (s : VecState) : Prop :=
  ∀ es, (vecKernel all).Legal s es → (vecKernel all).Always (Abstains t) s es →
    Ready ((vecKernel all).exec s es) t → Fresh ((vecKernel all).exec s es).regs

/-! ## The lazy view with ALL_THREADS_ALTIVEC -/

/-- The owner is a started thread with a context, and so is the executing thread, if it has
    one. A thread that does not exist has none. -/
structure AllInv (s : VecState) : Prop where
  buffers : Buffers s
  owner : ∀ t, s.vecOwner = some t → getTcp s t ≠ 0 ∧ (s.tcb t).phase = .started
  exec : getTcp s s.executing ≠ 0 → s.vecOwner = some s.executing
  dead : ∀ t, (s.tcb t).phase = .absent → getTcp s t = 0

theorem allInv_installed {s : VecState} (h : Installed true s) : AllInv s where
  buffers := buffers_empty h.live h.ext
  owner := by
    intro t ht
    rw [h.owner] at ht
    cases ht
  exec := fun ht => absurd (h.ext _) ht
  dead := fun t _ => h.ext t

/-- New contents for the buffer of thread `u`. -/
theorem lazyOf_setBuf {s : VecState} (hb : Buffers s) {u : Nat} (hu : getTcp s u ≠ 0)
    (buf : VecCtxtBuf) : lazyOf (setBuf s (getTcp s u) buf) =
      (lazyOf s).attach u (loadVecContext buf) := by
  have hsaved : (lazyOf (setBuf s (getTcp s u) buf)).saved =
      Function.update (lazyOf s).saved u (some (loadVecContext buf)) := by
    have hbufs : (setBuf s (getTcp s u) buf).bufs = Function.update s.bufs (getTcp s u) buf := rfl
    have hget : ∀ w, getTcp (setBuf s (getTcp s u) buf) w = getTcp s w := fun _ => rfl
    funext w
    by_cases hw : w = u
    · subst hw
      rw [saved_some (by rw [hget]; exact hu), hget, hbufs, Function.update_self,
        Function.update_self]
    · rw [Function.update_of_ne hw]
      by_cases h0 : getTcp s w = 0
      · rw [saved_none h0, saved_none ((hget w).trans h0)]
      · have hne : getTcp s w ≠ getTcp s u := fun he => hw (hb.distinct w u h0 he)
        rw [saved_some h0, saved_some (by rw [hget]; exact h0), hget, hbufs,
          Function.update_of_ne hne]
  unfold lazyOf at hsaved ⊢
  rw [LazyFile.attach, LazyFile.mk.injEq]
  exact ⟨rfl, rfl, hsaved⟩

/-- `init_vec_ctxt` leaves the pointer to the block alone. -/
theorem sameContexts_init (s : VecState) (vc : Word) : SameContexts s (initVecCtxt s vc) := by
  refine ⟨fun _ => rfl, rfl, fun vc' _ => ?_⟩
  refine bptr_setBuf ?_ vc'
  simp [bptrOf, setWord]

/-- A thread whose environment is fixed up gets a saved context with initial values. -/
theorem lazyOf_init {s : VecState} (hb : Buffers s) (u : Nat) :
    lazyOf (initVecCtxt s (getTcp s u)) = lazyOf s ∧ getTcp s u = 0 ∨
      ∃ r, Fresh r ∧ lazyOf (initVecCtxt s (getTcp s u)) = (lazyOf s).attach u r := by
  by_cases hu : getTcp s u = 0
  · refine Or.inl ⟨lazyOf_congr (fun _ => rfl) rfl rfl fun vc hvc => ?_, hu⟩
    rw [hu]
    exact Function.update_of_ne hvc ..
  · refine Or.inr ⟨_, ⟨?_, ?_⟩, lazyOf_setBuf hb hu _⟩
    · simp [loadVecContext, vscrOf, setWord]
    · simp [loadVecContext, vrsaveOf, setWord]

/-- Whatever thread `t` sees, once it is started, is fresh. -/
def Clean (t : Nat) (s : VecState) : Prop :=
  (s.tcb t).phase = .started → ∀ r, (lazyOf s).file t = some r → Fresh r

/-- The invariant goes on, and thread `t` stays clean. -/
structure Onward (t : Nat) (s s' : VecState) : Prop where
  inv : AllInv s'
  clean : Clean t s → Clean t s'

theorem clean_congr {t : Nat} {s s' : VecState} (hphase : (s'.tcb t).phase = (s.tcb t).phase)
    (hfile : (lazyOf s').file t = (lazyOf s).file t) (h : Clean t s) : Clean t s' := by
  intro hst r hr
  rw [hphase] at hst
  rw [hfile] at hr
  exact h hst r hr

/-! ### Starting and restarting -/

/-- The state behind a start or a restart: the context of `u`, if it has one, is
    initialised in memory, and its registers are set. -/
def reinit (s : VecState) (u : Nat) (tcb : Tcb) (ram : Word → Word) (msr : Word) : VecState :=
  { setTcb (initVecCtxt s (getTcp s u)) u tcb with ram := ram, msr := msr }

theorem vecThreadFixupEnv_eq (s : VecState) (u : Nat) (msr gpr1 : Word) :
    vecThreadFixupEnv true (loadEnvironment s u msr gpr1) u =
      reinit s u ⟨(s.tcb u).phase, getTcp s u, setVE msr, gpr1 &&& ~~~(15 : Word)⟩
        (Function.update s.ram (gpr1 &&& ~~~(15 : Word)) 0) s.msr := by
  simp only [vecThreadFixupEnv, reinit, loadEnvironment, initVecCtxt, setBuf, setTcb, getTcp,
    if_true, Function.update_self, Function.update_idem]

/-- The TCB of a thread that has been started, or started again. -/
def initialTcb (s : VecState) (u : Nat) (msr gpr1 : Word) : Tcb :=
  ⟨.started, getTcp s u, setVE msr, gpr1 &&& ~~~(15 : Word)⟩

theorem kernelStep_start (s : VecState) (u : Nat) (msr gpr1 : Word) :
    kernelStep true s (.start u msr gpr1) =
      reinit s u (initialTcb s u msr gpr1)
        (Function.update s.ram (gpr1 &&& ~~~(15 : Word)) 0) s.msr := by
  show setPhase (vecThreadFixupEnv true (loadEnvironment s u msr gpr1) u) u .started = _
  rw [vecThreadFixupEnv_eq]
  simp only [reinit, initialTcb, setPhase, setTcb, Function.update_self, Function.update_idem]

theorem kernelStep_restart (s : VecState) {u : Nat} (hu : (s.tcb u).phase = .started)
    (msr gpr1 : Word) : kernelStep true s (.restart u msr gpr1) =
      reinit s u (initialTcb s u msr gpr1)
        (Function.update s.ram (gpr1 &&& ~~~(15 : Word)) 0)
        (if s.executing = u then setVE msr else s.msr) := by
  show (let s := vecThreadFixupEnv true (loadEnvironment s u msr gpr1) u
    if s.executing = u then { s with msr := (s.tcb u).msr } else s) = _
  rw [vecThreadFixupEnv_eq, hu]
  dsimp only
  unfold initialTcb
  by_cases he : s.executing = u
  · rw [if_pos he, if_pos (show (reinit s u _ _ _).executing = u from he)]
    simp only [reinit, setTcb, Function.update_self]
  · rw [if_neg he, if_neg (show (reinit s u _ _ _).executing ≠ u from he)]

variable {s : VecState} {u : Nat} {tcb : Tcb}

theorem reinit_view (hi : AllInv s) (hext : tcb.ext = getTcp s u) (ram : Word → Word)
    (msr : Word) : lazyOf (reinit s u tcb ram msr) = lazyOf s ∧ getTcp s u = 0 ∨
      ∃ r, Fresh r ∧ lazyOf (reinit s u tcb ram msr) = (lazyOf s).attach u r := by
  have hview : lazyOf (reinit s u tcb ram msr) = lazyOf (initVecCtxt s (getTcp s u)) :=
    lazyOf_congr (getTcp_setTcb _ hext) rfl rfl fun _ _ => rfl
  rw [hview]
  exact lazyOf_init hi.buffers u

theorem reinit_tcb (s : VecState) (u : Nat) (tcb : Tcb) (ram : Word → Word) (msr : Word)
    (t : Nat) : (reinit s u tcb ram msr).tcb t = if t = u then tcb else s.tcb t :=
  Function.update_apply ..

/-- A thread that does not own the unit is clean behind its start or restart. -/
theorem clean_reinit (hi : AllInv s) (hext : tcb.ext = getTcp s u)
    (hown : s.vecOwner ≠ some u) (ram : Word → Word) (msr : Word) :
    Clean u (reinit s u tcb ram msr) := by
  intro _ r hr
  have hown' : (lazyOf s).owner ≠ some u := hown
  rcases reinit_view hi hext ram msr with ⟨hview, h0⟩ | ⟨r', hfresh, hview⟩
  · rw [hview, LazyFile.file_other hown', saved_none h0] at hr
    cases hr
  · rw [hview, LazyFile.file_attach hown', Function.update_self] at hr
    obtain rfl := Option.some.inj hr
    exact hfresh

theorem file_reinit (hi : AllInv s) (hext : tcb.ext = getTcp s u) (ram : Word → Word)
    (msr : Word) {t : Nat} (ht : t ≠ u ∨ s.vecOwner = some u) :
    (lazyOf (reinit s u tcb ram msr)).file t = (lazyOf s).file t := by
  rcases reinit_view hi hext ram msr with ⟨hview, -⟩ | ⟨r', -, hview⟩
  · rw [hview]
  · rw [hview]
    by_cases hown : s.vecOwner = some u
    · rw [LazyFile.file_attach_owner (l := lazyOf s) hown]
    · have hne : t ≠ u := ht.resolve_right hown
      rw [LazyFile.file_attach (l := lazyOf s) hown, Function.update_of_ne hne]

theorem reinit_onward (hi : AllInv s) (hext : tcb.ext = getTcp s u)
    (hphase : tcb.phase = .started) (ram : Word → Word) (msr : Word) (t : Nat) :
    Onward t s (reinit s u tcb ram msr) := by
  have htcb := reinit_tcb s u tcb ram msr
  have hget : ∀ w, getTcp (reinit s u tcb ram msr) w = getTcp s w := getTcp_setTcb _ hext
  have hsame := sameContexts_init s (getTcp s u)
  refine ⟨⟨?_, ?_, ?_, ?_⟩, ?_⟩
  · exact buffers_same ⟨hget, rfl, hsame.bptr⟩ hi.buffers
  · intro w hw
    obtain ⟨hx, hst⟩ := hi.owner w hw
    rw [hget, htcb]
    refine ⟨hx, ?_⟩
    split
    · exact hphase
    · exact hst
  · intro hx
    rw [hget] at hx
    exact hi.exec hx
  · intro w hw
    rw [htcb] at hw
    rw [hget]
    split at hw
    · rw [hphase] at hw
      cases hw
    · exact hi.dead w hw
  · intro hclean
    by_cases ht : t ≠ u ∨ s.vecOwner = some u
    · refine clean_congr ?_ (file_reinit hi hext ram msr ht) hclean
      rw [htcb]
      split
      · next he =>
        rw [he, hphase]
        exact (hi.owner u (ht.resolve_left fun hne => hne he)).2.symm
      · rfl
    · obtain ⟨he, hown⟩ := not_or.mp ht
      rw [not_not.mp he]
      exact clean_reinit hi hext hown ram msr

/-! ### Creating and deleting -/

/-- No memory: there is no thread, and the pointer was stored in a buffer at NULL. -/
def refused (s : VecState) (u : Nat) : VecState :=
  { setTcb s u ⟨.absent, 0, 0, 0⟩ with
    bufs := Function.update s.bufs 0 (setWord (s.bufs 0) 1 0) }

/-- A new thread, whose context is not initialised yet. -/
def created (s : VecState) (u : Nat) (p : Word) (junk : VecCtxtBuf) : VecState :=
  { setTcb s u ⟨.dormant, alignBuf p, 0, 0⟩ with
    live := Function.update s.live p true
    bufs := Function.update s.bufs (alignBuf p) (setWord junk 1 p) }

theorem kernelStep_refused (s : VecState) (u : Nat) (junk : VecCtxtBuf) :
    kernelStep true s (.create u 0 junk) = refused s u := by
  show setPhase (extalloc (setTcb s u ⟨.dormant, 0, 0, 0⟩) 0 junk).1 u .absent = _
  have hnull : alignBuf 0 = 0 := by decide
  simp only [extalloc, workspaceAllocate, refused, setPhase, setTcb, setBuf, hnull, if_true,
    Function.update_self, Function.update_idem]

theorem kernelStep_created (s : VecState) (u : Nat) {p : Word} (hp : Block p)
    (junk : VecCtxtBuf) : kernelStep true s (.create u p junk) = created s u p junk := by
  show (let new := vecThreadCreate true (setTcb s u ⟨.dormant, 0, 0, 0⟩) u p junk
    if new.2 = true then new.1 else setPhase new.1 u .absent) = _
  have hcreate : vecThreadCreate true (setTcb s u ⟨.dormant, 0, 0, 0⟩) u p junk =
      (setTcp (extalloc (setTcb s u ⟨.dormant, 0, 0, 0⟩) p junk).1 u (alignBuf p), true) := by
    unfold vecThreadCreate
    rw [if_pos rfl]
    exact if_neg (alignBuf_ne_zero hp)
  rw [hcreate]
  simp only [extalloc, workspaceAllocate, created, setTcp, setTcb, setBuf, if_neg hp.nonnull,
    if_true, Function.update_self, Function.update_idem]

/-- Creating or deleting `u`, which is dormant or absent then, touches no other thread. -/
structure Touched (s s' : VecState) (u : Nat) : Prop where
  executing : s'.executing = s.executing
  others : ∀ w, w ≠ u → s'.tcb w = s.tcb w
  phase : (s'.tcb u).phase ≠ .started
  dead : (s'.tcb u).phase = .absent → getTcp s' u = 0
  buffers : Buffers s'
  owner : s'.vecOwner = if s.vecOwner = some u then none else s.vecOwner
  file : ∀ w, w ≠ u → (lazyOf s').file w = (lazyOf s).file w
  idle : getTcp s' u ≠ 0 → s.executing ≠ u

theorem touched_onward {s' : VecState} (hi : AllInv s) (ht : Touched s s' u) (t : Nat) :
    Onward t s s' := by
  have hext : ∀ w, w ≠ u → getTcp s' w = getTcp s w :=
    fun w hw => congrArg Tcb.ext (ht.others w hw)
  refine ⟨⟨ht.buffers, ?_, ?_, ?_⟩, ?_⟩
  · intro w hw
    rw [ht.owner] at hw
    split at hw
    · cases hw
    · next hne =>
      have hwu : w ≠ u := by
        rintro rfl
        exact hne hw
      rw [hext w hwu, ht.others w hwu]
      exact hi.owner w hw
  · intro hx
    rw [ht.executing] at hx ⊢
    by_cases he : s.executing = u
    · rw [he] at hx
      exact absurd he (ht.idle hx)
    · rw [hext _ he] at hx
      have hown := hi.exec hx
      rw [ht.owner, hown, if_neg (fun h => he (Option.some.inj h))]
  · intro w hw
    by_cases hwu : w = u
    · subst hwu
      exact ht.dead hw
    · rw [ht.others w hwu] at hw
      rw [hext w hwu]
      exact hi.dead w hw
  · intro hclean
    by_cases htu : t = u
    · subst htu
      exact fun hst => absurd hst ht.phase
    · exact clean_congr (congrArg Tcb.phase (ht.others t htu)) (ht.file t htu) hclean

theorem touched_refused (hi : AllInv s) (hx : getTcp s u = 0) :
    Touched s (refused s u) u := by
  have hown : s.vecOwner ≠ some u := fun he => (hi.owner u he).1 hx
  have hself : (refused s u).tcb u = ⟨.absent, 0, 0, 0⟩ := Function.update_self ..
  have hget : ∀ w, getTcp (refused s u) w = getTcp s w := getTcp_setTcb s hx.symm
  have hbufs : ∀ vc, vc ≠ 0 → (refused s u).bufs vc = s.bufs vc :=
    fun vc hvc => Function.update_of_ne hvc ..
  refine ⟨rfl, fun w hw => Function.update_of_ne hw .., ?_, ?_, ?_, (if_neg hown).symm, ?_, ?_⟩
  · rw [hself]
    decide
  · intro _
    rw [hget, hx]
  · exact buffers_same ⟨hget, rfl, fun vc hvc => congrArg bptrOf (hbufs vc hvc)⟩ hi.buffers
  · intro w _
    rw [lazyOf_congr hget rfl rfl hbufs]
  · intro hne
    rw [hget, hx] at hne
    exact absurd rfl hne

theorem joined_created (s : VecState) (u : Nat) (p : Word) (junk : VecCtxtBuf) :
    Joined s (created s u p junk) u p (setWord junk 1 p) := by
  refine ⟨fun w => ?_, rfl, rfl, rfl, rfl⟩
  by_cases hw : w = u
  · rw [if_pos hw, hw]
    exact getTcp_setTcb_self ..
  · rw [if_neg hw]
    exact getTcp_setTcb_ne s hw _

theorem touched_created {p : Word} (hi : AllInv s) (hx : getTcp s u = 0)
    (hexec : u ≠ s.executing) (hp : Block p) (hnew : ∀ q, s.live q = true → Apart p q)
    (junk : VecCtxtBuf) : Touched s (created s u p junk) u := by
  have hown : s.vecOwner ≠ some u := fun he => (hi.owner u he).1 hx
  have hself : (created s u p junk).tcb u = ⟨.dormant, alignBuf p, 0, 0⟩ :=
    Function.update_self ..
  have hj := joined_created s u p junk
  have hbptr : bptrOf (setWord junk 1 p) = p := by simp [bptrOf, setWord]
  refine ⟨rfl, fun w hw => Function.update_of_ne hw .., ?_, ?_,
    buffers_joined hj hbptr hi.buffers hp hnew, (if_neg hown).symm, ?_, fun _ he => hexec he.symm⟩
  · rw [hself]
    intro h
    cases h
  · intro habsent
    rw [hself] at habsent
    cases habsent
  · intro w hw
    rw [lazyOf_joined hj hi.buffers hp hnew, LazyFile.file_attach (l := lazyOf s) hown,
      Function.update_of_ne hw]

theorem touched_delete (hi : AllInv s) (u : Nat) :
    Touched s (setPhase (vecThreadDelete s u) u .absent) u := by
  have hdel := vecThreadDelete_eq s u
  have hget : ∀ w, getTcp (setPhase (vecThreadDelete s u) u .absent) w =
      getTcp (vecThreadDelete s u) w := getTcp_setTcb _ rfl
  have hself : getTcp (setPhase (vecThreadDelete s u) u .absent) u = 0 := by
    rw [hget, getTcp_delete, if_pos rfl]
  have htcb : (setPhase (vecThreadDelete s u) u .absent).tcb u =
      { (vecThreadDelete s u).tcb u with phase := .absent } := Function.update_self ..
  have hview : lazyOf (setPhase (vecThreadDelete s u) u .absent) = (lazyOf s).detach u := by
    rw [← lazyOf_delete]
    exact lazyOf_congr hget rfl rfl fun _ _ => rfl
  refine ⟨?_, ?_, ?_, fun _ => hself, ?_, congrArg LazyFile.owner hview, ?_,
    fun hne => absurd hself hne⟩
  · show (vecThreadDelete s u).executing = s.executing
    rw [hdel]
    rfl
  · intro w hw
    refine (Function.update_of_ne hw ..).trans ?_
    rw [hdel]
    exact Function.update_of_ne hw ..
  · rw [htcb]
    exact fun h => nomatch h
  · exact buffers_same ⟨hget, rfl, fun _ _ => rfl⟩ (buffers_delete hi.buffers u)
  · intro w hw
    rw [hview, LazyFile.file_detach, Function.update_of_ne hw]

/-! ### The other events -/

theorem switch_onward (hi : AllInv s) {heir : Nat} (hh : (s.tcb heir).phase = .started)
    (t : Nat) : Onward t s (kernelStep true s (.switch heir)) := by
  show Onward t s (vecStep s (.switch heir))
  have hown := fun w hw => (hi.owner w hw).1
  have hget := getTcp_switched s heir
  have hsame := sameContexts_switch s heir
  have hview := lazyOf_switched hi.buffers hown heir
  have hphase : ∀ w, ((vecStep s (.switch heir)).tcb w).phase = (s.tcb w).phase := by
    intro w
    rw [tcb_switched, Function.update_apply]
    split
    · next hw => rw [hw]
    · rfl
  have howner : (vecStep s (.switch heir)).vecOwner = ((lazyOf s).acquire heir).owner :=
    congrArg LazyFile.owner hview
  refine ⟨⟨buffers_same ⟨hget, hsame.live, hsame.bptr⟩ hi.buffers, ?_, ?_, ?_⟩, ?_⟩
  · intro w hw
    rw [howner] at hw
    rw [hget, hphase]
    rcases LazyFile.acquire_owner_cases (lazyOf s) heir with hold | ⟨hnew, hsome⟩
    · rw [hold] at hw
      exact hi.owner w hw
    · rw [hnew, Option.some.injEq] at hw
      rw [← hw]
      exact ⟨saved_isSome.mp hsome, hh⟩
  · intro hx
    rw [hget] at hx
    rw [howner]
    exact LazyFile.acquire_takes (saved_isSome.mpr hx)
  · intro w hw
    rw [hphase] at hw
    rw [hget]
    exact hi.dead w hw
  · refine clean_congr (hphase t) ?_
    rw [hview, LazyFile.file_acquire]

/-- The executing thread writes its own registers. -/
theorem write_onward (hi : AllInv s) (hx : getTcp s s.executing ≠ 0) (regs : VecRegs) {t : Nat}
    (ht : s.executing ≠ t) : Onward t s (kernelStep true s (.write regs)) := by
  have hc : SameContexts s (kernelStep true s (.write regs)) :=
    ⟨fun _ => rfl, rfl, fun _ _ => rfl⟩
  have hfile : (lazyOf (kernelStep true s (.write regs))).file =
      Function.update (lazyOf s).file s.executing (some regs) :=
    LazyFile.file_write (l := lazyOf s) (hi.exec hx) regs
  refine ⟨⟨buffers_same hc hi.buffers, hi.owner, hi.exec, hi.dead⟩, clean_congr rfl ?_⟩
  rw [hfile, Function.update_of_ne ht.symm]

/-- An event that changes neither threads nor contexts. -/
theorem same_onward (hi : AllInv s) (s' : VecState) (hc : SameContexts s s')
    (hview : lazyOf s' = lazyOf s) (htcb : s'.tcb = s.tcb) (hexec : s'.executing = s.executing)
    (t : Nat) : Onward t s s' := by
  have howner : s'.vecOwner = s.vecOwner := congrArg LazyFile.owner hview
  refine ⟨⟨buffers_same hc hi.buffers, ?_, ?_, ?_⟩, ?_⟩
  · intro w hw
    rw [howner] at hw
    rw [hc.ext, htcb]
    exact hi.owner w hw
  · rw [hexec, hc.ext, howner]
    exact hi.exec
  · intro w hw
    rw [htcb] at hw
    rw [hc.ext]
    exact hi.dead w hw
  · exact clean_congr (by rw [htcb]) (by rw [hview])

theorem initialTcb_ext (s : VecState) (u : Nat) (msr gpr1 : Word) :
    (initialTcb s u msr gpr1).ext = getTcp s u := rfl

/-- **One event.** A clean thread stays clean, unless it writes its registers. -/
theorem fresh_step {e : VecEvent} {t : Nat} (hi : AllInv s) (hg : kernelGuard true s e)
    (ha : Abstains t s e) : Onward t s (kernelStep true s e) := by
  cases e with
  | create u p junk =>
    obtain ⟨⟨habsent, hexec⟩, halloc⟩ := hg
    have hx : getTcp s u = 0 := hi.dead u habsent
    rcases halloc rfl with rfl | ⟨hp, hnew⟩
    · rw [kernelStep_refused]
      exact touched_onward hi (touched_refused hi hx) t
    · rw [kernelStep_created s u hp]
      exact touched_onward hi (touched_created hi hx hexec hp hnew junk) t
  | start u msr gpr1 =>
    rw [kernelStep_start]
    exact reinit_onward hi (initialTcb_ext s u msr gpr1) rfl _ _ t
  | restart u msr gpr1 =>
    rw [kernelStep_restart s hg.1]
    exact reinit_onward hi (initialTcb_ext s u msr gpr1) rfl _ _ t
  | delete u => exact touched_onward hi (touched_delete hi u) t
  | switch heir => exact switch_onward hi hg.1 t
  | enable r1 p junk => exact ⟨hi, id⟩
  | write regs => exact write_onward hi (hg.2 rfl) regs ha
  | setMsr msr =>
    exact same_onward hi { s with msr := msr } ⟨fun _ => rfl, rfl, fun _ _ => rfl⟩ rfl rfl rfl t
  | store a w =>
    exact same_onward hi { s with ram := Function.update s.ram a w }
      ⟨fun _ => rfl, rfl, fun _ _ => rfl⟩ rfl rfl rfl t

/-! ## Restarts -/

/-- A run in which a clean thread abstains leaves it clean. -/
theorem clean_run {s : VecState} {es : List VecEvent} {t : Nat} (hi : AllInv s)
    (hc : Clean t s) (hes : (vecKernel true).Legal s es)
    (ha : (vecKernel true).Always (Abstains t) s es) :
    AllInv ((vecKernel true).exec s es) ∧ Clean t ((vecKernel true).exec s es) := by
  refine (Guarded.always_of (I := fun s => AllInv s ∧ Clean t s) (P := fun _ _ => True)
    ?_ ⟨hi, hc⟩ hes ha).2
  intro s e hs hg ha
  have h := fresh_step hs.1 hg ha
  exact ⟨trivial, h.inv, h.clean hs.2⟩

theorem ready_fresh {s : VecState} {t : Nat} (hi : AllInv s) (hc : Clean t s)
    (hr : Ready s t) : Fresh s.regs := by
  obtain ⟨rfl, -, hx⟩ := hr
  have hown := hi.exec hx
  exact hc (hi.owner _ hown).2 _ (LazyFile.file_owner (l := lazyOf s) hown)

/-- A thread that owns the unit when it is restarted sees what it left there. -/
theorem ready_stale {t : Nat} (hx : getTcp s t ≠ 0) (hown : s.vecOwner = some t)
    (hext : tcb.ext = getTcp s t) (hphase : tcb.phase = .started) (hve : HasVE tcb.msr)
    (ram : Word → Word) :
    let s' := reinit s t tcb ram (if s.executing = t then tcb.msr else s.msr)
    ∃ es, (vecKernel true).Legal s' es ∧ (vecKernel true).Always (Abstains t) s' es ∧
      Ready ((vecKernel true).exec s' es) t ∧ ((vecKernel true).exec s' es).regs = s.regs := by
  intro s'
  have hget : getTcp s' t ≠ 0 := by
    have h : getTcp s' t = getTcp s t := getTcp_setTcb (initVecCtxt s (getTcp s t)) hext t
    rw [h]
    exact hx
  have htcb : s'.tcb t = tcb := (reinit_tcb s t tcb ram _ t).trans (if_pos rfl)
  by_cases he : s.executing = t
  · refine ⟨[], trivial, trivial, ⟨he, ?_, hget⟩, rfl⟩
    show HasVE (if s.executing = t then tcb.msr else s.msr)
    rw [if_pos he]
    exact hve
  · have hswitch : kernelStep true s' (.switch t) = contextSwitch s' t := by
      have hstay : vecThreadSwitch s' t = s' := if_neg fun h => h.2 hown
      show contextSwitch (vecThreadSwitch s' t) t = _
      rw [hstay]
    have hstarted : (s'.tcb t).phase = .started := by rw [htcb, hphase]
    refine ⟨[.switch t], ⟨⟨hstarted, fun _ => trivial⟩, trivial⟩, ⟨trivial, trivial⟩, ?_⟩
    show Ready (kernelStep true s' (.switch t)) t ∧ (kernelStep true s' (.switch t)).regs = s.regs
    rw [hswitch]
    have hother : (contextSwitch s' t).tcb t = tcb :=
      (Function.update_of_ne (Ne.symm he) ..).trans htcb
    refine ⟨⟨rfl, ?_, ?_⟩, rfl⟩
    · show HasVE ((contextSwitch s' t).tcb t).msr
      rw [hother]
      exact hve
    · show ((contextSwitch s' t).tcb t).ext ≠ 0
      rw [hother, hext]
      exact hx

/-- With ALL_THREADS_ALTIVEC. -/
theorem seesFresh_all {t : Nat} (hi : AllInv s) {msr gpr1 : Word}
    (hg : kernelGuard true s (.restart t msr gpr1)) :
    SeesFresh true t (kernelStep true s (.restart t msr gpr1)) ↔
      s.vecOwner ≠ some t ∨ Fresh s.regs := by
  rw [kernelStep_restart s hg.1 msr gpr1]
  have hext : (initialTcb s t msr gpr1).ext = getTcp s t := rfl
  have hphase : (initialTcb s t msr gpr1).phase = .started := rfl
  have hmsr : setVE msr = (initialTcb s t msr gpr1).msr := rfl
  rw [hmsr]
  generalize initialTcb s t msr gpr1 = tcb at hext hphase hmsr
  generalize Function.update s.ram (gpr1 &&& ~~~(15 : Word)) 0 = ram
  constructor
  · intro hsees
    by_contra hbad
    obtain ⟨hown, hstale⟩ := not_or.mp hbad
    have hown : s.vecOwner = some t := not_not.mp hown
    have hve : HasVE tcb.msr := hmsr ▸ hasVE_setVE msr
    obtain ⟨es, hes, ha, hready, hregs⟩ :=
      ready_stale (hi.owner t hown).1 hown hext hphase hve ram
    exact hstale (hregs ▸ hsees es hes ha hready)
  · intro hor es hes ha hready
    generalize (if s.executing = t then tcb.msr else s.msr) = hwMsr at hes ha hready
    have hinv := (reinit_onward hi hext hphase ram hwMsr t).inv
    have hclean : Clean t (reinit s t tcb ram hwMsr) := by
      by_cases hown : s.vecOwner = some t
      · intro _ r hr
        rw [file_reinit hi hext _ _ (Or.inr hown), LazyFile.file_owner (l := lazyOf s) hown] at hr
        obtain rfl := Option.some.inj hr
        exact hor.resolve_left fun hne => hne hown
      · exact clean_reinit hi hext hown _ _
    obtain ⟨hi', hc'⟩ := clean_run hinv hclean hes ha
    exact ready_fresh hi' hc' hready

/-! ### Without ALL_THREADS_ALTIVEC -/

/-- In the eager machine a thread gets fresh registers, or writes its own. -/
theorem eagerStep_fresh {a b : Eager} {e : VecEvent} {t : Nat} (hab : EagerStep a e b)
    (ha : Abstains t s e) (hexec : a.executing = s.executing)
    (hfresh : ∀ r, a.regs t = some r → Fresh r) : ∀ r, b.regs t = some r → Fresh r := by
  have hdrop : ∀ u r, Function.update a.regs u none t = some r → Fresh r := by
    intro u r hr
    rw [Function.update_apply] at hr
    split at hr
    · cases hr
    · exact hfresh r hr
  cases e with
  | create u p junk => rw [hab]; exact hdrop u
  | start u msr gpr1 => rw [hab]; exact hdrop u
  | restart u msr gpr1 => rw [hab]; exact hdrop u
  | delete u => rw [hab]; exact hdrop u
  | switch heir => rw [hab]; exact hfresh
  | enable r1 p junk =>
    rcases hab with rfl | ⟨-, -, r', hvscr, hvrsave, rfl⟩
    · exact hfresh
    · intro r hr
      rw [show ({ a with regs := Function.update a.regs a.executing (some r') } : Eager).regs t =
        Function.update a.regs a.executing (some r') t from rfl, Function.update_apply] at hr
      split at hr
      · obtain rfl := Option.some.inj hr
        exact ⟨hvscr, hvrsave⟩
      · exact hfresh r hr
  | write regs =>
    have hne : t ≠ a.executing := fun he => ha (hexec ▸ he.symm)
    rw [hab]
    intro r hr
    rw [show ({ a with regs := Function.update a.regs a.executing (some regs) } : Eager).regs t =
      Function.update a.regs a.executing (some regs) t from rfl, Function.update_of_ne hne] at hr
    exact hfresh r hr
  | setMsr msr => rw [hab]; exact hfresh
  | store x w => rw [hab]; exact hfresh

/-- A restarted thread has dropped its registers. -/
theorem seesFresh_apart {t : Nat} (hi : VecInv s) {msr gpr1 : Word}
    (hg : kernelGuard false s (.restart t msr gpr1)) :
    SeesFresh false t (kernelStep false s (.restart t msr gpr1)) := by
  intro es hes ha hready
  have hrun := (Guarded.always_of (M := vecKernel false) (P := fun _ _ => True)
    (I := fun s => ∃ a, Sim s a ∧ ∀ r, a.regs t = some r → Fresh r) ?_ ?_ hes ha).2
  · obtain ⟨a, hsim, hfresh⟩ := hrun
    generalize (vecKernel false).exec (kernelStep false s (.restart t msr gpr1)) es = s'
      at hready hsim
    obtain ⟨rfl, -, hx⟩ := hready
    refine hfresh _ ?_
    rw [hsim.regs]
    exact LazyFile.file_owner (l := lazyOf s') (hsim.inv.exec hx)
  · rintro s e ⟨a, hsim, hfresh⟩ hg ha
    obtain ⟨b, hab, hsim'⟩ := vecStep_eager s e a hsim hg.1
    refine ⟨trivial, b, ?_, eagerStep_fresh hab ha hsim.executing hfresh⟩
    show Sim (kernelStep false s e) b
    rw [kernelStep_false]
    exact hsim'
  · obtain ⟨b, hab, hsim⟩ := vecStep_eager s (.restart t msr gpr1)
      ⟨s.executing, (lazyOf s).file⟩ ⟨hi, rfl, rfl⟩ hg.1
    refine ⟨b, by rw [kernelStep_false]; exact hsim, fun r hr => ?_⟩
    rw [show b = _ from hab] at hr
    exact absurd ((Function.update_self (β := fun _ => Option VecRegs) ..).symm.trans hr)
      (fun h => nomatch h)

/-! ## The theorem -/

theorem legal_false {s : VecState} {es : List VecEvent} (h : (vecKernel false).Legal s es) :
    vecSystem.Legal s es ∧ (vecKernel false).exec s es = vecSystem.exec s es := by
  induction es generalizing s with
  | nil => exact ⟨trivial, rfl⟩
  | cons e es ih =>
    have htail := ih h.2
    have hstep : (vecKernel false).step s e = vecSystem.step s e := kernelStep_false s e
    rw [hstep] at htail
    refine ⟨⟨h.1.1, htail.1⟩, ?_⟩
    show (vecKernel false).exec ((vecKernel false).step s e) es = _
    rw [hstep]
    exact htail.2

/-- **A restarted thread sees fresh registers**, in the build without ALL_THREADS_ALTIVEC.
    With ALL_THREADS_ALTIVEC it does exactly if it did not own the unit, or left nothing in
    the control registers: the hook initialises the context in memory, which the switch hook
    does not load for the owner. -/
theorem restart_fresh_iff (all : Bool) {s₀ : VecState} (h₀ : Installed all s₀)
    {es : List VecEvent} (hes : (vecKernel all).Legal s₀ es) {t : Nat} {msr gpr1 : Word}
    (hr : (vecKernel all).guard ((vecKernel all).exec s₀ es) (.restart t msr gpr1)) :
    SeesFresh all t ((vecKernel all).step ((vecKernel all).exec s₀ es) (.restart t msr gpr1)) ↔
      all = false ∨ ((vecKernel all).exec s₀ es).vecOwner ≠ some t ∨
        Fresh ((vecKernel all).exec s₀ es).regs := by
  cases all with
  | false =>
    have hi : VecInv ((vecKernel false).exec s₀ es) := by
      obtain ⟨hlegal, hexec⟩ := legal_false hes
      rw [hexec]
      exact vecInv_of_legal h₀.booted hlegal
    exact iff_of_true (seesFresh_apart hi hr) (Or.inl rfl)
  | true =>
    have hi : AllInv ((vecKernel true).exec s₀ es) := by
      refine Guarded.invariant ?_ (allInv_installed h₀) hes
      intro s e hi hg
      -- the thread behind the executing one writes no registers
      have ha : Abstains (s.executing + 1) s e := by
        cases e with
        | write regs => exact Nat.ne_of_lt (Nat.lt_succ_self _)
        | _ => trivial
      exact (fresh_step hi hg ha).inv
    refine (seesFresh_all hi hr).trans ?_
    exact ⟨Or.inr, fun h => h.resolve_left (fun h => nomatch h)⟩

/-- Thread 0 executes, with MSR_VE set. -/
def oneThreadVE : VecState := { oneThread with msr := msrVE }

theorem installed_oneThreadVE : Installed true oneThreadVE where
  ext := oneThread_ext
  owner := rfl
  hw := by decide
  ve := fun h => nomatch h
  live := fun _ => rfl
  installed := by decide

/-- Thread 1 starts, and leaves something in the control registers. -/
def dirtyRun : List VecEvent :=
  [.create 1 0x8000 fun _ _ => 5, .start 1 0 0x1000, .switch 1, .write ⟨fun _ _ => 7, 1, 2⟩]

theorem dirtyRun_legal : (vecKernel true).Legal oneThreadVE dirtyRun := by
  refine ⟨⟨⟨rfl, by decide⟩, fun _ => canAllocate_first rfl⟩, ⟨rfl, fun _ => trivial⟩,
    ⟨rfl, fun _ => trivial⟩, ⟨?_, fun _ => ?_⟩, trivial⟩
  · show HasVE _
    decide +kernel
  · show getTcp _ _ ≠ 0
    decide +kernel

/-- Thread 1, and then thread 2, which executes. -/
def twoRun : List VecEvent :=
  dirtyRun ++ [.create 2 0x9000 fun _ _ => 5, .start 2 0 0x2000, .switch 2]

theorem twoRun_legal : (vecKernel true).Legal oneThreadVE twoRun := by
  refine Guarded.legal_append dirtyRun_legal ⟨⟨⟨rfl, by decide +kernel⟩, fun _ => Or.inr
    ⟨⟨by decide, by decide, by decide⟩, fun q hq => ?_⟩⟩, ⟨rfl, fun _ => trivial⟩,
    ⟨rfl, fun _ => trivial⟩, trivial⟩
  have hlive : ((vecKernel true).exec oneThreadVE dirtyRun).live =
      Function.update (fun _ => false) 0x8000 true := rfl
  rw [hlive, Function.update_apply] at hq
  split at hq
  · next h =>
    rw [h]
    exact Or.inr (by decide)
  · cases hq

theorem restart_fresh_iff_other : SeesFresh true 1
    ((vecKernel true).step ((vecKernel true).exec oneThreadVE twoRun) (.restart 1 0 0x1000)) := by
  have hstarted : (((vecKernel true).exec oneThreadVE twoRun).tcb 1).phase = .started := by
    decide +kernel
  have hother : ((vecKernel true).exec oneThreadVE twoRun).vecOwner ≠ some 1 := by
    decide +kernel
  exact (restart_fresh_iff true installed_oneThreadVE twoRun_legal
    ⟨hstarted, fun _ => trivial⟩).mpr (Or.inr (Or.inl hother))

/-- Thread 1 restarts itself, and sees what it left in VSCR. -/
theorem restart_stale :
    let s := (vecKernel true).exec oneThreadVE (dirtyRun ++ [.restart 1 0 0x1000])
    Ready s 1 ∧ s.regs.vscr = 1 ∧
      ¬ ∀ all s₀ es t msr gpr1, Installed all s₀ → (vecKernel all).Legal s₀ es →
        (vecKernel all).guard ((vecKernel all).exec s₀ es) (.restart t msr gpr1) →
        SeesFresh all t
          ((vecKernel all).step ((vecKernel all).exec s₀ es) (.restart t msr gpr1)) := by
  intro s
  have hready : Ready s 1 := ⟨by decide +kernel, by decide +kernel, by decide +kernel⟩
  have hvscr : s.regs.vscr = 1 := by decide +kernel
  refine ⟨hready, hvscr, fun hclaim => ?_⟩
  have hsees := hclaim true oneThreadVE dirtyRun 1 0 0x1000 installed_oneThreadVE
    dirtyRun_legal ⟨rfl, fun _ => trivial⟩ [] trivial trivial hready
  exact absurd (hvscr.symm.trans hsees.vscr) (by decide)

end SsrlApps.Altivec
