/-
  The lazy context scheme refines the eager one.

  Model. In the eager machine every enabled thread has vector registers of its own; a
  switch moves no registers, a restart or the end of a thread drops its own, and enabling
  gives it some with VSCR and VRSAVE at their initial values.

  Proved:
  * `vecInv_detached`, `vecInv_switch`, `vecInv_enabled`: the invariant of owner, contexts
    and MSR_VE, for the kinds of events.
  * `vecStep_eager`: every event is matched by the eager machine.
  * `lazy_refines_eager`: in every run, whenever a thread with a context executes, the
    hardware holds what it left there in the eager machine, with the facts about
    `vec_owner`, MSR_VE and the buffers.
-/
import SsrlApps.Altivec.Hooks

namespace SsrlApps.Altivec

/-! ## The eager machine -/

/-- Every enabled thread has its own vector registers. -/
structure Eager where
  executing : Nat
  regs : Nat → Option VecRegs

/-- One event in the eager machine. -/
def EagerStep (a : Eager) (e : VecEvent) (b : Eager) : Prop :=
  match e with
  | .create t _ _ | .start t _ _ | .restart t _ _ | .delete t =>
    b = { a with regs := Function.update a.regs t none }
  | .switch heir => b = { a with executing := heir }
  | .enable _ p _ =>
    b = a ∨ p ≠ 0 ∧ a.regs a.executing = none ∧ ∃ r : VecRegs,
      r.vscr = vscrInitVal ∧ r.vrsave = vrsaveInitVal ∧
      b = { a with regs := Function.update a.regs a.executing (some r) }
  | .write r => b = { a with regs := Function.update a.regs a.executing (some r) }
  | .setMsr _ | .store _ _ => b = a

/-! ## The invariant -/

structure VecInv (s : VecState) : Prop where
  buffers : Buffers s
  owner : ∀ t, s.vecOwner = some t → getTcp s t ≠ 0
  exec : getTcp s s.executing ≠ 0 → s.vecOwner = some s.executing
  /-- The hardware MSR is that of the executing thread. -/
  hw : HasVE s.msr ↔ getTcp s s.executing ≠ 0
  ve : ∀ t, (s.tcb t).phase = .started → t ≠ s.executing →
    (HasVE (s.tcb t).msr ↔ getTcp s t ≠ 0)
  dead : ∀ t, (s.tcb t).phase ≠ .started → getTcp s t = 0
  installed : s.vecExtensionId ≠ 0

/-- The extension is installed and no thread has a context. -/
structure Booted (s : VecState) : Prop where
  ext : ∀ t, getTcp s t = 0
  owner : s.vecOwner = none
  hw : ¬ HasVE s.msr
  ve : ∀ t, (s.tcb t).phase = .started → t ≠ s.executing → ¬ HasVE (s.tcb t).msr
  live : ∀ p, s.live p = false
  installed : s.vecExtensionId ≠ 0

theorem vecInv_boot {s : VecState} (h : Booted s) : VecInv s where
  buffers := buffers_empty h.live h.ext
  owner := by
    intro t ht
    rw [h.owner] at ht
    cases ht
  exec := fun ht => absurd (h.ext _) ht
  hw := ⟨fun hv => absurd hv h.hw, fun ht => absurd (h.ext _) ht⟩
  ve := fun t ht hne => ⟨fun hv => absurd hv (h.ve t ht hne), fun hx => absurd (h.ext t) hx⟩
  dead := fun t _ => h.ext t
  installed := h.installed

/-! ## One event -/

/-- Thread `t` has no context any more, and nothing else changed for the others. -/
structure Detached (s s' : VecState) (t : Nat) : Prop where
  view : lazyOf s' = (lazyOf s).detach t
  buffers : Buffers s'
  executing : s'.executing = s.executing
  others : ∀ u, u ≠ t → s'.tcb u = s.tcb u
  ext : getTcp s' t = 0
  saved : (s'.tcb t).phase = .started → ¬ HasVE (s'.tcb t).msr
  hwSelf : s.executing = t → ¬ HasVE s'.msr
  hwOther : s.executing ≠ t → s'.msr = s.msr
  id : s'.vecExtensionId = s.vecExtensionId

theorem vecInv_detached {s s' : VecState} {t : Nat} (hi : VecInv s) (hd : Detached s s' t) :
    VecInv s' := by
  have howner : s'.vecOwner = if s.vecOwner = some t then none else s.vecOwner :=
    congrArg LazyFile.owner hd.view
  have hext : ∀ u, u ≠ t → getTcp s' u = getTcp s u :=
    fun u hu => congrArg Tcb.ext (hd.others u hu)
  refine ⟨hd.buffers, ?_, ?_, ?_, ?_, ?_, by rw [hd.id]; exact hi.installed⟩
  · intro u hu
    rw [howner] at hu
    split at hu
    · cases hu
    · next hne =>
      have hut : u ≠ t := by
        rintro rfl
        exact hne hu
      rw [hext u hut]
      exact hi.owner u hu
  · intro hx
    rw [hd.executing] at hx ⊢
    have hne : s.executing ≠ t := by
      rintro he
      rw [he] at hx
      exact hx hd.ext
    rw [hext _ hne] at hx
    have hown := hi.exec hx
    rw [howner, hown, if_neg (fun he => hne (Option.some.inj he))]
  · rw [hd.executing]
    by_cases he : s.executing = t
    · rw [he]
      exact ⟨fun hv => absurd hv (hd.hwSelf he), fun hx => absurd hd.ext hx⟩
    · rw [hd.hwOther he, hext _ he]
      exact hi.hw
  · intro u hu hne
    rw [hd.executing] at hne
    by_cases he : u = t
    · subst he
      exact ⟨fun hv => absurd hv (hd.saved hu), fun hx => absurd hd.ext hx⟩
    · rw [hd.others u he] at hu ⊢
      rw [hext u he]
      exact hi.ve u hu hne
  · intro u hu
    by_cases he : u = t
    · rw [he]
      exact hd.ext
    · rw [hd.others u he] at hu
      rw [hext u he]
      exact hi.dead u hu

/-- A thread without a context has nothing to drop. -/
theorem detach_absent {s : VecState} (hi : VecInv s) {t : Nat} (h : getTcp s t = 0) :
    (lazyOf s).detach t = lazyOf s := by
  have hown : (lazyOf s).owner ≠ some t := fun he => hi.owner t he h
  unfold LazyFile.detach
  rw [if_neg hown, ← saved_none h, Function.update_eq_self]

/-- Changing registers and phase of a thread without a context. -/
theorem detached_setTcb {s : VecState} (hi : VecInv s) {t : Nat} (h : getTcp s t = 0)
    {tcb : Tcb} (hext : tcb.ext = 0) (hve : tcb.phase = .started → ¬ HasVE tcb.msr)
    (ram : Word → Word) : Detached s { setTcb s t tcb with ram := ram } t := by
  have hget : ∀ u, getTcp { setTcb s t tcb with ram := ram } u = getTcp s u :=
    getTcp_setTcb s (hext.trans h.symm)
  have hself : ({ setTcb s t tcb with ram := ram } : VecState).tcb t = tcb :=
    Function.update_self ..
  refine ⟨?_, ?_, rfl, ?_, ?_, ?_, ?_, fun _ => rfl, rfl⟩
  · rw [detach_absent hi h]
    exact lazyOf_congr hget rfl rfl fun _ _ => rfl
  · exact buffers_same ⟨hget, rfl, fun _ _ => rfl⟩ hi.buffers
  · intro u hu
    exact Function.update_of_ne hu ..
  · rw [hget]
    exact h
  · rw [hself]
    exact hve
  · intro he hv
    exact hi.hw.mp hv (by rw [he]; exact h)

theorem detached_create {s : VecState} (hi : VecInv s) {t : Nat} {p : Word}
    {junk : VecCtxtBuf} (hg : vecGuard s (.create t p junk)) :
    Detached s (vecStep s (.create t p junk)) t := by
  have hext : getTcp s t = 0 := hi.dead t (by rw [hg.1]; decide)
  exact detached_setTcb hi hext rfl (fun h => by cases h) s.ram

theorem detached_start {s : VecState} (hi : VecInv s) {t : Nat} {msr gpr1 : Word}
    (hg : vecGuard s (.start t msr gpr1)) :
    Detached s (vecStep s (.start t msr gpr1)) t := by
  have hphase : (s.tcb t).phase = .dormant := hg
  have hext : getTcp s t = 0 := hi.dead t (by rw [hphase]; decide)
  have hstep : vecStep s (.start t msr gpr1) =
      { setTcb s t ⟨.started, (s.tcb t).ext, clrVE msr, gpr1 &&& ~~~(15 : Word)⟩ with
        ram := Function.update s.ram (gpr1 &&& ~~~(15 : Word)) 0 } := by
    simp [vecStep, vecThreadStart, vecThreadFixupEnv, loadEnvironment, setPhase, setTcb]
  rw [hstep]
  refine detached_setTcb hi hext ?_ ?_ _
  · exact hext
  · exact fun _ => not_hasVE_clrVE msr

/-- The delete hook, with the thread's registers and phase changed before and after. -/
theorem detached_delete {s : VecState} (hi : VecInv s) (t : Nat) (before : Tcb)
    (hbefore : before.ext = getTcp s t) (after : Tcb) (hext : after.ext = 0)
    (hve : after.phase = .started → ¬ HasVE after.msr) (ram : Word → Word) (msr : Word)
    (hmsr : msr = (vecThreadDelete (setTcb s t before) t).msr ∨ s.executing = t ∧ ¬ HasVE msr) :
    Detached s { setTcb (vecThreadDelete (setTcb s t before) t) t after with
      ram := ram, msr := msr } t := by
  have hget : ∀ u, getTcp (setTcb s t before) u = getTcp s u := getTcp_setTcb s hbefore
  have hb : Buffers (setTcb s t before) := buffers_same ⟨hget, rfl, fun _ _ => rfl⟩ hi.buffers
  have hview : lazyOf (setTcb s t before) = lazyOf s :=
    lazyOf_congr hget rfl rfl fun _ _ => rfl
  have hdel := vecThreadDelete_eq (setTcb s t before) t
  have hget' : ∀ u, getTcp (setTcb (vecThreadDelete (setTcb s t before) t) t after) u =
      getTcp (vecThreadDelete (setTcb s t before) t) u := by
    refine getTcp_setTcb _ ?_
    rw [hext, getTcp_delete, if_pos rfl]
  have hexec : (vecThreadDelete (setTcb s t before) t).executing = s.executing := by
    rw [hdel]
    rfl
  refine ⟨?_, ?_, hexec, ?_, ?_, ?_, ?_, ?_, by rw [hdel]; rfl⟩
  · rw [← hview, ← lazyOf_delete]
    exact lazyOf_congr hget' rfl rfl fun _ _ => rfl
  · exact buffers_same ⟨hget', rfl, fun _ _ => rfl⟩ (buffers_delete hb t)
  · intro u hu
    have h1 : (setTcb (vecThreadDelete (setTcb s t before) t) t after).tcb u =
        (vecThreadDelete (setTcb s t before) t).tcb u := Function.update_of_ne hu ..
    have h2 : (vecThreadDelete (setTcb s t before) t).tcb u = (setTcb s t before).tcb u := by
      rw [hdel]
      exact Function.update_of_ne hu ..
    have h3 : (setTcb s t before).tcb u = s.tcb u := Function.update_of_ne hu ..
    exact h1.trans (h2.trans h3)
  · refine (hget' t).trans ?_
    rw [getTcp_delete, if_pos rfl]
  · have hself : (setTcb (vecThreadDelete (setTcb s t before) t) t after).tcb t = after :=
      Function.update_self ..
    show ((setTcb (vecThreadDelete (setTcb s t before) t) t after).tcb t).phase = .started →
      ¬ HasVE ((setTcb (vecThreadDelete (setTcb s t before) t) t after).tcb t).msr
    rw [hself]
    exact hve
  · intro he
    show ¬ HasVE msr
    rcases hmsr with hm | ⟨-, hm⟩
    · rw [hm, hdel]
      dsimp only
      by_cases hown : s.vecOwner = some t
      · rw [if_pos ⟨hown, he⟩]
        exact not_hasVE_clrVE _
      · rw [if_neg (fun h => hown h.1)]
        intro hv
        -- a thread that executes with vectors enabled is the owner
        have hown' := hi.exec (hi.hw.mp hv)
        rw [he] at hown'
        exact hown hown'
    · exact hm
  · intro he
    show msr = s.msr
    rcases hmsr with hm | ⟨he', -⟩
    · rw [hm, hdel]
      dsimp only
      rw [if_neg (fun h => he h.2)]
      rfl
    · exact absurd he' he

theorem detached_restart {s : VecState} (hi : VecInv s) (t : Nat) (msr gpr1 : Word) :
    Detached s (vecStep s (.restart t msr gpr1)) t := by
  generalize hs₂ : vecThreadDelete (loadEnvironment s t msr gpr1) t = s₂
  have hget : getTcp s₂ t = 0 := by
    rw [← hs₂, getTcp_delete, if_pos rfl]
  generalize hafter : ({ s₂.tcb t with
    msr := clrVE (s₂.tcb t).msr
    gpr1 := (s₂.tcb t).gpr1 &&& ~~~(15 : Word) } : Tcb) = after
  have hve : ¬ HasVE after.msr := by
    rw [← hafter]
    exact not_hasVE_clrVE _
  have hext : after.ext = 0 := by
    rw [← hafter]
    exact hget
  have hexec : s₂.executing = s.executing := by
    rw [← hs₂, vecThreadDelete_eq]
    rfl
  have hstep : vecStep s (.restart t msr gpr1) = { setTcb s₂ t after with
      ram := Function.update s₂.ram ((s₂.tcb t).gpr1 &&& ~~~(15 : Word)) 0
      msr := if s.executing = t then after.msr else s₂.msr } := by
    subst hafter
    unfold vecStep vecThreadRestart vecThreadFixupEnv
    dsimp only
    rw [if_neg Bool.false_ne_true, hs₂]
    simp only [Bool.false_eq_true, if_false]
    by_cases he : s.executing = t
    · rw [if_pos he]
      refine (if_pos (hexec.trans he)).trans ?_
      simp only [setTcb, Function.update_self]
    · rw [if_neg he]
      exact if_neg (fun h => he (hexec.symm.trans h))
  rw [hstep, ← hs₂]
  refine detached_delete hi t { s.tcb t with msr := msr, gpr1 := gpr1 } rfl after hext
    (fun _ => hve) _ _ ?_
  by_cases he : s.executing = t
  · rw [if_pos he]
    exact Or.inr ⟨he, hve⟩
  · rw [if_neg he]
    exact Or.inl rfl

theorem detached_deleted {s : VecState} (hi : VecInv s) (t : Nat) :
    Detached s (vecStep s (.delete t)) t := by
  have hsame : setTcb s t (s.tcb t) = s :=
    congrArg (fun tcb => { s with tcb := tcb }) (Function.update_eq_self t s.tcb)
  have hget : getTcp (vecThreadDelete s t) t = 0 := by rw [getTcp_delete, if_pos rfl]
  have hd := detached_delete hi t (s.tcb t) rfl
    { (vecThreadDelete (setTcb s t (s.tcb t)) t).tcb t with phase := .absent }
    (by rw [hsame]; exact hget) (fun h => by cases h) (vecThreadDelete s t).ram
    (vecThreadDelete s t).msr (Or.inl (by rw [hsame]))
  rw [hsame] at hd
  exact hd

/-- The TCBs behind a switch: the MSR of the thread that stops has been saved. -/
theorem tcb_switched (s : VecState) (heir : Nat) : (vecStep s (.switch heir)).tcb =
    Function.update s.tcb s.executing { s.tcb s.executing with msr := s.msr } := by
  have hf := vecThreadSwitch_frame s heir
  show Function.update (vecThreadSwitch s heir).tcb (vecThreadSwitch s heir).executing
    { (vecThreadSwitch s heir).tcb (vecThreadSwitch s heir).executing with
      msr := (vecThreadSwitch s heir).msr } = _
  rw [hf.tcb, hf.executing, hf.msr]

theorem getTcp_switched (s : VecState) (heir u : Nat) :
    getTcp (vecStep s (.switch heir)) u = getTcp s u := by
  unfold getTcp
  rw [tcb_switched]
  by_cases hu : u = s.executing
  · rw [hu, Function.update_self]
  · rw [Function.update_of_ne hu]

theorem lazyOf_switched {s : VecState} (hb : Buffers s)
    (howner : ∀ t, s.vecOwner = some t → getTcp s t ≠ 0) (heir : Nat) :
    lazyOf (vecStep s (.switch heir)) = (lazyOf s).acquire heir := by
  have hext : ∀ u, getTcp (vecStep s (.switch heir)) u = getTcp (vecThreadSwitch s heir) u :=
    getTcp_setTcb _ rfl
  have hview : lazyOf (vecStep s (.switch heir)) = lazyOf (vecThreadSwitch s heir) :=
    lazyOf_congr hext rfl rfl fun _ _ => rfl
  rw [hview, lazyOf_switch hb howner]

theorem vecInv_switch {s : VecState} (hi : VecInv s) {heir : Nat}
    (hg : vecGuard s (.switch heir)) : VecInv (vecStep s (.switch heir)) := by
  have hsame := sameContexts_switch s heir
  have hext := getTcp_switched s heir
  have hother : ∀ u, u ≠ s.executing → (vecStep s (.switch heir)).tcb u = s.tcb u := by
    intro u hu
    rw [tcb_switched]
    exact Function.update_of_ne hu ..
  have hself : (vecStep s (.switch heir)).tcb s.executing =
      { s.tcb s.executing with msr := s.msr } := by
    rw [tcb_switched]
    exact Function.update_self ..
  have hphase : ∀ u, ((vecStep s (.switch heir)).tcb u).phase = (s.tcb u).phase := by
    intro u
    by_cases hu : u = s.executing
    · rw [hu, hself]
    · rw [hother u hu]
  have hve : ∀ u, (s.tcb u).phase = .started →
      (HasVE ((vecStep s (.switch heir)).tcb u).msr ↔ getTcp s u ≠ 0) := by
    intro u hu
    by_cases he : u = s.executing
    · rw [he, hself]
      exact hi.hw
    · rw [hother u he]
      exact hi.ve u hu he
  have howner : (vecStep s (.switch heir)).vecOwner = ((lazyOf s).acquire heir).owner :=
    congrArg LazyFile.owner (lazyOf_switched hi.buffers hi.owner heir)
  refine ⟨?_, ?_, ?_, ?_, ?_, ?_, ?_⟩
  · exact buffers_same ⟨hext, hsame.live, hsame.bptr⟩ hi.buffers
  · intro u hu
    rw [howner] at hu
    rw [hext]
    rcases LazyFile.acquire_owner_cases (lazyOf s) heir with hold | ⟨hnew, hsome⟩
    · rw [hold] at hu
      exact hi.owner u hu
    · rw [hnew, Option.some.injEq] at hu
      rw [← hu]
      exact saved_isSome.mp hsome
  · intro hx
    have hx' : getTcp s heir ≠ 0 := by
      rw [← hext]
      exact hx
    rw [howner]
    exact LazyFile.acquire_takes (saved_isSome.mpr hx')
  · have hmsr : (vecStep s (.switch heir)).msr = ((vecStep s (.switch heir)).tcb heir).msr := rfl
    rw [hmsr, hext]
    exact hve heir hg
  · intro u hu _
    rw [hphase] at hu
    rw [hext]
    exact hve u hu
  · intro u hu
    rw [hphase] at hu
    rw [hext]
    exact hi.dead u hu
  · show (vecThreadSwitch s heir).vecExtensionId ≠ 0
    rw [(vecThreadSwitch_frame s heir).id]
    exact hi.installed

theorem vecInv_enabled {s : VecState} (hi : VecInv s) {p : Word} (hp : Block p)
    (hnew : ∀ q, s.live q = true → Apart p q) (junk : VecCtxtBuf)
    (hphase : (s.tcb s.executing).phase = .started) : VecInv (enabled s p junk) := by
  have hf := enabled_frame s hp.nonnull junk
  have hget := getTcp_enabled s hp.nonnull junk
  have hown := owner_enabled hi.buffers hi.owner hp hnew junk
  have hself : getTcp (enabled s p junk) s.executing ≠ 0 := by
    rw [hget, if_pos rfl]
    exact alignBuf_ne_zero hp
  refine ⟨buffers_enabled hi.buffers hp hnew junk, ?_, ?_, ?_, ?_, ?_, ?_⟩
  · intro u hu
    rw [hown, Option.some.injEq] at hu
    rw [← hu]
    exact hself
  · intro _
    rw [hown, hf.executing]
  · rw [hf.executing]
    exact ⟨fun _ => hself, fun _ => hasVE_setVE _⟩
  · intro u hu hne
    rw [hf.executing] at hne
    rw [hf.phase] at hu
    rw [hf.saved, hget, if_neg hne]
    exact hi.ve u hu hne
  · intro u hu
    rw [hf.phase] at hu
    have hne : u ≠ s.executing := by
      rintro rfl
      exact hu hphase
    rw [hget, if_neg hne]
    exact hi.dead u hu
  · rw [hf.id]
    exact hi.installed

/-- In the eager view, the executing thread gets registers at their initial values. -/
theorem file_enabled {s : VecState} (hi : VecInv s) {p : Word} (hp : Block p)
    (hnew : ∀ q, s.live q = true → Apart p q) (junk : VecCtxtBuf) (hve : ¬ HasVE s.msr) :
    (lazyOf s).file s.executing = none ∧ (lazyOf (enabled s p junk)).file =
      Function.update (lazyOf s).file s.executing
        (some (loadVecContext (initBuf p junk))) := by
  have hnone : getTcp s s.executing = 0 := by
    by_contra hx
    exact hve (hi.hw.mpr hx)
  have hnot : (lazyOf s).owner ≠ some s.executing := fun he => hi.owner _ he hnone
  refine ⟨(LazyFile.file_other hnot).trans (saved_none hnone), ?_⟩
  rw [lazyOf_enabled hi.buffers hi.owner hp hnew, LazyFile.file_acquire, LazyFile.file_attach hnot]

/-! ## The simulation -/

/-- The eager machine has the same thread executing, with the registers of the lazy view. -/
structure Sim (s : VecState) (a : Eager) : Prop where
  inv : VecInv s
  executing : a.executing = s.executing
  regs : a.regs = (lazyOf s).file

theorem sim_detached {s s' : VecState} {a : Eager} {t : Nat} (hs : Sim s a)
    (hd : Detached s s' t) : Sim s' { a with regs := Function.update a.regs t none } := by
  refine ⟨vecInv_detached hs.inv hd, hs.executing.trans hd.executing.symm, ?_⟩
  rw [hd.view, LazyFile.file_detach, ← hs.regs]

/-- An event that changes neither contexts nor MSR_VE. -/
theorem sim_same {s s' : VecState} {a : Eager} (hs : Sim s a) (hc : SameContexts s s')
    (hview : lazyOf s' = lazyOf s) (hexec : s'.executing = s.executing) (htcb : s'.tcb = s.tcb)
    (hmsr : HasVE s'.msr ↔ HasVE s.msr) (hid : s'.vecExtensionId = s.vecExtensionId) :
    Sim s' a := by
  have hi := hs.inv
  have howner : s'.vecOwner = s.vecOwner := congrArg LazyFile.owner hview
  refine ⟨⟨buffers_same hc hi.buffers, ?_, ?_, ?_, ?_, ?_, by rw [hid]; exact hi.installed⟩,
    hs.executing.trans hexec.symm, by rw [hview]; exact hs.regs⟩
  · intro u hu
    rw [howner] at hu
    rw [hc.ext]
    exact hi.owner u hu
  · rw [hexec, hc.ext, howner]
    exact hi.exec
  · rw [hexec, hc.ext, hmsr]
    exact hi.hw
  · intro u hu hne
    rw [htcb] at hu ⊢
    rw [hexec] at hne
    rw [hc.ext]
    exact hi.ve u hu hne
  · intro u hu
    rw [htcb] at hu
    rw [hc.ext]
    exact hi.dead u hu

theorem sim_enable {s : VecState} {a : Eager} (hs : Sim s a) {r1 p : Word}
    {junk : VecCtxtBuf} (hg : vecGuard s (.enable r1 p junk)) :
    ∃ b, EagerStep a (.enable r1 p junk) b ∧ Sim (vecStep s (.enable r1 p junk)) b := by
  obtain ⟨hphase, halloc, -⟩ := hg
  rcases vecTaskEnable_cases s r1 p junk with hret | ⟨hnull, hret⟩ | ⟨hnew, hve, hret⟩
  · refine ⟨a, Or.inl rfl, ?_⟩
    show Sim (vecTaskEnable false s r1 p junk).1 a
    rw [hret]
    exact hs
  · refine ⟨a, Or.inl rfl, ?_⟩
    show Sim (vecTaskEnable false s r1 p junk).1 a
    have hp : p = 0 := by
      rcases halloc with h | h
      · exact h
      · exact absurd hnull (alignBuf_ne_zero h.1)
    rw [hret]
    obtain ⟨hc, hview⟩ := sameContexts_null (s := s) hp junk
    subst hp
    exact sim_same hs hc hview rfl rfl Iff.rfl rfl
  · have hp : Block p ∧ ∀ q, s.live q = true → Apart p q := by
      rcases halloc with rfl | h
      · exact absurd (by decide) hnew
      · exact h
    obtain ⟨hfree, hfile⟩ := file_enabled hs.inv hp.1 hp.2 junk hve
    refine ⟨_, Or.inr ⟨hp.1.nonnull, ?_, loadVecContext (initBuf p junk), vscr_initBuf p junk,
      vrsave_initBuf p junk, rfl⟩, ?_⟩
    · rw [hs.regs, hs.executing]
      exact hfree
    · show Sim (vecTaskEnable false s r1 p junk).1 _
      rw [hret]
      refine ⟨vecInv_enabled hs.inv hp.1 hp.2 junk hphase, ?_, ?_⟩
      · rw [(enabled_frame s hp.1.nonnull junk).executing]
        exact hs.executing
      · rw [hfile, ← hs.regs, hs.executing]

/-- Every event of the manager is matched by the eager machine. -/
theorem vecStep_eager (s : VecState) (e : VecEvent) (a : Eager) (hs : Sim s a)
    (hg : vecGuard s e) : ∃ b, EagerStep a e b ∧ Sim (vecStep s e) b := by
  cases e with
  | create t p junk => exact ⟨_, rfl, sim_detached hs (detached_create hs.inv hg)⟩
  | start t msr gpr1 => exact ⟨_, rfl, sim_detached hs (detached_start hs.inv hg)⟩
  | restart t msr gpr1 => exact ⟨_, rfl, sim_detached hs (detached_restart hs.inv t msr gpr1)⟩
  | delete t => exact ⟨_, rfl, sim_detached hs (detached_deleted hs.inv t)⟩
  | switch heir =>
    refine ⟨_, rfl, vecInv_switch hs.inv hg, rfl, ?_⟩
    rw [lazyOf_switched hs.inv.buffers hs.inv.owner, LazyFile.file_acquire]
    exact hs.regs
  | enable r1 p junk => exact sim_enable hs hg
  | write regs =>
    have hown : (lazyOf s).owner = some s.executing := hs.inv.exec (hs.inv.hw.mp hg)
    have hc : SameContexts s (vecStep s (.write regs)) := ⟨fun _ => rfl, rfl, fun _ _ => rfl⟩
    refine ⟨_, rfl, ⟨?_, hs.inv.owner, hs.inv.exec, hs.inv.hw, hs.inv.ve, hs.inv.dead,
      hs.inv.installed⟩, hs.executing, ?_⟩
    · exact buffers_same hc hs.inv.buffers
    · rw [hs.executing, hs.regs, ← LazyFile.file_write hown]
      rfl
  | setMsr msr =>
    exact ⟨a, rfl, sim_same hs ⟨fun _ => rfl, rfl, fun _ _ => rfl⟩ rfl rfl rfl hg rfl⟩
  | store x w =>
    exact ⟨a, rfl, sim_same hs ⟨fun _ => rfl, rfl, fun _ _ => rfl⟩ rfl rfl rfl Iff.rfl rfl⟩

theorem sim_boot {s : VecState} (h : Booted s) : Sim s ⟨s.executing, fun _ => none⟩ := by
  refine ⟨vecInv_boot h, rfl, ?_⟩
  funext t
  have hnot : (lazyOf s).owner ≠ some t := by
    intro he
    rw [show (lazyOf s).owner = none from h.owner] at he
    cases he
  rw [LazyFile.file_other hnot, saved_none (h.ext t)]

theorem vecStep_inv (s : VecState) (e : VecEvent) (hi : VecInv s) (hg : vecGuard s e) :
    VecInv (vecStep s e) := by
  obtain ⟨_, -, hs⟩ := vecStep_eager s e ⟨s.executing, (lazyOf s).file⟩ ⟨hi, rfl, rfl⟩ hg
  exact hs.inv

theorem vecInv_of_legal {s₀ : VecState} (h₀ : Booted s₀) {es : List VecEvent}
    (h : vecSystem.Legal s₀ es) : VecInv (vecSystem.exec s₀ es) :=
  Guarded.invariant vecStep_inv (vecInv_boot h₀) h

/-- The MSR of a thread: in the hardware, while it executes. -/
def threadMsr (s : VecState) (t : Nat) : Word :=
  if t = s.executing then s.msr else (s.tcb t).msr

theorem threadMsr_iff {s : VecState} (hi : VecInv s) {t : Nat}
    (ht : (s.tcb t).phase = .started) : HasVE (threadMsr s t) ↔ getTcp s t ≠ 0 := by
  unfold threadMsr
  split
  · next h =>
    rw [h]
    exact hi.hw
  · next h => exact hi.ve t ht h

/-- The buffers of two contexts do not overlap. -/
theorem buffers_apart {s : VecState} (hb : Buffers s) {t u : Nat} (htu : t ≠ u)
    (ht : getTcp s t ≠ 0) (hu : getTcp s u ≠ 0) :
    (getTcp s t).toNat + bufSize ≤ (getTcp s u).toNat ∨
      (getTcp s u).toNat + bufSize ≤ (getTcp s t).toNat := by
  obtain ⟨hlt, hat⟩ := hb.held t ht
  obtain ⟨hlu, hau⟩ := hb.held u hu
  have hne : bptrOf (s.bufs (getTcp s t)) ≠ bptrOf (s.bufs (getTcp s u)) := by
    intro he
    rw [he, hau] at hat
    exact htu (hb.distinct t u ht hat.symm)
  have hapart := hb.apart _ _ hlt hlu hne
  have h1 := align_block (hb.block _ hlt)
  have h2 := align_block (hb.block _ hlu)
  rw [hat] at h1
  rw [hau] at h2
  unfold Apart at hapart
  omega

/-- **The lazy scheme refines the eager one.** In every state of every run, there is a run
    of the eager machine over the same events such that the hardware holds the registers
    of the executing thread, if it has a context, and the buffers those of all the other
    threads with a context. Moreover:

    * `vec_owner` is 0 or a thread with a context, and the executing thread is the owner
      if it has one;
    * a started thread has a context exactly if its MSR has vectors enabled;
    * the buffer of a context lies in a block that was allocated and not freed, which its
      pointer word names, and overlaps no other. -/
theorem lazy_refines_eager {s₀ : VecState} (h₀ : Booted s₀) (es : List VecEvent)
    (h : vecSystem.Legal s₀ es) :
    let s := vecSystem.exec s₀ es
    (∃ a, Guarded.Steps EagerStep ⟨s₀.executing, fun _ => none⟩ es a ∧
      a.executing = s.executing ∧ (∀ t, (a.regs t).isSome ↔ getTcp s t ≠ 0) ∧
      (getTcp s s.executing ≠ 0 → a.regs s.executing = some s.regs) ∧
      (∀ t, getTcp s t ≠ 0 → s.vecOwner ≠ some t →
        a.regs t = some (loadVecContext (s.bufs (getTcp s t))))) ∧
    (∀ t, s.vecOwner = some t → getTcp s t ≠ 0) ∧
    (getTcp s s.executing ≠ 0 → s.vecOwner = some s.executing) ∧
    (∀ t, (s.tcb t).phase = .started → (getTcp s t ≠ 0 ↔ HasVE (threadMsr s t))) ∧
    (∀ t, getTcp s t ≠ 0 → ∃ p, bptrOf (s.bufs (getTcp s t)) = p ∧ s.live p = true ∧
      p.toNat ≤ (getTcp s t).toNat ∧
      (getTcp s t).toNat + bufSize ≤ p.toNat + blockSize) ∧
    (∀ t u, t ≠ u → getTcp s t ≠ 0 → getTcp s u ≠ 0 →
      (getTcp s t).toNat + bufSize ≤ (getTcp s u).toNat ∨
        (getTcp s u).toNat + bufSize ≤ (getTcp s t).toNat) := by
  intro s
  obtain ⟨a, hsteps, hs⟩ := Guarded.simulation vecStep_eager (sim_boot h₀) h
  have hi : VecInv s := hs.inv
  refine ⟨⟨a, hsteps, hs.executing, ?_, ?_, ?_⟩, hi.owner, hi.exec,
    fun t ht => (threadMsr_iff hi ht).symm, ?_, ?_⟩
  · intro t
    have hw : (lazyOf s).Wf := fun u hu => saved_isSome.mpr (hi.owner u hu)
    rw [hs.regs, LazyFile.isSome_file hw]
    exact saved_isSome
  · intro hx
    rw [hs.regs]
    exact LazyFile.file_owner (l := lazyOf s) (hi.exec hx)
  · intro t ht hown
    rw [hs.regs, LazyFile.file_other (l := lazyOf s) hown]
    exact saved_some ht
  · intro t ht
    obtain ⟨hlive, halign⟩ := hi.buffers.held t ht
    have hblock := align_block (hi.buffers.block _ hlive)
    rw [halign] at hblock
    exact ⟨_, rfl, hlive, hblock.1, hblock.2.1⟩
  · intro t u htu ht hu
    exact buffers_apart hi.buffers htu ht hu

/-- Thread 0 executes, no other thread exists. -/
def oneThread : VecState where
  msr := 0
  regs := ⟨fun _ _ => 0, 0, 0⟩
  executing := 0
  tcb t := if t = 0 then ⟨.started, 0, 0, 0⟩ else ⟨.absent, 0, 0, 0⟩
  vecOwner := none
  vecExtensionId := 1
  registered := true
  bufs _ _ _ := 0
  live _ := false
  ram _ := 0

theorem oneThread_ext (t : Nat) : getTcp oneThread t = 0 := by
  unfold getTcp oneThread
  dsimp only
  split <;> rfl

theorem booted_oneThread : Booted oneThread where
  ext := oneThread_ext
  owner := rfl
  hw := by decide
  ve := by
    intro t _ hne
    have hmsr : (oneThread.tcb t).msr = 0 := congrArg Tcb.msr (if_neg hne)
    rw [hmsr]
    decide
  live := fun _ => rfl
  installed := by decide

/-- A block that a first allocation can return. -/
theorem canAllocate_first {s : VecState} (hlive : s.live = fun _ => false) :
    CanAllocate s 0x8000 := by
  refine Or.inr ⟨⟨by decide, by decide, by decide⟩, fun q hq => ?_⟩
  rw [hlive] at hq
  cases hq

/-- A block that a second allocation can return. -/
theorem canAllocate_second {s : VecState}
    (hlive : s.live = Function.update (fun _ => false) 0x8000 true) : CanAllocate s 0x9000 := by
  refine Or.inr ⟨⟨by decide, by decide, by decide⟩, fun q hq => ?_⟩
  rw [hlive] at hq
  by_cases h : q = 0x8000
  · subst h
    unfold Apart
    decide
  · rw [Function.update_of_ne h] at hq
    cases hq

/-- Threads 1 and 2 are enabled and write their registers, one behind the other; then thread 1
    runs again. -/
def awayRun : List VecEvent :=
  [.create 1 0 fun _ _ => 5, .start 1 0 0x1000, .create 2 0 fun _ _ => 5, .start 2 0 0x2000,
    .switch 1, .enable 0x1000 0x8000 fun _ _ => 5, .write ⟨fun _ _ => 7, 1, 2⟩,
    .switch 2, .enable 0x2000 0x9000 fun _ _ => 5, .write ⟨fun _ _ => 9, 3, 4⟩, .switch 1]

theorem awayRun_legal : vecSystem.Legal oneThread awayRun := by
  have started : ∀ (s : VecState) (t : Nat), (s.tcb t).phase = .started →
      vecSystem.guard s (.switch t) := fun _ _ h => h
  have ve : ∀ (s : VecState) (r : VecRegs), HasVE s.msr → vecSystem.guard s (.write r) :=
    fun _ _ h => h
  refine ⟨⟨rfl, by decide⟩, rfl, ⟨rfl, by decide⟩, rfl, started _ _ rfl,
    ⟨rfl, canAllocate_first rfl, ?_⟩, ve _ _ ?_, started _ _ ?_,
    ⟨?_, canAllocate_second rfl, ?_⟩, ve _ _ ?_, started _ _ ?_, trivial⟩
  all_goals decide +kernel

/-- The registers of thread 1 are saved when thread 2 is enabled, and reloaded; those of thread 2
    are in its buffer then. -/
theorem lazy_refines_eager_away :
    let s := vecSystem.exec oneThread awayRun
    s.executing = 1 ∧ s.vecOwner = some 1 ∧ s.regs.v 31 3 = 7 ∧
      (loadVecContext (s.bufs (getTcp s 2))).v 31 3 = 9 ∧
      ∃ a, Guarded.Steps EagerStep ⟨0, fun _ => none⟩ awayRun a ∧ a.regs 1 = some s.regs ∧
        a.regs 2 = some (loadVecContext (s.bufs (getTcp s 2))) := by
  intro s
  obtain ⟨⟨a, hsteps, -, -, hexec, haway⟩, -, howner, -⟩ :=
    lazy_refines_eager booted_oneThread awayRun awayRun_legal
  have hone : s.executing = 1 := by decide +kernel
  have hx : getTcp s s.executing ≠ 0 := by decide +kernel
  have htwo : getTcp s 2 ≠ 0 := by decide +kernel
  have hown : s.vecOwner = some 1 := hone ▸ howner hx
  have hreloaded : s.regs.v 31 3 = 7 := by decide +kernel
  have hsaved : (loadVecContext (s.bufs (getTcp s 2))).v 31 3 = 9 := by decide +kernel
  refine ⟨hone, hown, hreloaded, hsaved, a, hsteps, hone ▸ hexec hx, haway 2 htwo ?_⟩
  rw [hown]
  decide

end SsrlApps.Altivec
