/-
  Unloading the AltiVec extension: `_cexpModuleFinalize`.

  Model. `cexpModuleFinalize` is the function of the source, with the outcome of
  `rtems_extension_delete` as a parameter. It takes `vec_owner` for the only trace of
  threads with a context: when the owner is deleted or restarted while another thread
  keeps its context, `vec_owner` is 0 and the extension is unloaded under that thread.

  Proved:
  * `finalize_safe_iff`: in every state of every run, unloading is safe exactly if not all
    three hold: there is no owner, some thread has a context, and the kernel lets the
    extension go; and it is safe in the runs that delete or restart an owner only when no
    other thread has a context.
  * `finalize_orphan`: two enabled threads, of which the owner ends.
-/
import SsrlApps.Altivec.Refine

namespace SsrlApps.Altivec

/-- `_cexpModuleFinalize`; `deleteOk` is whether `rtems_extension_delete` succeeds. -/
def cexpModuleFinalize (s : VecState) (deleteOk : Bool) : VecState × Int :=
  if s.vecOwner ≠ none then (s, -1)
  else
    let id := s.vecExtensionId
    let s := { s with vecExtensionId := 0 }
    if id ≠ 0 then
      if deleteOk then ({ s with registered := false }, 0)
      else ({ s with vecExtensionId := id }, -1)
    else (s, 0)

/-- The extension is unloaded only when no thread has a context, and none runs with
    vectors enabled; while one has, the call is refused and changes nothing. -/
structure FinalizeSafe (s : VecState) (deleteOk : Bool) : Prop where
  unloaded : (cexpModuleFinalize s deleteOk).2 = 0 → ∀ t, getTcp s t = 0 ∧
    ((s.tcb t).phase = .started → ¬ HasVE (threadMsr s t))
  refused : (∃ t, getTcp s t ≠ 0) → (cexpModuleFinalize s deleteOk).2 = -1 ∧
    (cexpModuleFinalize s deleteOk).1.vecExtensionId = s.vecExtensionId ∧
    (cexpModuleFinalize s deleteOk).1.registered = s.registered

/-- Some thread has a context, but none owns the registers. -/
def Orphaned (s : VecState) : Prop := s.vecOwner = none ∧ ∃ t, getTcp s t ≠ 0

theorem neg_one_ne_zero : (-1 : Int) ≠ 0 := by decide

theorem finalize_owner {s : VecState} (h : s.vecOwner ≠ none) (deleteOk : Bool) :
    cexpModuleFinalize s deleteOk = (s, -1) := if_pos h

theorem finalize_none {s : VecState} (h : s.vecOwner = none) (hid : s.vecExtensionId ≠ 0)
    (deleteOk : Bool) : cexpModuleFinalize s deleteOk =
      if deleteOk then ({ s with vecExtensionId := 0, registered := false }, 0)
      else (s, -1) := by
  unfold cexpModuleFinalize
  rw [if_neg (not_not.mpr h)]
  dsimp only
  rw [if_pos hid]

theorem finalizeSafe_iff {s : VecState} (hi : VecInv s) (deleteOk : Bool) :
    FinalizeSafe s deleteOk ↔ ¬ (Orphaned s ∧ deleteOk = true) := by
  constructor
  · intro hsafe ⟨⟨hown, t, ht⟩, hok⟩
    have hret := finalize_none hown hi.installed deleteOk
    rw [hok, if_pos rfl] at hret
    rw [hok] at hsafe
    exact ht (hsafe.unloaded (by rw [hret]) t).1
  · intro hcond
    by_cases hown : s.vecOwner = none
    · have hret := finalize_none hown hi.installed deleteOk
      cases hok : deleteOk with
      | false =>
        rw [hok, if_neg Bool.false_ne_true] at hret
        refine ⟨fun h => ?_, fun _ => ?_⟩
        · rw [hret] at h
          exact absurd h neg_one_ne_zero
        · rw [hret]
          exact ⟨rfl, rfl, rfl⟩
      | true =>
        have hnone : ∀ t, getTcp s t = 0 := by
          intro t
          by_contra ht
          exact hcond ⟨⟨hown, t, ht⟩, hok⟩
        refine ⟨fun _ t => ⟨hnone t, fun ht hv => ?_⟩, fun ⟨t, ht⟩ => absurd (hnone t) ht⟩
        exact (threadMsr_iff hi ht).mp hv (hnone t)
    · have hret := finalize_owner hown deleteOk
      refine ⟨fun h => ?_, fun _ => ?_⟩
      · rw [hret] at h
        exact absurd h neg_one_ne_zero
      · rw [hret]
        exact ⟨rfl, rfl, rfl⟩

/-! ## Runs without orphans -/

/-- A delete or restart of the owner, while another thread has a context. -/
def Orphans (s : VecState) : VecEvent → Prop
  | .delete t | .restart t _ _ => s.vecOwner = some t ∧ ∃ u, u ≠ t ∧ getTcp s u ≠ 0
  | _ => False

/-- The runs in which no event makes orphans. -/
def tidySystem : Guarded VecState VecEvent where
  guard s e := vecGuard s e ∧ ¬ Orphans s e
  step := vecStep

theorem tidy_detached {s s' : VecState} {t : Nat} (hd : Detached s s' t)
    (hlast : s.vecOwner = some t → ∀ u, u ≠ t → getTcp s u = 0) (ho : ¬ Orphaned s) :
    ¬ Orphaned s' := by
  intro ⟨hnone, u, hu⟩
  have hut : u ≠ t := by
    rintro rfl
    exact hu hd.ext
  have hext : getTcp s' u = getTcp s u := congrArg Tcb.ext (hd.others u hut)
  rw [hext] at hu
  have howner : s'.vecOwner = if s.vecOwner = some t then none else s.vecOwner :=
    congrArg LazyFile.owner hd.view
  by_cases hown : s.vecOwner = some t
  · exact hu (hlast hown u hut)
  · rw [if_neg hown, hnone] at howner
    exact ho ⟨howner.symm, u, hu⟩

theorem tidy_switch {s : VecState} (hi : VecInv s) (ho : ¬ Orphaned s) (heir : Nat) :
    ¬ Orphaned (vecStep s (.switch heir)) := by
  intro ⟨hnone, u, hu⟩
  rw [getTcp_switched] at hu
  have howner : (vecStep s (.switch heir)).vecOwner = ((lazyOf s).acquire heir).owner :=
    congrArg LazyFile.owner (lazyOf_switched hi.buffers hi.owner heir)
  rw [hnone] at howner
  rcases LazyFile.acquire_owner_cases (lazyOf s) heir with hold | ⟨hnew, -⟩
  · rw [hold] at howner
    exact ho ⟨howner.symm, u, hu⟩
  · rw [hnew] at howner
    cases howner

theorem tidy_enable {s : VecState} (hi : VecInv s) (ho : ¬ Orphaned s) {r1 p : Word}
    {junk : VecCtxtBuf} (hg : vecGuard s (.enable r1 p junk)) :
    ¬ Orphaned (vecStep s (.enable r1 p junk)) := by
  show ¬ Orphaned (vecTaskEnable false s r1 p junk).1
  rcases vecTaskEnable_cases s r1 p junk with hret | ⟨-, hret⟩ | ⟨hnew, -, hret⟩
  · rw [hret]
    exact ho
  · rw [hret]
    intro ⟨hnone, u, hu⟩
    have hparts : (extalloc s p junk).1.vecOwner = s.vecOwner ∧
        getTcp (extalloc s p junk).1 u = getTcp s u := by
      unfold extalloc workspaceAllocate
      split <;> exact ⟨rfl, rfl⟩
    exact ho ⟨hparts.1.symm.trans hnone, u, by rw [← hparts.2]; exact hu⟩
  · have hp : Block p ∧ ∀ q, s.live q = true → Apart p q := by
      rcases hg.2.1 with rfl | h
      · exact absurd (by decide) hnew
      · exact h
    rw [hret]
    intro ⟨hnone, _⟩
    rw [owner_enabled hi.buffers hi.owner hp.1 hp.2] at hnone
    cases hnone

/-- No event but the end of an owner makes orphans. -/
theorem tidy_step (s : VecState) (e : VecEvent) (hs : VecInv s ∧ ¬ Orphaned s)
    (hg : tidySystem.guard s e) : VecInv (vecStep s e) ∧ ¬ Orphaned (vecStep s e) := by
  obtain ⟨hi, ho⟩ := hs
  obtain ⟨hguard, htidy⟩ := hg
  refine ⟨vecStep_inv s e hi hguard, ?_⟩
  -- the owner has a context, so a thread without one is not the owner
  have hnot : ∀ t, getTcp s t = 0 → s.vecOwner = some t → ∀ u, u ≠ t → getTcp s u = 0 :=
    fun t ht hown => absurd ht (hi.owner t hown)
  have hlast : ∀ t, ¬ (s.vecOwner = some t ∧ ∃ u, u ≠ t ∧ getTcp s u ≠ 0) →
      s.vecOwner = some t → ∀ u, u ≠ t → getTcp s u = 0 := by
    intro t hcond hown u hut
    by_contra hu
    exact hcond ⟨hown, u, hut, hu⟩
  cases e with
  | create t p junk =>
    exact tidy_detached (detached_create hi hguard) (hnot t (hi.dead t (by rw [hguard.1]; decide)))
      ho
  | start t msr gpr1 =>
    have hphase : (s.tcb t).phase = .dormant := hguard
    exact tidy_detached (detached_start hi hguard) (hnot t (hi.dead t (by rw [hphase]; decide))) ho
  | restart t msr gpr1 =>
    exact tidy_detached (detached_restart hi t msr gpr1) (hlast t htidy) ho
  | delete t => exact tidy_detached (detached_deleted hi t) (hlast t htidy) ho
  | switch heir => exact tidy_switch hi ho heir
  | enable r1 p junk => exact tidy_enable hi ho hguard
  | write regs => exact ho
  | setMsr msr => exact ho
  | store x w => exact ho

theorem tidy_boot {s : VecState} (h : Booted s) : ¬ Orphaned s :=
  fun ⟨_, t, ht⟩ => ht (h.ext t)

/-- **When unloading is safe.** In every state of every run, `_cexpModuleFinalize` unloads
    the extension only when no thread has a context, and refuses without any effect while
    one has, exactly if it is not so that some thread has a context, none is the owner,
    and the kernel deletes the extension. It is safe in every state of the runs in which
    an owner ends, or starts anew, only when no other thread has a context. -/
theorem finalize_safe_iff {s₀ : VecState} (h₀ : Booted s₀) (es : List VecEvent)
    (deleteOk : Bool) :
    (vecSystem.Legal s₀ es → (FinalizeSafe (vecSystem.exec s₀ es) deleteOk ↔
      ¬ (Orphaned (vecSystem.exec s₀ es) ∧ deleteOk = true))) ∧
    (tidySystem.Legal s₀ es → FinalizeSafe (vecSystem.exec s₀ es) deleteOk) := by
  refine ⟨fun h => finalizeSafe_iff (vecInv_of_legal h₀ h) deleteOk, fun h => ?_⟩
  obtain ⟨hi, ho⟩ := Guarded.invariant tidy_step ⟨vecInv_boot h₀, tidy_boot h₀⟩ h
  exact (finalizeSafe_iff hi deleteOk).mpr fun hcond => ho hcond.1

/-- Thread 1 is enabled, and thread 0 runs again. -/
def busyRun : List VecEvent :=
  [.create 1 0 fun _ _ => 0, .start 1 0 0x1000, .switch 1, .enable 0x1000 0x8000 fun _ _ => 0,
    .switch 0]

theorem finalize_safe_iff_busy :
    FinalizeSafe (vecSystem.exec oneThread busyRun) true ∧
      (cexpModuleFinalize (vecSystem.exec oneThread busyRun) true).2 = -1 := by
  have switchTo : ∀ (s : VecState) (t : Nat), (s.tcb t).phase = .started →
      tidySystem.guard s (.switch t) := fun _ _ h => ⟨h, id⟩
  refine ⟨(finalize_safe_iff booted_oneThread busyRun true).2 ?_, by decide +kernel⟩
  refine ⟨⟨⟨rfl, by decide⟩, id⟩, ⟨rfl, id⟩, switchTo _ _ rfl,
    ⟨⟨rfl, canAllocate_first rfl, ?_⟩, id⟩, switchTo _ _ ?_, trivial⟩
  all_goals decide +kernel

/-- Threads 1 and 2 are enabled, in this order; thread 2 deletes itself, and thread 0 runs
    again. -/
def orphanRun : List VecEvent :=
  [.create 1 0 fun _ _ => 0, .start 1 0 0x1000, .create 2 0 fun _ _ => 0, .start 2 0 0x2000,
    .switch 1, .enable 0x1000 0x8000 fun _ _ => 0, .switch 2,
    .enable 0x2000 0x9000 fun _ _ => 0, .delete 2, .switch 0]

theorem finalize_orphan :
    vecSystem.Legal oneThread orphanRun ∧ getTcp (vecSystem.exec oneThread orphanRun) 1 ≠ 0 ∧
      (cexpModuleFinalize (vecSystem.exec oneThread orphanRun) true).2 = 0 ∧
      ¬ FinalizeSafe (vecSystem.exec oneThread orphanRun) true := by
  have switchTo : ∀ (s : VecState) (t : Nat), (s.tcb t).phase = .started →
      vecSystem.guard s (.switch t) := fun _ _ h => h
  have delete : ∀ (s : VecState) (t : Nat), (s.tcb t).phase ≠ .absent →
      vecSystem.guard s (.delete t) := fun _ _ h => h
  have hctx : getTcp (vecSystem.exec oneThread orphanRun) 1 ≠ 0 := by decide +kernel
  have hret : (cexpModuleFinalize (vecSystem.exec oneThread orphanRun) true).2 = 0 := by
    decide +kernel
  refine ⟨?_, hctx, hret, fun h => hctx (h.unloaded hret 1).1⟩
  refine ⟨⟨rfl, by decide⟩, rfl, ⟨rfl, by decide⟩, rfl, switchTo _ _ rfl,
    ⟨rfl, canAllocate_first rfl, ?_⟩, switchTo _ _ ?_, ⟨?_, canAllocate_second rfl, ?_⟩,
    delete _ _ ?_, switchTo _ _ ?_, trivial⟩
  all_goals decide +kernel

end SsrlApps.Altivec
