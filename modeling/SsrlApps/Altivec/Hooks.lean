/-
  What each hook of the context manager does to the contexts.

  Model. `lazyOf` reads the state of the manager as a `LazyFile`: the hardware registers
  belong to `vec_owner`, everybody else's are in the context buffers. `Buffers` says that
  every context lies in a live workspace block of its own.

  Proved:
  * `lazyOf_switch`, `lazyOf_delete`, `lazyOf_enabled`: the switch hook acquires the
    registers for the heir, the delete hook detaches a thread, and `vec_task_enable`
    attaches the executing thread, which then acquires them.
  * `buffers_same`, `buffers_delete`, `buffers_enabled`: the blocks stay in order.
  * `vecThreadDelete_eq`, `vecTaskEnable_cases`: everything these functions can do.
-/
import SsrlApps.Altivec.Context

namespace SsrlApps.Altivec

/-! ## The lazy view -/

/-- The manager's state as registers that are saved and loaded lazily. -/
def lazyOf (s : VecState) : LazyFile Nat VecRegs where
  owner := s.vecOwner
  cur := s.regs
  saved t := if getTcp s t = 0 then none else some (loadVecContext (s.bufs (getTcp s t)))

theorem saved_none {s : VecState} {t : Nat} (h : getTcp s t = 0) :
    (lazyOf s).saved t = none := if_pos h

theorem saved_some {s : VecState} {t : Nat} (h : getTcp s t ≠ 0) :
    (lazyOf s).saved t = some (loadVecContext (s.bufs (getTcp s t))) := if_neg h

theorem saved_isSome {s : VecState} {t : Nat} :
    ((lazyOf s).saved t).isSome ↔ getTcp s t ≠ 0 := by
  by_cases h : getTcp s t = 0
  · rw [saved_none h]
    exact ⟨fun hf => absurd hf Bool.false_ne_true, fun hne => absurd h hne⟩
  · rw [saved_some h]
    exact ⟨fun _ => h, fun _ => rfl⟩

/-! ## Buffers and blocks -/

/-- Every context lies in a live block of its own. -/
structure Buffers (s : VecState) : Prop where
  block : ∀ p, s.live p = true → Block p
  apart : ∀ p q, s.live p = true → s.live q = true → p ≠ q → Apart p q
  held : ∀ t, getTcp s t ≠ 0 → s.live (bptrOf (s.bufs (getTcp s t))) = true ∧
    alignBuf (bptrOf (s.bufs (getTcp s t))) = getTcp s t
  distinct : ∀ t u, getTcp s t ≠ 0 → getTcp s t = getTcp s u → t = u

theorem buffers_empty {s : VecState} (hlive : ∀ p, s.live p = false)
    (hext : ∀ t, getTcp s t = 0) : Buffers s := by
  refine ⟨?_, ?_, ?_, ?_⟩
  · intro p hp
    rw [hlive p] at hp
    cases hp
  · intro p q hp
    rw [hlive p] at hp
    cases hp
  · intro t ht
    exact absurd (hext t) ht
  · intro t u ht
    exact absurd (hext t) ht

/-! ## What the hooks leave alone -/

theorem getTcp_setTcb_self (s : VecState) (t : Nat) (tcb : Tcb) :
    getTcp (setTcb s t tcb) t = tcb.ext :=
  congrArg Tcb.ext (Function.update_self ..)

theorem getTcp_setTcb_ne (s : VecState) {t u : Nat} (h : u ≠ t) (tcb : Tcb) :
    getTcp (setTcb s t tcb) u = getTcp s u :=
  congrArg Tcb.ext (Function.update_of_ne h ..)

theorem getTcp_setTcb_ext (s : VecState) (t : Nat) (tcb : Tcb) (u : Nat) :
    getTcp (setTcb s t tcb) u = if u = t then tcb.ext else getTcp s u := by
  by_cases h : u = t
  · subst h
    rw [if_pos rfl]
    exact getTcp_setTcb_self ..
  · rw [if_neg h]
    exact getTcp_setTcb_ne s h _

/-- Changing a TCB, apart from its extension slot. -/
theorem getTcp_setTcb (s : VecState) {t : Nat} {tcb : Tcb} (h : tcb.ext = getTcp s t)
    (u : Nat) : getTcp (setTcb s t tcb) u = getTcp s u := by
  by_cases hu : u = t
  · subst hu
    rw [getTcp_setTcb_self, h]
  · exact getTcp_setTcb_ne s hu tcb

/-- The two states have the same contexts, in the same blocks. -/
structure SameContexts (s s' : VecState) : Prop where
  ext : ∀ t, getTcp s' t = getTcp s t
  live : s'.live = s.live
  bptr : ∀ vc, vc ≠ 0 → bptrOf (s'.bufs vc) = bptrOf (s.bufs vc)

theorem buffers_same {s s' : VecState} (h : SameContexts s s') (hb : Buffers s) :
    Buffers s' := by
  refine ⟨?_, ?_, ?_, ?_⟩
  · rw [h.live]
    exact hb.block
  · rw [h.live]
    exact hb.apart
  · intro t ht
    rw [h.ext] at ht ⊢
    rw [h.live, h.bptr _ ht]
    exact hb.held t ht
  · intro t u ht htu
    rw [h.ext] at ht htu
    rw [h.ext] at htu
    exact hb.distinct t u ht htu

/-- The lazy view depends on the contexts, the owner, the registers and the buffers. -/
theorem lazyOf_congr {s s' : VecState} (hext : ∀ t, getTcp s' t = getTcp s t)
    (howner : s'.vecOwner = s.vecOwner) (hregs : s'.regs = s.regs)
    (hbufs : ∀ vc, vc ≠ 0 → s'.bufs vc = s.bufs vc) : lazyOf s' = lazyOf s := by
  have hsaved : (lazyOf s').saved = (lazyOf s).saved := by
    funext t
    by_cases h : getTcp s t = 0
    · rw [saved_none h, saved_none ((hext t).trans h)]
    · rw [saved_some h, saved_some (by rw [hext]; exact h), hext, hbufs _ h]
  unfold lazyOf at hsaved ⊢
  rw [LazyFile.mk.injEq]
  exact ⟨howner, hregs, hsaved⟩

/-! ## The switch hook -/

/-- What the switch hook leaves alone. -/
structure SwitchFrame (s s' : VecState) : Prop where
  executing : s'.executing = s.executing
  msr : s'.msr = s.msr
  tcb : s'.tcb = s.tcb
  live : s'.live = s.live
  id : s'.vecExtensionId = s.vecExtensionId
  bptr : ∀ vc, bptrOf (s'.bufs vc) = bptrOf (s.bufs vc)

theorem bptr_setBuf {s : VecState} {vc : Word} {buf : VecCtxtBuf}
    (h : bptrOf buf = bptrOf (s.bufs vc)) (vc' : Word) :
    bptrOf ((setBuf s vc buf).bufs vc') = bptrOf (s.bufs vc') := by
  by_cases he : vc' = vc
  · subst he
    exact (congrArg bptrOf (Function.update_self ..)).trans h
  · exact congrArg bptrOf (Function.update_of_ne he ..)

theorem saveOwner_frame (s : VecState) : SwitchFrame s (saveOwner s) := by
  unfold saveOwner
  cases s.vecOwner with
  | none => exact ⟨rfl, rfl, rfl, rfl, rfl, fun _ => rfl⟩
  | some o =>
    refine ⟨rfl, rfl, rfl, rfl, rfl, fun vc => ?_⟩
    exact bptr_setBuf (bptr_save s.regs (s.bufs (getTcp s o))) vc

theorem vecThreadSwitch_frame (s : VecState) (heir : Nat) :
    SwitchFrame s (vecThreadSwitch s heir) := by
  unfold vecThreadSwitch
  dsimp only
  split
  · have hf := saveOwner_frame { s with msr := setVE s.msr }
    exact ⟨hf.executing, rfl, hf.tcb, hf.live, hf.id, hf.bptr⟩
  · exact ⟨rfl, rfl, rfl, rfl, rfl, fun _ => rfl⟩

theorem sameContexts_switch (s : VecState) (heir : Nat) :
    SameContexts s (vecThreadSwitch s heir) := by
  have hf := vecThreadSwitch_frame s heir
  refine ⟨fun t => ?_, hf.live, fun vc _ => hf.bptr vc⟩
  unfold getTcp
  rw [hf.tcb]

/-- Saving the owner writes its registers back. -/
theorem saved_saveOwner {s : VecState} (hb : Buffers s)
    (howner : ∀ t, s.vecOwner = some t → getTcp s t ≠ 0) :
    (lazyOf (saveOwner s)).saved = (lazyOf s).writeBack := by
  cases hown : s.vecOwner with
  | none =>
    have hsave : saveOwner s = s := by unfold saveOwner; rw [hown]
    have hback : (lazyOf s).writeBack = (lazyOf s).saved := by
      unfold LazyFile.writeBack
      rw [show (lazyOf s).owner = none from hown]
    rw [hsave, hback]
  | some o =>
    have hext := howner o hown
    have hsave : (saveOwner s).bufs = Function.update s.bufs (getTcp s o)
        (saveVecContext s.regs (s.bufs (getTcp s o))).1 := by unfold saveOwner; rw [hown]; rfl
    have hback : (lazyOf s).writeBack =
        Function.update (lazyOf s).saved o (some s.regs) := by
      unfold LazyFile.writeBack
      rw [show (lazyOf s).owner = some o from hown]
      rfl
    have htcp : ∀ t, getTcp (saveOwner s) t = getTcp s t := by
      intro t
      unfold getTcp
      rw [(saveOwner_frame s).tcb]
    rw [hback]
    funext t
    by_cases ht : t = o
    · subst ht
      rw [saved_some (by rw [htcp]; exact hext), htcp, hsave, Function.update_self,
        Function.update_self, load_save]
    · rw [Function.update_of_ne ht]
      by_cases h0 : getTcp s t = 0
      · rw [saved_none h0, saved_none ((htcp t).trans h0)]
      · have hne : getTcp s t ≠ getTcp s o := fun he => ht (hb.distinct t o h0 he)
        rw [saved_some h0, saved_some (by rw [htcp]; exact h0), htcp, hsave,
          Function.update_of_ne hne]

/-- The switch hook hands the registers over to the heir. -/
theorem lazyOf_switch {s : VecState} (hb : Buffers s)
    (howner : ∀ t, s.vecOwner = some t → getTcp s t ≠ 0) (heir : Nat) :
    lazyOf (vecThreadSwitch s heir) = (lazyOf s).acquire heir := by
  unfold vecThreadSwitch
  dsimp only
  by_cases hext : getTcp s heir = 0
  · rw [LazyFile.acquire_absent (saved_none hext), if_neg (fun h => h.1 hext)]
  · by_cases hown : s.vecOwner = some heir
    · rw [LazyFile.acquire_owner (l := lazyOf s) hown, if_neg (fun h => h.2 hown)]
    · rw [LazyFile.acquire_new (saved_some hext) hown, if_pos ⟨hext, hown⟩]
      have hf := saveOwner_frame { s with msr := setVE s.msr }
      have hsaved : (lazyOf (saveOwner { s with msr := setVE s.msr })).saved =
          (lazyOf s).writeBack := saved_saveOwner ⟨hb.block, hb.apart, hb.held, hb.distinct⟩ howner
      have htcp : getTcp (saveOwner { s with msr := setVE s.msr }) heir = getTcp s heir :=
        congrArg (fun tcb => (tcb heir).ext) hf.tcb
      -- the heir is not the owner, so its saved registers are up to date
      have hheir : loadVecContext ((saveOwner { s with msr := setVE s.msr }).bufs
          (getTcp s heir)) = loadVecContext (s.bufs (getTcp s heir)) := by
        have h := congrFun hsaved heir
        rw [LazyFile.writeBack_eq, LazyFile.file_other hown, saved_some hext,
          saved_some (by rw [htcp]; exact hext), htcp, Option.some.injEq] at h
        exact h
      unfold lazyOf at hsaved ⊢
      rw [LazyFile.mk.injEq]
      exact ⟨rfl, hheir, hsaved⟩

/-! ## The delete hook -/

theorem setTcp_self {s : VecState} {t : Nat} {vp : Word} (h : getTcp s t = vp) :
    setTcp s t vp = s := by
  subst h
  exact congrArg (fun tcb => { s with tcb := tcb }) (Function.update_eq_self t s.tcb)

theorem freeTcp_eq (s : VecState) (t : Nat) :
    freeTcp s t =
      { setTcp s t 0 with
        live := if getTcp s t ≠ 0 then
          Function.update s.live (bptrOf (s.bufs (getTcp s t))) false else s.live } := by
  unfold freeTcp
  dsimp only
  split
  · rfl
  · next h =>
    rw [setTcp_self (not_not.mp h)]

theorem dropOwner_eq (s : VecState) (t : Nat) :
    dropOwner s t =
      { s with
        vecOwner := if s.vecOwner = some t then none else s.vecOwner
        msr := if s.vecOwner = some t ∧ s.executing = t then clrVE s.msr else s.msr } := by
  unfold dropOwner
  by_cases hown : s.vecOwner = some t
  · simp only [hown, if_true, true_and]
  · simp only [hown, if_false, false_and]

/-- Everything the delete hook does. -/
theorem vecThreadDelete_eq (s : VecState) (t : Nat) :
    vecThreadDelete s t =
      { setTcb s t { s.tcb t with msr := clrVE (s.tcb t).msr, ext := 0 } with
        vecOwner := if s.vecOwner = some t then none else s.vecOwner
        msr := if s.vecOwner = some t ∧ s.executing = t then clrVE s.msr else s.msr
        live := if getTcp s t ≠ 0 then
          Function.update s.live (bptrOf (s.bufs (getTcp s t))) false else s.live } := by
  unfold vecThreadDelete
  dsimp only
  rw [freeTcp_eq, dropOwner_eq, getTcp_setTcb_self]
  simp only [setTcp, setTcb, Function.update_self, Function.update_idem, getTcp]
  rfl

theorem getTcp_delete (s : VecState) (t u : Nat) :
    getTcp (vecThreadDelete s t) u = if u = t then 0 else getTcp s u := by
  rw [vecThreadDelete_eq]
  exact getTcp_setTcb_ext ..

/-- A thread that ends, or starts anew, drops its registers. -/
theorem lazyOf_delete (s : VecState) (t : Nat) :
    lazyOf (vecThreadDelete s t) = (lazyOf s).detach t := by
  have hsaved : (lazyOf (vecThreadDelete s t)).saved =
      Function.update (lazyOf s).saved t none := by
    have hbufs : (vecThreadDelete s t).bufs = s.bufs := by rw [vecThreadDelete_eq]; rfl
    funext u
    have hu := getTcp_delete s t u
    by_cases h : u = t
    · subst h
      rw [if_pos rfl] at hu
      rw [saved_none hu, Function.update_self]
    · rw [if_neg h] at hu
      rw [Function.update_of_ne h]
      by_cases h0 : getTcp s u = 0
      · rw [saved_none h0, saved_none (hu.trans h0)]
      · rw [saved_some h0, saved_some (by rw [hu]; exact h0), hu, hbufs]
  have howner : (vecThreadDelete s t).vecOwner =
      if s.vecOwner = some t then none else s.vecOwner := by rw [vecThreadDelete_eq]
  have hregs : (vecThreadDelete s t).regs = s.regs := by rw [vecThreadDelete_eq]; rfl
  unfold lazyOf at hsaved ⊢
  rw [LazyFile.detach, LazyFile.mk.injEq]
  exact ⟨howner, hregs, hsaved⟩

theorem buffers_delete {s : VecState} (hb : Buffers s) (t : Nat) :
    Buffers (vecThreadDelete s t) := by
  have hlive : ∀ p, (vecThreadDelete s t).live p = true → s.live p = true := by
    intro p hp
    rw [vecThreadDelete_eq] at hp
    dsimp only at hp
    split at hp
    · by_cases he : p = bptrOf (s.bufs (getTcp s t))
      · rw [he, Function.update_self] at hp
        cases hp
      · rw [Function.update_of_ne he] at hp
        exact hp
    · exact hp
  have hbufs : (vecThreadDelete s t).bufs = s.bufs := by rw [vecThreadDelete_eq]; rfl
  have hne : ∀ u, getTcp (vecThreadDelete s t) u ≠ 0 →
      u ≠ t ∧ getTcp (vecThreadDelete s t) u = getTcp s u := by
    intro u hu
    have hx := getTcp_delete s t u
    by_cases h : u = t
    · rw [if_pos h] at hx
      exact absurd hx hu
    · rw [if_neg h] at hx
      exact ⟨h, hx⟩
  refine ⟨fun p hp => hb.block p (hlive p hp),
    fun p q hp hq => hb.apart p q (hlive p hp) (hlive q hq), ?_, ?_⟩
  · intro u hu
    obtain ⟨hut, hx⟩ := hne u hu
    rw [hx] at hu ⊢
    obtain ⟨hl, ha⟩ := hb.held u hu
    rw [hbufs]
    refine ⟨?_, ha⟩
    rw [vecThreadDelete_eq]
    dsimp only
    split
    · next ht =>
      -- two threads have different buffers, hence different blocks
      have hbp : bptrOf (s.bufs (getTcp s u)) ≠ bptrOf (s.bufs (getTcp s t)) := by
        intro he
        have ha' := (hb.held t ht).2
        rw [← he, ha] at ha'
        exact hut (hb.distinct u t hu ha')
      rw [Function.update_of_ne hbp]
      exact hl
    · exact hl
  · intro u w hu huw
    obtain ⟨-, hx⟩ := hne u hu
    rw [huw] at hu
    obtain ⟨-, hw⟩ := hne w hu
    rw [hx, hw] at huw
    rw [hw] at hu
    exact hb.distinct u w (by rw [huw]; exact hu) huw

/-! ## Enabling a thread -/

/-- What `init_vec_ctxt` makes of a new buffer. -/
def initBuf (p : Word) (junk : VecCtxtBuf) : VecCtxtBuf :=
  setWord (setWord (setWord junk 1 p) 0 vrsaveInitVal) 3 vscrInitVal

/-- The executing thread has got a new context, and does not own the registers yet. -/
def attached (s : VecState) (p : Word) (junk : VecCtxtBuf) : VecState :=
  setTcp (initVecCtxt (extalloc s p junk).1 (alignBuf p)) s.executing (alignBuf p)

/-- The executing thread owns the registers, and its MSR has vectors enabled. -/
def enabled (s : VecState) (p : Word) (junk : VecCtxtBuf) : VecState :=
  { vecThreadSwitch (attached s p junk) s.executing with msr := setVE s.msr }

theorem bptr_initBuf (p : Word) (junk : VecCtxtBuf) : bptrOf (initBuf p junk) = p := by
  simp [bptrOf, initBuf, setWord]

theorem vscr_initBuf (p : Word) (junk : VecCtxtBuf) :
    vscrOf (initBuf p junk) = vscrInitVal := by
  simp [vscrOf, initBuf, setWord]

theorem vrsave_initBuf (p : Word) (junk : VecCtxtBuf) :
    vrsaveOf (initBuf p junk) = vrsaveInitVal := by
  simp [vrsaveOf, initBuf, setWord]

theorem attached_eq {s : VecState} {p : Word} (hp : p ≠ 0) (junk : VecCtxtBuf) :
    attached s p junk = { setTcp s s.executing (alignBuf p) with
      live := Function.update s.live p true
      bufs := Function.update s.bufs (alignBuf p) (initBuf p junk) } := by
  unfold attached initVecCtxt extalloc workspaceAllocate initBuf
  simp only [if_neg hp, setTcp, setTcb, setBuf, Function.update_self, Function.update_idem]

/-- Everything `vec_task_enable` can do: it fails at once, or for lack of memory, or the
    executing thread gets a context and takes the registers over. -/
theorem vecTaskEnable_cases (s : VecState) (r1 p : Word) (junk : VecCtxtBuf) :
    vecTaskEnable false s r1 p junk = (s, -1) ∨
    (alignBuf p = 0 ∧ vecTaskEnable false s r1 p junk = ((extalloc s p junk).1, rtemsNoMemory)) ∨
    (alignBuf p ≠ 0 ∧ ¬ HasVE s.msr ∧
      vecTaskEnable false s r1 p junk = (enabled s p junk, 0)) := by
  unfold vecTaskEnable
  rw [if_neg Bool.false_ne_true]
  split
  · exact Or.inl rfl
  · dsimp only
    generalize (if (walkStack s.ram 100 r1 0).1 &&& 15 ≠ 0 then (walkStack s.ram 100 r1 0).1
      else (walkStack s.ram 100 r1 0).2) = misa
    by_cases hmisa : misa = 0
    · rw [if_neg (not_not.mpr hmisa)]
      by_cases hve : HasVE s.msr
      · rw [if_pos hve]
        exact Or.inl rfl
      · rw [if_neg hve]
        have hnew : (extalloc s p junk).2 = alignBuf p := rfl
        rw [hnew]
        by_cases hnull : alignBuf p = 0
        · rw [if_pos hnull]
          exact Or.inr (Or.inl ⟨hnull, rfl⟩)
        · rw [if_neg hnull]
          refine Or.inr (Or.inr ⟨hnull, hve, ?_⟩)
          have hexec : (attached s p junk).executing = s.executing := by
            unfold attached extalloc workspaceAllocate
            split <;> rfl
          have hmsr : (vecThreadSwitch (attached s p junk) s.executing).msr = s.msr := by
            rw [(vecThreadSwitch_frame _ _).msr]
            unfold attached extalloc workspaceAllocate
            split <;> rfl
          show ({ vecThreadSwitch (attached s p junk) (attached s p junk).executing with
            msr := setVE (vecThreadSwitch (attached s p junk)
              (attached s p junk).executing).msr }, (0 : Int)) = _
          rw [hexec, hmsr]
          rfl
    · rw [if_pos hmisa]
      exact Or.inl rfl

theorem getTcp_attached (s : VecState) {p : Word} (hp : p ≠ 0) (junk : VecCtxtBuf) (u : Nat) :
    getTcp (attached s p junk) u = if u = s.executing then alignBuf p else getTcp s u := by
  rw [attached_eq hp]
  exact getTcp_setTcb_ext ..

/-- No context lies where the new one will. -/
theorem context_ne_new {s : VecState} (hb : Buffers s) {p : Word} (hp : Block p)
    (hnew : ∀ q, s.live q = true → Apart p q) {u : Nat} (hu : getTcp s u ≠ 0) :
    getTcp s u ≠ alignBuf p := by
  obtain ⟨hlive, halign⟩ := hb.held u hu
  rw [← halign]
  exact (alignBuf_ne hp (hb.block _ hlive) (hnew _ hlive)).symm

/-- Thread `t` has got a context with the contents `buf` in the new block `p`. -/
structure Joined (s s' : VecState) (t : Nat) (p : Word) (buf : VecCtxtBuf) : Prop where
  ext : ∀ u, getTcp s' u = if u = t then alignBuf p else getTcp s u
  bufs : s'.bufs = Function.update s.bufs (alignBuf p) buf
  live : s'.live = Function.update s.live p true
  owner : s'.vecOwner = s.vecOwner
  regs : s'.regs = s.regs

theorem lazyOf_joined {s s' : VecState} {t : Nat} {p : Word} {buf : VecCtxtBuf}
    (hj : Joined s s' t p buf) (hb : Buffers s) (hp : Block p)
    (hnew : ∀ q, s.live q = true → Apart p q) :
    lazyOf s' = (lazyOf s).attach t (loadVecContext buf) := by
  have hsaved : (lazyOf s').saved =
      Function.update (lazyOf s).saved t (some (loadVecContext buf)) := by
    funext u
    have hu := hj.ext u
    by_cases h : u = t
    · subst h
      rw [if_pos rfl] at hu
      rw [saved_some (by rw [hu]; exact alignBuf_ne_zero hp), hu, hj.bufs, Function.update_self,
        Function.update_self]
    · rw [if_neg h] at hu
      rw [Function.update_of_ne h]
      by_cases h0 : getTcp s u = 0
      · rw [saved_none h0, saved_none (hu.trans h0)]
      · rw [saved_some h0, saved_some (by rw [hu]; exact h0), hu, hj.bufs,
          Function.update_of_ne (context_ne_new hb hp hnew h0)]
  unfold lazyOf at hsaved ⊢
  rw [LazyFile.attach, LazyFile.mk.injEq]
  exact ⟨hj.owner, hj.regs, hsaved⟩

theorem buffers_joined {s s' : VecState} {t : Nat} {p : Word} {buf : VecCtxtBuf}
    (hj : Joined s s' t p buf) (hbuf : bptrOf buf = p) (hb : Buffers s) (hp : Block p)
    (hnew : ∀ q, s.live q = true → Apart p q) : Buffers s' := by
  have hcases : ∀ q, s'.live q = true → q = p ∨ s.live q = true := by
    intro q hq
    rw [hj.live] at hq
    by_cases h : q = p
    · exact Or.inl h
    · rw [Function.update_of_ne h] at hq
      exact Or.inr hq
  refine ⟨?_, ?_, ?_, ?_⟩
  · intro q hq
    rcases hcases q hq with rfl | hold
    · exact hp
    · exact hb.block q hold
  · intro q q' hq hq' hne
    rcases hcases q hq with rfl | hold
    · rcases hcases q' hq' with rfl | hold'
      · exact absurd rfl hne
      · exact hnew q' hold'
    · rcases hcases q' hq' with rfl | hold'
      · exact (hnew q hold).symm
      · exact hb.apart q q' hold hold' hne
  · intro u hu
    rw [hj.ext u] at hu ⊢
    rw [hj.live, hj.bufs]
    by_cases h : u = t
    · rw [if_pos h, Function.update_self, hbuf, Function.update_self]
      exact ⟨rfl, rfl⟩
    · rw [if_neg h] at hu ⊢
      obtain ⟨hl, ha⟩ := hb.held u hu
      rw [Function.update_of_ne (context_ne_new hb hp hnew hu)]
      refine ⟨?_, ha⟩
      by_cases he : bptrOf (s.bufs (getTcp s u)) = p
      · rw [he]
        exact Function.update_self ..
      · rw [Function.update_of_ne he]
        exact hl
  · intro u w hu huw
    rw [hj.ext u] at hu huw
    rw [hj.ext w] at huw
    by_cases h : u = t
    · by_cases h' : w = t
      · rw [h, h']
      · rw [if_pos h, if_neg h'] at huw
        rw [if_pos h, huw] at hu
        exact absurd huw.symm (context_ne_new hb hp hnew hu)
    · rw [if_neg h] at hu huw
      by_cases h' : w = t
      · rw [if_pos h'] at huw
        exact absurd huw (context_ne_new hb hp hnew hu)
      · rw [if_neg h'] at huw
        exact hb.distinct u w hu huw

theorem joined_attached (s : VecState) {p : Word} (hp : p ≠ 0) (junk : VecCtxtBuf) :
    Joined s (attached s p junk) s.executing p (initBuf p junk) := by
  refine ⟨getTcp_attached s hp junk, ?_, ?_, ?_, ?_⟩
  · rw [attached_eq hp]
  · rw [attached_eq hp]
  · rw [attached_eq hp]
    rfl
  · rw [attached_eq hp]
    rfl

/-- The executing thread joins, with registers at their initial values. -/
theorem lazyOf_attached {s : VecState} (hb : Buffers s) {p : Word} (hp : Block p)
    (hnew : ∀ q, s.live q = true → Apart p q) (junk : VecCtxtBuf) :
    lazyOf (attached s p junk) =
      (lazyOf s).attach s.executing (loadVecContext (initBuf p junk)) :=
  lazyOf_joined (joined_attached s hp.nonnull junk) hb hp hnew

theorem buffers_attached {s : VecState} (hb : Buffers s) {p : Word} (hp : Block p)
    (hnew : ∀ q, s.live q = true → Apart p q) (junk : VecCtxtBuf) :
    Buffers (attached s p junk) :=
  buffers_joined (joined_attached s hp.nonnull junk) (bptr_initBuf p junk) hb hp hnew

/-- A failed `vec_task_enable` changes no context: at most the word at the address of the
    pointer in a buffer at NULL. -/
theorem sameContexts_null {s : VecState} {p : Word} (hp : p = 0) (junk : VecCtxtBuf) :
    SameContexts s (extalloc s p junk).1 ∧
      lazyOf (extalloc s p junk).1 = lazyOf s := by
  subst hp
  have hnull : alignBuf 0 = 0 := by decide
  have hbufs : ∀ vc, vc ≠ 0 → (extalloc s 0 junk).1.bufs vc = s.bufs vc := by
    intro vc hvc
    unfold extalloc workspaceAllocate
    rw [hnull]
    exact Function.update_of_ne hvc ..
  refine ⟨⟨fun _ => rfl, rfl, fun vc hvc => congrArg bptrOf (hbufs vc hvc)⟩, ?_⟩
  exact lazyOf_congr (fun _ => rfl) rfl rfl hbufs

/-- What enabling the executing thread leaves alone. -/
structure EnabledFrame (s s' : VecState) : Prop where
  executing : s'.executing = s.executing
  phase : ∀ u, (s'.tcb u).phase = (s.tcb u).phase
  saved : ∀ u, (s'.tcb u).msr = (s.tcb u).msr
  id : s'.vecExtensionId = s.vecExtensionId

theorem enabled_frame (s : VecState) {p : Word} (hp : p ≠ 0) (junk : VecCtxtBuf) :
    EnabledFrame s (enabled s p junk) := by
  have hf := vecThreadSwitch_frame (attached s p junk) s.executing
  have htcb : (enabled s p junk).tcb = Function.update s.tcb s.executing
      { s.tcb s.executing with ext := alignBuf p } := by
    show (vecThreadSwitch (attached s p junk) s.executing).tcb = _
    rw [hf.tcb, attached_eq hp]
    rfl
  refine ⟨?_, ?_, ?_, ?_⟩
  · show (vecThreadSwitch (attached s p junk) s.executing).executing = s.executing
    rw [hf.executing, attached_eq hp]
    rfl
  · intro u
    rw [htcb]
    by_cases hu : u = s.executing
    · rw [hu, Function.update_self]
    · rw [Function.update_of_ne hu]
  · intro u
    rw [htcb]
    by_cases hu : u = s.executing
    · rw [hu, Function.update_self]
    · rw [Function.update_of_ne hu]
  · show (vecThreadSwitch (attached s p junk) s.executing).vecExtensionId = _
    rw [hf.id, attached_eq hp]
    rfl

theorem getTcp_enabled (s : VecState) {p : Word} (hp : p ≠ 0) (junk : VecCtxtBuf) (u : Nat) :
    getTcp (enabled s p junk) u = if u = s.executing then alignBuf p else getTcp s u :=
  ((sameContexts_switch (attached s p junk) s.executing).ext u).trans
    (getTcp_attached s hp junk u)

theorem buffers_enabled {s : VecState} (hb : Buffers s) {p : Word} (hp : Block p)
    (hnew : ∀ q, s.live q = true → Apart p q) (junk : VecCtxtBuf) :
    Buffers (enabled s p junk) := by
  have hsame := sameContexts_switch (attached s p junk) s.executing
  exact buffers_same ⟨hsame.ext, hsame.live, hsame.bptr⟩ (buffers_attached hb hp hnew junk)

/-- The executing thread has joined, and has acquired the registers. -/
theorem lazyOf_enabled {s : VecState} (hb : Buffers s)
    (hown : ∀ t, s.vecOwner = some t → getTcp s t ≠ 0) {p : Word} (hp : Block p)
    (hnew : ∀ q, s.live q = true → Apart p q) (junk : VecCtxtBuf) :
    lazyOf (enabled s p junk) =
      ((lazyOf s).attach s.executing (loadVecContext (initBuf p junk))).acquire s.executing := by
  have howner : ∀ u, (attached s p junk).vecOwner = some u →
      getTcp (attached s p junk) u ≠ 0 := by
    intro u hu
    rw [attached_eq hp.nonnull] at hu
    rw [getTcp_attached s hp.nonnull]
    split
    · exact alignBuf_ne_zero hp
    · exact hown u hu
  rw [← lazyOf_attached hb hp hnew junk]
  exact lazyOf_switch (buffers_attached hb hp hnew junk) howner s.executing

theorem owner_enabled {s : VecState} (hb : Buffers s)
    (hown : ∀ t, s.vecOwner = some t → getTcp s t ≠ 0) {p : Word} (hp : Block p)
    (hnew : ∀ q, s.live q = true → Apart p q) (junk : VecCtxtBuf) :
    (enabled s p junk).vecOwner = some s.executing := by
  have hjoined : (((lazyOf s).attach s.executing
      (loadVecContext (initBuf p junk))).saved s.executing).isSome := by
    rw [LazyFile.saved_attach]
    rfl
  exact (congrArg LazyFile.owner (lazyOf_enabled hb hown hp hnew junk)).trans
    (LazyFile.acquire_takes hjoined)

end SsrlApps.Altivec
