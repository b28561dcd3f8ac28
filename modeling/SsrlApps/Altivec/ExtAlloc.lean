/-
  Allocating a context buffer, store by store.

  Model. `extallocStores`, `switchStores`, `vecTaskEnableStores` and `vecThreadCreateStores`
  list what the functions of the same names store: words of a buffer, a whole context, the
  extension slot of a thread, `vec_owner`. Replayed in order they give what the functions
  leave in memory (`SameMem`), so nothing is missing and nothing made up.

  A failed allocation goes through the same arithmetic as a block: NULL is aligned to NULL,
  but BPTR(NULL) is stored before anyone looks.

  Proved:
  * `vecTaskEnable_replay`, `vecThreadCreate_replay`: the stores are those of the functions.
  * `block_sound`: a block is aligned, used inside its bounds, and freed as it was.
  * `extfree_saved`: so it is in flat memory, behind any number of saves.
  * `null_refused`: apart from that one store, a failed allocation changes nothing.
  * `alloc_sound_iff`: an allocation is sound exactly if it does not fail.
-/
import SsrlApps.Altivec.Refine
import SsrlApps.Altivec.SaveLoad

namespace SsrlApps.Altivec

/-! ## Stores -/

inductive Store
  /-- The word `col` of the first row of a buffer. -/
  | word (vc : Word) (col : Fin 4) (w : Word)
  /-- The executing processor's vector registers. -/
  | context (vc : Word)
  /-- `extensions[vec_idx]` of a thread. -/
  | tcp (thread : Nat) (vp : Word)
  | owner (thread : Nat)

/-- `BPTR(paligned) = p` -/
def extallocStores (p : Word) : List Store := [.word (alignBuf p) 1 p]

def initStores (vc : Word) : List Store := [.word vc 0 vrsaveInitVal, .word vc 3 vscrInitVal]

def switchStores (s : VecState) (heir : Nat) : List Store :=
  if getTcp s heir ≠ 0 ∧ s.vecOwner ≠ some heir then
    (match s.vecOwner with
    | none => []
    | some owner => [.context (getTcp s owner)]) ++ [.owner heir]
  else []

/-- The frame that `vec_task_enable` complains about, or 0. -/
def misaligned (s : VecState) (r1 : Word) : Word :=
  let last := walkStack s.ram 100 r1 0
  if last.1 &&& 15 ≠ 0 then last.1 else last.2

/-- `vec_task_enable` gets as far as its allocation. -/
def Allocates (s : VecState) (r1 : Word) : Prop :=
  s.vecExtensionId ≠ 0 ∧ misaligned s r1 = 0 ∧ ¬HasVE s.msr

instance (s : VecState) (r1 : Word) : Decidable (Allocates s r1) :=
  inferInstanceAs (Decidable (_ ∧ _ ∧ _))

def vecTaskEnableStores (all : Bool) (s : VecState) (r1 p : Word) (junk : VecCtxtBuf) :
    List Store :=
  if all = false ∧ Allocates s r1 then
    let new := extalloc s p junk
    if new.2 = 0 then extallocStores p
    else
      let enabled := setTcp (initVecCtxt new.1 new.2) s.executing new.2
      extallocStores p ++ initStores new.2 ++ [.tcp s.executing new.2] ++
        switchStores enabled enabled.executing
  else []

def vecThreadCreateStores (all : Bool) (newTask : Nat) (p : Word) : List Store :=
  if all = true then
    if alignBuf p = 0 then extallocStores p else extallocStores p ++ [.tcp newTask (alignBuf p)]
  else []

/-! ## Replay -/

def Store.apply (s : VecState) : Store → VecState
  | .word vc col w => setBuf s vc (setWord (s.bufs vc) col w)
  | .context vc => setBuf s vc (saveVecContext s.regs (s.bufs vc)).1
  | .tcp thread vp => setTcp s thread vp
  | .owner thread => { s with vecOwner := some thread }

def replay (s : VecState) (xs : List Store) : VecState := xs.foldl Store.apply s

/-- What the two states have in memory is the same. -/
structure SameMem (s s' : VecState) : Prop where
  bufs : s.bufs = s'.bufs
  tcb : s.tcb = s'.tcb
  vecOwner : s.vecOwner = s'.vecOwner
  ram : s.ram = s'.ram

theorem sameMem_refl (s : VecState) : SameMem s s := ⟨rfl, rfl, rfl, rfl⟩

theorem replay_append (s : VecState) (xs ys : List Store) :
    replay s (xs ++ ys) = replay (replay s xs) ys := List.foldl_append

theorem extalloc_replay (s : VecState) (p : Word) (junk : VecCtxtBuf) :
    (extalloc s p junk).1 = replay (workspaceAllocate s p junk) (extallocStores p) := rfl

theorem initVecCtxt_replay (s : VecState) (vc : Word) :
    initVecCtxt s vc = replay s (initStores vc) := by
  show setBuf s vc _ = setBuf (setBuf s vc (setWord (s.bufs vc) 0 vrsaveInitVal)) vc
    (setWord (Function.update s.bufs vc (setWord (s.bufs vc) 0 vrsaveInitVal) vc) 3 vscrInitVal)
  unfold setBuf
  dsimp only
  rw [Function.update_self, Function.update_idem]

theorem vecThreadSwitch_replay (s : VecState) (heir : Nat) :
    SameMem (vecThreadSwitch s heir) (replay s (switchStores s heir)) := by
  unfold vecThreadSwitch switchStores
  dsimp only
  by_cases hsw : getTcp s heir ≠ 0 ∧ s.vecOwner ≠ some heir
  · rw [if_pos hsw, if_pos hsw]
    unfold saveOwner
    cases hown : s.vecOwner with
    | none => exact ⟨rfl, rfl, rfl, rfl⟩
    | some owner => exact ⟨rfl, rfl, rfl, rfl⟩
  · rw [if_neg hsw, if_neg hsw]
    exact sameMem_refl s

section Callers

variable {s : VecState} {r1 : Word}

theorem vecTaskEnable_allocates (h : Allocates s r1) (p : Word) (junk : VecCtxtBuf) :
    vecTaskEnable false s r1 p junk =
      if (extalloc s p junk).2 = 0 then ((extalloc s p junk).1, rtemsNoMemory)
      else
        let enabled := setTcp (initVecCtxt (extalloc s p junk).1 (extalloc s p junk).2)
          s.executing (extalloc s p junk).2
        let switched := vecThreadSwitch enabled enabled.executing
        ({ switched with msr := setVE switched.msr }, 0) := by
  obtain ⟨hid, hmisa, hve⟩ := h
  unfold misaligned at hmisa
  unfold vecTaskEnable
  dsimp only at hmisa ⊢
  rw [if_neg Bool.false_ne_true, if_neg hid, if_neg (not_not.mpr hmisa), if_neg hve]

theorem vecTaskEnable_fails (h : ¬Allocates s r1) (p : Word) (junk : VecCtxtBuf) :
    vecTaskEnable false s r1 p junk = (s, -1) := by
  unfold vecTaskEnable
  dsimp only
  rw [if_neg Bool.false_ne_true]
  by_cases hid : s.vecExtensionId = 0
  · exact if_pos hid
  rw [if_neg hid]
  by_cases hmisa : misaligned s r1 = 0
  · unfold misaligned at hmisa
    dsimp only at hmisa
    rw [if_neg (not_not.mpr hmisa)]
    by_cases hve : HasVE s.msr
    · exact if_pos hve
    · exact absurd ⟨hid, hmisa, hve⟩ h
  · exact if_pos hmisa

/-- What `vec_task_enable` stores is what it leaves in memory. -/
theorem vecTaskEnable_replay (all : Bool) (s : VecState) (r1 p : Word) (junk : VecCtxtBuf) :
    ∃ s₀, (s₀ = s ∨ s₀ = workspaceAllocate s p junk) ∧
      SameMem (vecTaskEnable all s r1 p junk).1
        (replay s₀ (vecTaskEnableStores all s r1 p junk)) := by
  unfold vecTaskEnableStores
  cases all with
  | true => exact ⟨s, Or.inl rfl, sameMem_refl s⟩
  | false =>
    by_cases h : Allocates s r1
    · refine ⟨workspaceAllocate s p junk, Or.inr rfl, ?_⟩
      have hboth : false = false ∧ Allocates s r1 := ⟨rfl, h⟩
      rw [vecTaskEnable_allocates h, if_pos hboth]
      dsimp only
      by_cases hret : (extalloc s p junk).2 = 0
      · rw [if_pos hret, if_pos hret]
        exact sameMem_refl _
      · rw [if_neg hret, if_neg hret, replay_append, replay_append, replay_append,
          ← extalloc_replay, ← initVecCtxt_replay]
        have hsame := vecThreadSwitch_replay
          (setTcp (initVecCtxt (extalloc s p junk).1 (extalloc s p junk).2) s.executing
            (extalloc s p junk).2)
        exact ⟨(hsame _).bufs, (hsame _).tcb, (hsame _).vecOwner, (hsame _).ram⟩
    · refine ⟨s, Or.inl rfl, ?_⟩
      rw [vecTaskEnable_fails h, if_neg fun hboth => h hboth.2]
      exact sameMem_refl s

theorem vecThreadCreate_replay (all : Bool) (s : VecState) (newTask : Nat) (p : Word)
    (junk : VecCtxtBuf) :
    ∃ s₀, (s₀ = s ∨ s₀ = workspaceAllocate s p junk) ∧
      SameMem (vecThreadCreate all s newTask p junk).1
        (replay s₀ (vecThreadCreateStores all newTask p)) := by
  unfold vecThreadCreate vecThreadCreateStores
  cases all with
  | false => exact ⟨s, Or.inl rfl, sameMem_refl s⟩
  | true =>
    refine ⟨workspaceAllocate s p junk, Or.inr rfl, ?_⟩
    rw [if_pos rfl, if_pos rfl]
    dsimp only
    by_cases h : alignBuf p = 0
    · rw [if_pos h, show (extalloc s p junk).2 = 0 from h, if_pos rfl]
      exact sameMem_refl _
    · rw [if_neg h, show (extalloc s p junk).2 = alignBuf p from rfl, if_neg h]
      exact sameMem_refl _

end Callers

/-! ## The law -/

/-- An allocated block: the buffer is aligned and inside of it, and `extfree` frees it. -/
def BlockSound (s : VecState) (p : Word) (junk : VecCtxtBuf) : Prop :=
  let new := extalloc s p junk
  new.2.toNat % 32 = 0 ∧ p.toNat ≤ new.2.toNat ∧
    new.2.toNat + bufSize ≤ p.toNat + blockSize ∧
    extfree new.1 new.2 = { new.1 with live := Function.update new.1.live p false }

/-- The extension slots, `vec_owner` and the MSR stay. -/
structure Unchanged (s s' : VecState) : Prop where
  ext : ∀ t, getTcp s' t = getTcp s t
  vecOwner : s'.vecOwner = s.vecOwner
  msr : s'.msr = s.msr

/-- A failed allocation: it is reported, and nothing is stored. -/
structure NullSound (s : VecState) (junk : VecCtxtBuf) : Prop where
  ret : (extalloc s 0 junk).2 = 0
  silent : extallocStores 0 = []
  enable : ∀ r1, Allocates s r1 →
    (vecTaskEnable false s r1 0 junk).2 = rtemsNoMemory ∧
      vecTaskEnableStores false s r1 0 junk = [] ∧
      Unchanged s (vecTaskEnable false s r1 0 junk).1
  create : ∀ t, (vecThreadCreate true s t 0 junk).2 = false ∧
    vecThreadCreateStores true t 0 = [] ∧ Unchanged s (vecThreadCreate true s t 0 junk).1

def AllocSound (s : VecState) (p : Word) (junk : VecCtxtBuf) : Prop :=
  (p ≠ 0 → BlockSound s p junk) ∧ (p = 0 → NullSound s junk)

theorem block_sound (s : VecState) {p : Word} (hp : Block p) (junk : VecCtxtBuf) :
    BlockSound s p junk := by
  obtain ⟨hle, hfit, haligned⟩ := align_block hp
  refine ⟨haligned, hle, hfit, ?_⟩
  have hbuf : (extalloc s p junk).1.bufs (extalloc s p junk).2 =
      setWord ((workspaceAllocate s p junk).bufs (alignBuf p)) 1 p := Function.update_self ..
  have hbptr : bptrOf ((extalloc s p junk).1.bufs (extalloc s p junk).2) = p := by
    rw [hbuf]
    rfl
  unfold extfree
  rw [hbptr]

/-! ## Flat memory -/

/-- `extalloc` on a flat memory: the store of BPTR. -/
def extallocMem (m : Bytes) (p : Word) : Bytes := storeWord m ((alignBuf p).toNat + 4) p

/-- `extfree` on a flat memory: the block that is freed. -/
def extfreeMem (m : Bytes) (vc : Word) : Word := loadWord m (vc.toNat + 4)

theorem bufAt_extallocMem (m : Bytes) (p : Word) :
    bufAt (extallocMem m p) (alignBuf p).toNat =
      setWord (bufAt m (alignBuf p).toNat) 1 p :=
  bufAt_storeWord m (alignBuf p).toNat 0 1 p

theorem extfreeMem_eq (m : Bytes) (vc : Word) : extfreeMem m vc = bptrOf (bufAt m vc.toNat) :=
  congrArg (loadWord m) (Nat.add_assoc vc.toNat 0 4).symm

theorem buffer_alignBuf {p : Word} (hp : Block p) : Buffer (alignBuf p) := by
  obtain ⟨-, hfit, haligned⟩ := align_block hp
  have hend := hp.fits
  exact ⟨haligned, by omega⟩

/-- Behind any number of saves, `extfree` still frees the block that was allocated. -/
theorem extfree_saved (undef : Vec) {p : Word} (hp : Block p) {m m' : Bytes}
    (h : Relation.ReflTransGen (SaveStep undef (alignBuf p)) (extallocMem m p) m') :
    extfreeMem m' (alignBuf p) = p := by
  rw [extfreeMem_eq, saves_bptr undef (buffer_alignBuf hp) h, bufAt_extallocMem]
  rfl

/-! ## Failure -/

theorem alignBuf_null : alignBuf 0 = 0 := by decide

theorem extallocStores_null : extallocStores 0 = [.word 0 1 0] := by
  unfold extallocStores
  rw [alignBuf_null]

/-- All that a failed allocation does is that BPTR(NULL) is stored: the callers report it,
    and the threads and the processor are left alone. -/
theorem null_refused (s : VecState) (junk : VecCtxtBuf) :
    (extalloc s 0 junk).2 = 0 ∧
    (∀ r1, Allocates s r1 →
      vecTaskEnable false s r1 0 junk = ((extalloc s 0 junk).1, rtemsNoMemory) ∧
      vecTaskEnableStores false s r1 0 junk = [.word 0 1 0]) ∧
    (∀ t, vecThreadCreate true s t 0 junk = ((extalloc s 0 junk).1, false) ∧
      vecThreadCreateStores true t 0 = [.word 0 1 0]) ∧
    Unchanged s (extalloc s 0 junk).1 := by
  have hret : (extalloc s 0 junk).2 = 0 := alignBuf_null
  refine ⟨hret, ?_, ?_, ⟨fun _ => rfl, rfl, rfl⟩⟩
  · intro r1 h
    unfold vecTaskEnableStores
    rw [vecTaskEnable_allocates h, if_pos hret, if_pos ⟨rfl, h⟩]
    dsimp only
    rw [if_pos hret]
    exact ⟨rfl, extallocStores_null⟩
  · intro t
    unfold vecThreadCreate vecThreadCreateStores
    rw [if_pos rfl, if_pos rfl, if_pos alignBuf_null]
    dsimp only
    rw [if_pos hret]
    exact ⟨rfl, extallocStores_null⟩

/-- An allocation is sound exactly if it does not fail. -/
theorem alloc_sound_iff (s : VecState) {p : Word} (hp : p = 0 ∨ Block p) (junk : VecCtxtBuf) :
    AllocSound s p junk ↔ p ≠ 0 := by
  constructor
  · rintro ⟨-, hnull⟩ h
    have hsilent := (hnull h).silent
    cases hsilent
  · intro h
    exact ⟨fun _ => block_sound s (hp.resolve_left h) junk, fun h0 => absurd h0 h⟩

/-- The buffer of the block at 0x1004 is at 0x1020. -/
theorem alloc_sound_iff_block : AllocSound oneThread 0x1004 (fun _ _ => 0) ∧
    (extalloc oneThread 0x1004 fun _ _ => 0).2 = 0x1020 :=
  ⟨(alloc_sound_iff oneThread (Or.inr ⟨by decide, by decide, by decide⟩) fun _ _ => 0).mpr
    (by decide), rfl⟩

/-- NULL is stored at BPTR(NULL), address 4. -/
theorem alloc_null :
    extallocStores 0 = [.word 0 1 0] ∧ ¬AllocSound oneThread 0 fun _ _ => 0 := by
  refine ⟨extallocStores_null, ?_⟩
  rintro ⟨-, hnull⟩
  have hsilent := (hnull rfl).silent
  cases hsilent

end SsrlApps.Altivec
