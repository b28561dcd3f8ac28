/-
  The AltiVec context manager of altivec/vec_context.c.

  Model. `VecState` is the processor (MSR and vector registers), the TCBs (extension slot
  and saved registers), `vec_owner`, the extension's id, the context buffers and the
  workspace blocks they lie in, and the words of the stacks. Every function of the source
  is a function of the state under its own name; the parameter `all` is the build option
  ALL_THREADS_ALTIVEC. A buffer is an array of 34 rows of 4 words, as in the source: row 0
  holds VRSAVE, the pointer to the raw block and VSCR, row `2 + i` holds `v_i`.
  Cache hints, data streams and messages are left out. The values of the environment (the
  block that `_Workspace_Allocate` returns and what is in it) are parameters.

  `vecSystem` runs the hooks as the kernel calls them, in the build without
  ALL_THREADS_ALTIVEC: the extension slot of a new TCB is 0, the initial registers are
  loaded before a start or restart hook, a restarted thread that executes reloads its MSR,
  and a context switch saves the MSR of one thread behind the switch hook and loads that
  of the other.

  Proved:
  * `load_save`, `bptr_save`: a saved context loads as it was, and the save keeps the
    pointer to the raw block.
  * `align_block`: the buffer lies inside its block, and the assertion of `extalloc` holds.
-/
import Mathlib.Logic.Function.Basic
import SsrlApps.Lib.LazyFile
import SsrlApps.Lib.Machine
import Mathlib.Algebra.Order.Ring.Nat

namespace SsrlApps.Altivec

abbrev Word := BitVec 32

-- literals of `Fin 4` and `Fin 32`
scoped instance neZeroCols : NeZero 4 := ⟨by decide⟩
scoped instance neZeroRegs : NeZero 32 := ⟨by decide⟩

/-- `uint32_t Vec[4]` -/
abbrev Vec := Fin 4 → Word

/-- `Vec VecCtxtBuf[34]` -/
abbrev VecCtxtBuf := Fin 34 → Vec

def vrsaveOf (c : VecCtxtBuf) : Word := c 0 0

def bptrOf (c : VecCtxtBuf) : Word := c 0 1

def vscrOf (c : VecCtxtBuf) : Word := c 0 3

/-- Store the word `col` of row 0. -/
def setWord (c : VecCtxtBuf) (col : Fin 4) (w : Word) : VecCtxtBuf :=
  Function.update c 0 (Function.update (c 0) col w)

/-- `VSCR_INIT_VAL` -/
def vscrInitVal : Word := 0

def vrsaveInitVal : Word := 0xffffffff

/-- `MSR_VE`, `1<<(31-6)` -/
def msrVE : Word := 1 <<< 25

/-- The vector registers. -/
structure VecRegs where
  v : Fin 32 → Vec
  vscr : Word
  vrsave : Word

/-- What the kernel knows of a thread. -/
inductive Phase where
  | absent
  | dormant
  | started
deriving DecidableEq

structure Tcb where
  phase : Phase
  /-- `extensions[vec_idx]`; 0 is NULL. -/
  ext : Word
  /-- `Registers.msr` -/
  msr : Word
  /-- `Registers.gpr1` -/
  gpr1 : Word

structure VecState where
  msr : Word
  regs : VecRegs
  /-- `_Thread_Executing` -/
  executing : Nat
  tcb : Nat → Tcb
  vecOwner : Option Nat
  vecExtensionId : Word
  /-- The extension is in the kernel's table. -/
  registered : Bool
  /-- The contents of the buffer at an address. -/
  bufs : Word → VecCtxtBuf
  /-- The workspace blocks that are allocated. -/
  live : Word → Bool
  /-- The words of the stacks. -/
  ram : Word → Word

/-! ## Buffers -/

/-- `save_vec_context`: the buffer, and the registers, whose `v0` is left with VSCR. -/
def saveVecContext (r : VecRegs) (buf : VecCtxtBuf) : VecCtxtBuf × VecRegs :=
  (fun row col =>
      if h : 2 ≤ row.val then r.v ⟨row.val - 2, by omega⟩ col
      else if row = 0 ∧ col = 0 then r.vrsave
      else if row = 0 ∧ col = 3 then r.vscr
      else buf row col,
    { r with v := Function.update r.v 0 fun col => if col = 3 then r.vscr else 0 })

/-- `load_vec_context` -/
def loadVecContext (buf : VecCtxtBuf) : VecRegs :=
  { v := fun i => buf ⟨i.val + 2, by omega⟩, vscr := vscrOf buf, vrsave := vrsaveOf buf }

theorem load_save (r : VecRegs) (buf : VecCtxtBuf) :
    loadVecContext (saveVecContext r buf).1 = r := by
  have hv : (loadVecContext (saveVecContext r buf).1).v = r.v := by
    funext i col
    unfold loadVecContext saveVecContext
    dsimp only
    rw [dif_pos (Nat.le_add_left 2 i.val)]
    rfl
  have hvscr : (loadVecContext (saveVecContext r buf).1).vscr = r.vscr := rfl
  have hvrsave : (loadVecContext (saveVecContext r buf).1).vrsave = r.vrsave := rfl
  cases r
  rw [VecRegs.mk.injEq]
  exact ⟨hv, hvscr, hvrsave⟩

theorem bptr_save (r : VecRegs) (buf : VecCtxtBuf) :
    bptrOf (saveVecContext r buf).1 = bptrOf buf := rfl

/-- Where the buffer lies in the block `p`. -/
def alignBuf (p : Word) : Word := (p + 28) &&& ~~~(31 : Word)

/-- `sizeof(VecCtxtBuf)` -/
def bufSize : Nat := 544

/-- `sizeof(VecCtxtBuf) + PPC_CACHE_ALIGNMENT - 4` -/
def blockSize : Nat := 572

/-- What `_Workspace_Allocate(blockSize)` returns, if not NULL. -/
structure Block (p : Word) : Prop where
  nonnull : p ≠ 0
  aligned : p.toNat % 4 = 0
  fits : p.toNat + blockSize ≤ 2 ^ 32

/-- The blocks do not overlap. -/
def Apart (p q : Word) : Prop := p.toNat + blockSize ≤ q.toNat ∨ q.toNat + blockSize ≤ p.toNat

theorem and_not31 (x : Word) : (x &&& ~~~(31 : Word)).toNat = x.toNat / 32 * 32 := by
  have hshift : x &&& ~~~(31 : Word) = x >>> 5 <<< 5 := by
    have hmask : ~~~(31 : Word) = BitVec.allOnes 32 <<< 5 := by decide
    rw [hmask]
    ext i hi
    simp only [BitVec.getElem_and, BitVec.getElem_shiftLeft, BitVec.getElem_ushiftRight,
      BitVec.getElem_allOnes]
    by_cases h5 : i < 5
    · simp [h5]
    · have hi5 : 5 + (i - 5) = i := by omega
      simp [h5, hi5]
      exact (BitVec.getLsbD_eq_getElem hi).symm
  rw [hshift, BitVec.toNat_shiftLeft, BitVec.toNat_ushiftRight, Nat.shiftRight_eq_div_pow,
    Nat.shiftLeft_eq]
  omega

/-- The buffer lies inside its block, aligned to a cache line. -/
theorem align_block {p : Word} (h : Block p) :
    p.toNat ≤ (alignBuf p).toNat ∧
      (alignBuf p).toNat + bufSize ≤ p.toNat + blockSize ∧ (alignBuf p).toNat % 32 = 0 := by
  obtain ⟨_, haligned, hfits⟩ := h
  have hadd : (p + 28).toNat = p.toNat + 28 := by
    rw [BitVec.toNat_add]
    unfold blockSize at hfits
    have : (28 : Word).toNat = 28 := rfl
    omega
  unfold alignBuf
  rw [and_not31, hadd]
  unfold bufSize blockSize
  omega

/-- Buffers in blocks that do not overlap are different. -/
theorem alignBuf_ne {p q : Word} (hp : Block p) (hq : Block q) (h : Apart p q) :
    alignBuf p ≠ alignBuf q := by
  intro heq
  have h1 := align_block hp
  have h2 := align_block hq
  rw [heq] at h1
  unfold bufSize blockSize at h1 h2
  unfold Apart blockSize at h
  omega

theorem alignBuf_ne_zero {p : Word} (hp : Block p) : alignBuf p ≠ 0 := by
  intro h
  have h1 := (align_block hp).1
  rw [h] at h1
  have hzero : p.toNat = 0 := Nat.le_zero.mp h1
  exact hp.nonnull (BitVec.eq_of_toNat_eq hzero)

/-! ## The functions of the source -/

/-- The MSR has vectors enabled. -/
def HasVE (m : Word) : Prop := msrVE &&& m ≠ 0

instance (m : Word) : Decidable (HasVE m) := inferInstanceAs (Decidable (_ ≠ _))

def setVE (m : Word) : Word := m ||| msrVE

def clrVE (m : Word) : Word := m &&& ~~~msrVE

theorem hasVE_setVE (m : Word) : HasVE (setVE m) := by
  unfold HasVE setVE
  have h : msrVE &&& (m ||| msrVE) = msrVE := by
    rw [BitVec.and_comm, BitVec.or_comm]
    ext i hi
    simp only [BitVec.getElem_and, BitVec.getElem_or]
    cases msrVE[i] <;> simp
  rw [h]
  decide

theorem not_hasVE_clrVE (m : Word) : ¬ HasVE (clrVE m) := by
  unfold HasVE clrVE
  rw [not_not]
  ext i hi
  simp only [BitVec.getElem_and, BitVec.getElem_not]
  cases msrVE[i] <;> simp

def getTcp (s : VecState) (thread : Nat) : Word := (s.tcb thread).ext

def setTcb (s : VecState) (thread : Nat) (tcb : Tcb) : VecState :=
  { s with tcb := Function.update s.tcb thread tcb }

def setTcp (s : VecState) (thread : Nat) (vp : Word) : VecState :=
  setTcb s thread { s.tcb thread with ext := vp }

def setBuf (s : VecState) (vc : Word) (buf : VecCtxtBuf) : VecState :=
  { s with bufs := Function.update s.bufs vc buf }

/-- `_Workspace_Allocate` returns `p`; `junk` is what is in the block. -/
def workspaceAllocate (s : VecState) (p : Word) (junk : VecCtxtBuf) : VecState :=
  if p = 0 then s
  else
    { s with live := Function.update s.live p true
             bufs := Function.update s.bufs (alignBuf p) junk }

/-- `extalloc` -/
def extalloc (s : VecState) (p : Word) (junk : VecCtxtBuf) : VecState × Word :=
  let s := workspaceAllocate s p junk
  (setBuf s (alignBuf p) (setWord (s.bufs (alignBuf p)) 1 p), alignBuf p)

/-- `extfree` -/
def extfree (s : VecState) (vc : Word) : VecState :=
  { s with live := Function.update s.live (bptrOf (s.bufs vc)) false }

/-- `init_vec_ctxt` -/
def initVecCtxt (s : VecState) (vc : Word) : VecState :=
  setBuf s vc (setWord (setWord (s.bufs vc) 0 vrsaveInitVal) 3 vscrInitVal)

/-- `if ( vec_owner ) save_vec_context(get_tcp(vec_owner));` -/
def saveOwner (s : VecState) : VecState :=
  match s.vecOwner with
  | none => s
  | some owner =>
    let saved := saveVecContext s.regs (s.bufs (getTcp s owner))
    { setBuf s (getTcp s owner) saved.1 with regs := saved.2 }

/-- `vec_thread_switch`. The MSR of the executing thread is the same before and after. -/
def vecThreadSwitch (s : VecState) (heir : Nat) : VecState :=
  let vp := getTcp s heir
  if vp ≠ 0 ∧ s.vecOwner ≠ some heir then
    let msr := s.msr
    let s := saveOwner { s with msr := setVE s.msr }
    { s with regs := loadVecContext (s.bufs vp), vecOwner := some heir, msr := msr }
  else s

/-- The loop over the stack frames, with `n` turns left: the last frame, and the last
    misaligned one before it (0 if there is none). -/
def walkStack (ram : Word → Word) : Nat → Word → Word → Word × Word
  | 0, r1, misa => (r1, misa)
  | n + 1, r1, misa =>
    if ram r1 = 0 then (r1, misa)
    else walkStack ram n (ram r1) (if r1 &&& 15 ≠ 0 then r1 else misa)

/-- `RTEMS_NO_MEMORY` -/
def rtemsNoMemory : Int := 26

/-- `vec_task_enable`, with the stack pointer `r1`. -/
def vecTaskEnable (all : Bool) (s : VecState) (r1 p : Word) (junk : VecCtxtBuf) :
    VecState × Int :=
  if all then (s, 0)
  else if s.vecExtensionId = 0 then (s, -1)
  else
    let last := walkStack s.ram 100 r1 0
    let misa := if last.1 &&& 15 ≠ 0 then last.1 else last.2
    if misa ≠ 0 then (s, -1)
    -- already vector enabled
    else if HasVE s.msr then (s, -1)
    else
      let new := extalloc s p junk
      if new.2 = 0 then (new.1, rtemsNoMemory)
      else
        let s := setTcp (initVecCtxt new.1 new.2) s.executing new.2
        let s := vecThreadSwitch s s.executing
        ({ s with msr := setVE s.msr }, 0)

/-- `vec_thread_fixup_env` -/
def vecThreadFixupEnv (all : Bool) (s : VecState) (thread : Nat) : VecState :=
  let s := if all then initVecCtxt s (getTcp s thread) else s
  let tcb := s.tcb thread
  let gpr1 := tcb.gpr1 &&& ~~~(15 : Word)
  -- align the stack and tag its top
  { setTcb s thread { tcb with msr := if all then setVE tcb.msr else clrVE tcb.msr,
                               gpr1 := gpr1 } with
    ram := Function.update s.ram gpr1 0 }

/-- `vec_thread_create` -/
def vecThreadCreate (all : Bool) (s : VecState) (newTask : Nat) (p : Word)
    (junk : VecCtxtBuf) : VecState × Bool :=
  if all then
    let new := extalloc s p junk
    if new.2 = 0 then (new.1, false)
    -- the slot of a new TCB is 0, so that the check with the error VEC2 passes
    else (setTcp new.1 newTask new.2, true)
  else (s, true)

/-- `vec_thread_start` -/
def vecThreadStart (all : Bool) (s : VecState) (startee : Nat) : VecState :=
  vecThreadFixupEnv all s startee

/-- The first statement of `vec_thread_delete`: the deletee owns the registers no more. -/
def dropOwner (s : VecState) (deletee : Nat) : VecState :=
  if s.vecOwner = some deletee then
    { s with vecOwner := none, msr := if s.executing = deletee then clrVE s.msr else s.msr }
  else s

/-- Its last statement: the context is freed and detached. -/
def freeTcp (s : VecState) (deletee : Nat) : VecState :=
  let vc := getTcp s deletee
  if vc ≠ 0 then setTcp (extfree s vc) deletee 0 else s

/-- `vec_thread_delete` -/
def vecThreadDelete (s : VecState) (deletee : Nat) : VecState :=
  let s := dropOwner s deletee
  freeTcp (setTcb s deletee { s.tcb deletee with msr := clrVE (s.tcb deletee).msr }) deletee

/-- `vec_thread_restart` -/
def vecThreadRestart (all : Bool) (s : VecState) (restartee : Nat) : VecState :=
  vecThreadFixupEnv all (if all then s else vecThreadDelete s restartee) restartee

/-! ## The kernel -/

inductive VecEvent where
  | create (t : Nat) (p : Word) (junk : VecCtxtBuf)
  /-- The initial registers of `t` are set. -/
  | start (t : Nat) (msr gpr1 : Word)
  | restart (t : Nat) (msr gpr1 : Word)
  | delete (t : Nat)
  | switch (heir : Nat)
  /-- The executing thread calls `vec_task_enable`. -/
  | enable (r1 p : Word) (junk : VecCtxtBuf)
  /-- The executing thread writes vector registers. -/
  | write (regs : VecRegs)
  /-- It changes other bits of the MSR. -/
  | setMsr (msr : Word)
  /-- Some stack word is written. -/
  | store (a w : Word)

/-- `_Thread_Load_environment` -/
def loadEnvironment (s : VecState) (t : Nat) (msr gpr1 : Word) : VecState :=
  setTcb s t { s.tcb t with msr := msr, gpr1 := gpr1 }

def setPhase (s : VecState) (t : Nat) (phase : Phase) : VecState :=
  setTcb s t { s.tcb t with phase := phase }

/-- `_Context_Switch`, behind the switch hook. -/
def contextSwitch (s : VecState) (heir : Nat) : VecState :=
  let s := setTcb s s.executing { s.tcb s.executing with msr := s.msr }
  { s with msr := (s.tcb heir).msr, executing := heir }

def vecStep (s : VecState) : VecEvent → VecState
  | .create t p junk =>
    (vecThreadCreate false (setTcb s t ⟨.dormant, 0, 0, 0⟩) t p junk).1
  | .start t msr gpr1 =>
    setPhase (vecThreadStart false (loadEnvironment s t msr gpr1) t) t .started
  | .restart t msr gpr1 =>
    let s := vecThreadRestart false (loadEnvironment s t msr gpr1) t
    if s.executing = t then { s with msr := (s.tcb t).msr } else s
  | .delete t => setPhase (vecThreadDelete s t) t .absent
  | .switch heir => contextSwitch (vecThreadSwitch s heir) heir
  | .enable r1 p junk => (vecTaskEnable false s r1 p junk).1
  | .write regs => { s with regs := regs }
  | .setMsr msr => { s with msr := msr }
  | .store a w => { s with ram := Function.update s.ram a w }

/-- What `_Workspace_Allocate` can return. -/
def CanAllocate (s : VecState) (p : Word) : Prop :=
  p = 0 ∨ Block p ∧ ∀ q, s.live q = true → Apart p q

def vecGuard (s : VecState) : VecEvent → Prop
  | .create t _ _ => (s.tcb t).phase = .absent ∧ t ≠ s.executing
  | .start t _ _ => (s.tcb t).phase = .dormant
  | .restart t _ _ => (s.tcb t).phase = .started
  | .delete t => (s.tcb t).phase ≠ .absent
  | .switch heir => (s.tcb heir).phase = .started
  | .enable r1 p _ => (s.tcb s.executing).phase = .started ∧ CanAllocate s p ∧
      -- assert ( 0 == *r1 )
      s.ram (walkStack s.ram 100 r1 0).1 = 0
  | .write _ => HasVE s.msr
  | .setMsr msr => HasVE msr ↔ HasVE s.msr
  | .store _ _ => True

def vecSystem : Guarded VecState VecEvent := ⟨vecGuard, vecStep⟩

end SsrlApps.Altivec
