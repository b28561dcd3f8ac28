/-
  The stack check of `vec_task_enable`, in altivec/vec_context.c.

  `vec_thread_fixup_env` aligns the stack pointer of a thread and stores 0 there, the end of
  the chain of frames. `vec_task_enable` follows the chain from its own frame, up to 100
  links, and refuses to enable AltiVec if one of the frames is not aligned.

  Model. `BackChain ram fs` says that the word at each frame of `fs` is the next one, and
  the word at the last is 0; it is a list in memory of Lib/Chain. `stackSystem` is what a
  thread does to its stack: a call stores the stack pointer at the bottom of a new frame, a
  return goes back to it, and other stores keep away from the words of the chain. The sizes
  of the frames are a ghost of the state.

  Proved:
  * `walkStack_end`, `walkStack_misaligned`: what the loop of `vec_task_enable` finds.
  * `vecTaskEnable_chain`: the assertion behind the loop and the answer, for any chain.
  * `stackInv_step`: the chain of a thread is that of the calls it is in.
  * `vecTaskEnable_calls`: so the check is one of the sizes of the frames.
-/
import Mathlib.Algebra.GroupWithZero.Nat
import SsrlApps.Altivec.ExtAlloc
import SsrlApps.Lib.Chain

namespace SsrlApps.Altivec

/-! ## The loop -/

/-- The word at a frame, as a pointer. -/
def backLink (ram : Word → Word) (a : Word) : Option (ListCell Word Unit) :=
  some ⟨(), if ram a = 0 then none else some (ram a)⟩

def BackChain (ram : Word → Word) (fs : List Word) : Prop :=
  ListCell.Chain (backLink ram) fs.head? (fs.map fun a => (a, ()))

def Misaligned (a : Word) : Prop := a &&& 15 ≠ 0

instance (a : Word) : Decidable (Misaligned a) := inferInstanceAs (Decidable (_ ≠ _))

/-- A misaligned frame is not NULL. -/
theorem misa_ne_zero {a m : Word} :
    (if a &&& 15 ≠ 0 then a else m) ≠ 0 ↔ Misaligned a ∨ m ≠ 0 := by
  by_cases hmis : a &&& 15 ≠ 0
  · have ha : a ≠ 0 := by
      rintro rfl
      exact hmis (BitVec.zero_and)
    rw [if_pos hmis]
    exact ⟨fun _ => Or.inl hmis, fun _ => ha⟩
  · rw [if_neg hmis]
    exact ⟨Or.inr, fun h => h.resolve_left hmis⟩

section Chains

variable {ram ram' : Word → Word} {a b : Word} {fs : List Word}

theorem backChain_one : BackChain ram [a] ↔ ram a = 0 := by
  constructor
  · rintro ⟨-, q, hq, hend⟩
    have hnext : (if ram a = 0 then none else some (ram a)) = q :=
      (ListCell.mk.inj (Option.some.inj hq)).2
    by_contra hne
    rw [if_neg hne] at hnext
    exact nomatch hnext.trans hend
  · intro h
    exact ⟨rfl, none, by simp only [backLink, if_pos h], rfl⟩

theorem backChain_cons :
    BackChain ram (a :: b :: fs) ↔ ram a = b ∧ b ≠ 0 ∧ BackChain ram (b :: fs) := by
  constructor
  · rintro ⟨-, q, hq, hrest⟩
    have hnext : (if ram a = 0 then none else some (ram a)) = q :=
      (ListCell.mk.inj (Option.some.inj hq)).2
    obtain rfl : q = some b := hrest.1
    by_cases hz : ram a = 0
    · rw [if_pos hz] at hnext
      exact nomatch hnext
    · rw [if_neg hz] at hnext
      have hab : ram a = b := Option.some.inj hnext
      exact ⟨hab, hab ▸ hz, hrest⟩
  · rintro ⟨hab, hb, hrest⟩
    exact ⟨rfl, some b, by simp only [backLink, hab, if_neg hb], hrest⟩

/-- Stores that keep away from the words of the chain. -/
theorem backChain_congr (h : BackChain ram fs) (hsame : ∀ f ∈ fs, ram' f = ram f) :
    BackChain ram' fs := by
  refine ListCell.chain_congr h fun x hx => ?_
  obtain ⟨f, hf, rfl⟩ := List.mem_map.mp hx
  simp only [backLink, hsame f hf]

/-- The loop and the test behind it see each frame of the chain. -/
theorem walkStack_misaligned (h : BackChain ram (a :: fs)) {n : Nat} (hn : fs.length ≤ n)
    (misa : Word) :
    Misaligned (walkStack ram n a misa).1 ∨ (walkStack ram n a misa).2 ≠ 0 ↔
      misa ≠ 0 ∨ ∃ f ∈ a :: fs, Misaligned f := by
  induction fs generalizing a n misa with
  | nil =>
    have hstop : walkStack ram n a misa = (a, misa) := by
      cases n with
      | zero => rfl
      | succ n => exact if_pos (backChain_one.mp h)
    rw [hstop, or_comm, List.exists_mem_cons_iff]
    exact or_congr_right ⟨Or.inl, fun h1 => h1.resolve_right fun ⟨_, hf, _⟩ => nomatch hf⟩
  | cons b fs ih =>
    obtain ⟨hab, hb, hrest⟩ := backChain_cons.mp h
    obtain ⟨n, rfl⟩ : ∃ k, n = k + 1 := ⟨n - 1, by simp at hn; omega⟩
    rw [walkStack, if_neg (hab ▸ hb), hab, ih hrest (Nat.le_of_succ_le_succ hn), misa_ne_zero,
      List.exists_mem_cons_iff Misaligned a, or_comm (a := Misaligned a), or_assoc]

end Chains

theorem misaligned_ne_zero {s : VecState} {r1 : Word} :
    misaligned s r1 ≠ 0 ↔
      Misaligned (walkStack s.ram 100 r1 0).1 ∨ (walkStack s.ram 100 r1 0).2 ≠ 0 := by
  exact misa_ne_zero

section Answer

variable {s : VecState} {r1 : Word} {fs : List Word}

theorem allocates_chain (h : BackChain s.ram (r1 :: fs)) (hlen : fs.length ≤ 100) :
    Allocates s r1 ↔
      s.vecExtensionId ≠ 0 ∧ (∀ f ∈ r1 :: fs, ¬Misaligned f) ∧ ¬HasVE s.msr := by
  have hfound : misaligned s r1 ≠ 0 ↔ ∃ f ∈ r1 :: fs, Misaligned f := by
    rw [misaligned_ne_zero, walkStack_misaligned h hlen]
    exact ⟨fun h1 => h1.resolve_left fun hne => hne rfl, Or.inr⟩
  have hnone : misaligned s r1 = 0 ↔ ∀ f ∈ r1 :: fs, ¬Misaligned f := by
    rw [← not_iff_not, ← ne_eq, hfound]
    simp only [not_forall, not_not, exists_prop]
  unfold Allocates
  rw [hnone]

theorem vecTaskEnable_zero (p : Word) (junk : VecCtxtBuf) :
    (vecTaskEnable false s r1 p junk).2 = 0 ↔ Allocates s r1 ∧ alignBuf p ≠ 0 := by
  by_cases hall : Allocates s r1
  · rw [vecTaskEnable_allocates hall]
    by_cases hret : (extalloc s p junk).2 = 0
    · rw [if_pos hret]
      exact ⟨fun h => (nomatch h), fun h => absurd hret h.2⟩
    · rw [if_neg hret]
      exact ⟨fun _ => ⟨hall, hret⟩, fun _ => rfl⟩
  · rw [vecTaskEnable_fails hall]
    exact ⟨fun h => (nomatch h), fun h => absurd h.1 hall⟩

end Answer

/-! ## The stack of a thread -/

structure StackState where
  ram : Word → Word
  r1 : Word
  /-- The sizes of the frames, the innermost first. -/
  sizes : List Nat

inductive StackEvent where
  | call (n : Nat)
  | ret
  | store (a w : Word)

/-- The frames, given the innermost one and their sizes. -/
def frames : Word → List Nat → List Word
  | r1, [] => [r1]
  | r1, n :: ns => r1 :: frames (r1 + BitVec.ofNat 32 n) ns

def stackStep (st : StackState) : StackEvent → StackState
  | .call n =>
    let r1 := st.r1 - BitVec.ofNat 32 n
    ⟨Function.update st.ram r1 st.r1, r1, n :: st.sizes⟩
  | .ret => ⟨st.ram, st.ram st.r1, st.sizes.tail⟩
  | .store a w => { st with ram := Function.update st.ram a w }

/-- A frame has room for the back chain and the saved link register. -/
def stackGuard (st : StackState) : StackEvent → Prop
  | .call n => 8 ≤ n ∧ n ≤ st.r1.toNat
  | .ret => st.sizes ≠ []
  | .store a _ => ∀ f ∈ frames st.r1 st.sizes, a.toNat + 4 ≤ f.toNat ∨ f.toNat + 4 ≤ a.toNat

def stackSystem : Guarded StackState StackEvent := ⟨stackGuard, stackStep⟩

/-- The stack with which a thread is entered. -/
def entryStack (s : VecState) (thread : Nat) : StackState := ⟨s.ram, (s.tcb thread).gpr1, []⟩

theorem length_frames (r1 : Word) (ns : List Nat) : (frames r1 ns).length = ns.length + 1 := by
  induction ns generalizing r1 with
  | nil => rfl
  | cons n ns ih => exact congrArg Nat.succ (ih _)

theorem frames_head (r1 : Word) (ns : List Nat) : ∃ fs, frames r1 ns = r1 :: fs := by
  cases ns with
  | nil => exact ⟨[], rfl⟩
  | cons n ns => exact ⟨_, rfl⟩

/-- The chain is that of the calls, from the frame at `top` down. -/
structure StackInv (top : Word) (st : StackState) : Prop where
  chain : BackChain st.ram (frames st.r1 st.sizes)
  depth : st.r1.toNat + st.sizes.sum = top.toNat
  room : ∀ n ∈ st.sizes, 8 ≤ n

section Frames

variable {top r1 : Word} {n : Nat} {ns : List Nat}

theorem outer_toNat (h : r1.toNat + (n :: ns).sum = top.toNat) :
    (r1 + BitVec.ofNat 32 n).toNat = r1.toNat + n := by
  have htop := top.isLt
  rw [List.sum_cons] at h
  rw [BitVec.toNat_add, BitVec.toNat_ofNat]
  omega

/-- Outer frames are further up. -/
theorem frames_ge (h : r1.toNat + ns.sum = top.toNat) {f : Word} (hf : f ∈ frames r1 ns) :
    r1.toNat ≤ f.toNat := by
  induction ns generalizing r1 with
  | nil =>
    rw [List.mem_singleton.mp hf]
  | cons n ns ih =>
    have hout := outer_toNat h
    rw [List.sum_cons] at h
    rcases List.mem_cons.mp hf with rfl | hf
    · exact Nat.le_refl _
    · have hle := ih (by omega) hf
      omega

/-- With the outermost frame aligned, the others are if their sizes are. -/
theorem frames_aligned (h : r1.toNat + ns.sum = top.toNat) (htop : ¬Misaligned top) :
    (∀ f ∈ frames r1 ns, ¬Misaligned f) ↔ ∀ n ∈ ns, n % 16 = 0 := by
  have hmod : ∀ a : Word, ¬Misaligned a ↔ a.toNat % 16 = 0 := by
    intro a
    unfold Misaligned
    rw [not_not, ← BitVec.toNat_inj, BitVec.toNat_and]
    exact Iff.of_eq (congrArg (· = 0) (Nat.and_two_pow_sub_one_eq_mod a.toNat 4))
  induction ns generalizing r1 with
  | nil =>
    have hr1 : r1 = top := BitVec.eq_of_toNat_eq h
    rw [hr1]
    refine ⟨fun _ n hn => (nomatch hn), fun _ f hf => ?_⟩
    rw [List.mem_singleton.mp hf]
    exact htop
  | cons n ns ih =>
    have hout := outer_toNat h
    rw [List.sum_cons] at h
    have hrest : (∀ f ∈ frames (r1 + BitVec.ofNat 32 n) ns, ¬Misaligned f) ↔
        ∀ m ∈ ns, m % 16 = 0 := ih (by omega)
    unfold frames
    rw [List.forall_mem_cons, List.forall_mem_cons, hrest, hmod]
    refine and_congr_left fun hns => ?_
    -- the frame around it is aligned
    have hnext : (r1 + BitVec.ofNat 32 n).toNat % 16 = 0 := by
      obtain ⟨fs, hfs⟩ := frames_head (r1 + BitVec.ofNat 32 n) ns
      exact (hmod _).mp (hrest.mpr hns _ (hfs ▸ .head _))
    omega

end Frames

section Calls

variable {top : Word} {st : StackState}

/-- The new frame lies below all others. -/
theorem stackInv_call (hinv : StackInv top st) {n : Nat} (hn : 8 ≤ n) (hle : n ≤ st.r1.toNat) :
    StackInv top (stackStep st (.call n)) := by
  obtain ⟨hchain, hdepth, hroom⟩ := hinv
  have hinner : (st.r1 - BitVec.ofNat 32 n).toNat = st.r1.toNat - n := by
    have := st.r1.isLt
    rw [BitVec.toNat_sub, BitVec.toNat_ofNat]
    omega
  have hback : st.r1 - BitVec.ofNat 32 n + BitVec.ofNat 32 n = st.r1 := BitVec.sub_add_cancel ..
  have hkept : BackChain (Function.update st.ram (st.r1 - BitVec.ofNat 32 n) st.r1)
      (frames st.r1 st.sizes) := by
    refine backChain_congr hchain fun f hf => Function.update_of_ne ?_ ..
    rintro rfl
    have := frames_ge hdepth hf
    omega
  refine ⟨?_, ?_, List.forall_mem_cons.mpr ⟨hn, hroom⟩⟩
  · obtain ⟨fs, hfs⟩ := frames_head st.r1 st.sizes
    show BackChain _ (_ :: frames (st.r1 - BitVec.ofNat 32 n + BitVec.ofNat 32 n) st.sizes)
    rw [hback, hfs]
    refine backChain_cons.mpr ⟨Function.update_self .., ?_, hfs ▸ hkept⟩
    intro h0
    rw [h0] at hle
    exact absurd (Nat.le_trans hn hle) (by decide)
  · show (st.r1 - BitVec.ofNat 32 n).toNat + (n :: st.sizes).sum = top.toNat
    rw [hinner, List.sum_cons]
    omega

theorem stackInv_ret (hinv : StackInv top st) (hne : st.sizes ≠ []) :
    StackInv top (stackStep st .ret) := by
  obtain ⟨ram, r1, sizes⟩ := st
  obtain ⟨hchain, hdepth, hroom⟩ := hinv
  cases sizes with
  | nil => exact absurd rfl hne
  | cons n ns =>
    obtain ⟨fs, hfs⟩ := frames_head (r1 + BitVec.ofNat 32 n) ns
    have hcons : BackChain ram (r1 :: (r1 + BitVec.ofNat 32 n) :: fs) := hfs ▸ hchain
    obtain ⟨hnext, -, hrest⟩ := backChain_cons.mp hcons
    have hout := outer_toNat hdepth
    rw [List.sum_cons] at hdepth
    refine ⟨?_, ?_, fun m hm => hroom m (.tail _ hm)⟩
    · show BackChain ram (frames (ram r1) ns)
      rw [hnext, hfs]
      exact hrest
    · show (ram r1).toNat + ns.sum = top.toNat
      rw [hnext, hout]
      omega

end Calls

theorem stackInv_step {top : Word} (st : StackState) (e : StackEvent) (hinv : StackInv top st)
    (hg : stackGuard st e) : StackInv top (stackStep st e) := by
  cases e with
  | call n => exact stackInv_call hinv hg.1 hg.2
  | ret => exact stackInv_ret hinv hg
  | store a w =>
    obtain ⟨hchain, hdepth, hroom⟩ := hinv
    refine ⟨backChain_congr hchain fun f hf => Function.update_of_ne ?_ .., hdepth, hroom⟩
    rintro rfl
    have := hg f hf
    omega

theorem stackInv_entry (s : VecState) (thread : Nat) :
    StackInv ((s.tcb thread).gpr1 &&& ~~~(15 : Word))
      (entryStack (vecThreadFixupEnv false s thread) thread) := by
  have hentry : entryStack (vecThreadFixupEnv false s thread) thread =
      ⟨Function.update s.ram ((s.tcb thread).gpr1 &&& ~~~(15 : Word)) 0,
        (s.tcb thread).gpr1 &&& ~~~(15 : Word), []⟩ := by
    unfold entryStack vecThreadFixupEnv setTcb
    dsimp only
    rw [Function.update_self]
    rfl
  rw [hentry]
  exact ⟨backChain_one.mpr (Function.update_self ..), rfl, fun n hn => nomatch hn⟩

/-- In every run of a thread from its start or restart, as long as it is in at most 100
    calls (that of `vec_task_enable` itself is one), AltiVec can be enabled exactly if all
    frames that are there have a size divisible by 16, and the other checks pass. -/
theorem vecTaskEnable_calls {s : VecState} {thread : Nat} {es : List StackEvent}
    (hes : stackSystem.Legal (entryStack (vecThreadFixupEnv false s thread) thread) es)
    {st : StackState}
    (hst : st = stackSystem.exec (entryStack (vecThreadFixupEnv false s thread) thread) es)
    (hlen : st.sizes.length ≤ 100) (s' : VecState) (hram : s'.ram = st.ram) (p : Word)
    (junk : VecCtxtBuf) :
    (vecTaskEnable false s' st.r1 p junk).2 = 0 ↔
      s'.vecExtensionId ≠ 0 ∧ (∀ n ∈ st.sizes, n % 16 = 0) ∧ ¬HasVE s'.msr ∧
        alignBuf p ≠ 0 := by
  have hinv : StackInv ((s.tcb thread).gpr1 &&& ~~~(15 : Word)) st :=
    hst ▸ Guarded.invariant stackInv_step (stackInv_entry s thread) hes
  have htop : ¬Misaligned ((s.tcb thread).gpr1 &&& ~~~(15 : Word)) := by
    have hmask : ~~~(15 : Word) &&& 15 = 0 := by decide
    unfold Misaligned
    rw [BitVec.and_assoc, hmask]
    exact not_not.mpr BitVec.and_zero
  obtain ⟨fs, hfs⟩ := frames_head st.r1 st.sizes
  have hchain : BackChain s'.ram (st.r1 :: fs) := by
    rw [hram, ← hfs]
    exact hinv.chain
  have hlinks : fs.length ≤ 100 := by
    have hcount := length_frames st.r1 st.sizes
    rw [hfs, List.length_cons] at hcount
    omega
  rw [vecTaskEnable_zero, allocates_chain hchain hlinks, ← hfs,
    frames_aligned hinv.depth htop, and_assoc, and_assoc]

/-- A call with a frame of 24 bytes. -/
def oddCall : List StackEvent := [.call 16, .store 0x1ff4 7, .call 24]

def entered : VecState := { oneThread with tcb := fun _ => ⟨.started, 0, 0, 0x2004⟩ }

def stackBehind (es : List StackEvent) : StackState :=
  stackSystem.exec (entryStack (vecThreadFixupEnv false entered 0) 0) es

theorem oddCall_legal :
    stackSystem.Legal (entryStack (vecThreadFixupEnv false entered 0) 0) oddCall := by
  refine ⟨⟨by decide, by decide⟩, fun f hf => ?_, ⟨by decide, by decide⟩, trivial⟩
  have hmem : f ∈ [(0x1ff0 : Word), 0x2000] := hf
  rcases List.mem_cons.mp hmem with rfl | hlast
  · decide
  · rw [List.mem_singleton.mp hlast]
    decide

/-- Inside that call the extension is refused, behind it it is not. -/
theorem vecTaskEnable_calls_odd :
    (vecTaskEnable false { entered with ram := (stackBehind oddCall).ram }
        (stackBehind oddCall).r1 0x8000 fun _ _ => 0).2 ≠ 0 ∧
      (vecTaskEnable false { entered with ram := (stackBehind (oddCall ++ [.ret])).ram }
        (stackBehind (oddCall ++ [.ret])).r1 0x8000 fun _ _ => 0).2 = 0 := by
  have hret : stackSystem.Legal (entryStack (vecThreadFixupEnv false entered 0) 0)
      (oddCall ++ [.ret]) :=
    Guarded.legal_append oddCall_legal ⟨fun hnil => (nomatch hnil), trivial⟩
  have hinside := vecTaskEnable_calls oddCall_legal rfl (by decide)
    { entered with ram := (stackBehind oddCall).ram } rfl 0x8000 fun _ _ => 0
  have hbehind := vecTaskEnable_calls hret rfl (by decide)
    { entered with ram := (stackBehind (oddCall ++ [.ret])).ram } rfl 0x8000 fun _ _ => 0
  refine ⟨fun h0 => ?_, hbehind.mpr ⟨by decide, by decide, by decide, by decide⟩⟩
  have hodd := (hinside.mp h0).2.1 24 (.head _)
  exact absurd hodd (by decide)

end SsrlApps.Altivec
