/-
  The assembly of `save_vec_context` and `load_vec_context`, instruction by instruction.

  Model. `Cpu` holds the general registers that the two functions use, the vector registers
  and the memory. `op0` to `op3` are the registers that the compiler chose for the operands
  `*buf+0` to `*buf+3`: they are none of r0, r4 and r5, which are clobbered. The macros are
  functions to lists of instructions, under their own names. A step says beside the new
  state what it writes: a cache line that `dcbz` zeroes, or data. In the build that the
  source configures (IGNORE_VRSAVE) VRTST is empty. What `lvewx` leaves in the other
  elements is undefined: `undef` stands for it.

  Proved:
  * `four_rows`: the macros for four registers do four times what they do for one.
  * `save_insns`, `load_insns`: the two functions are `saveVecContext` and `loadVecContext`.
  * `save_load`: what was saved is loaded again, nothing outside of the buffer is written,
    no line is zeroed behind data, and the pointer to the raw block stays.
-/
import Mathlib.Logic.Relation
import SsrlApps.Altivec.Context
import SsrlApps.Lib.Memory

namespace SsrlApps.Altivec

open Transducer Bytes

/-! ## Buffers in memory -/

def loadWord (m : Bytes) (a : Nat) : Word := BitVec.ofNat 32 (m.load 4 a)

def storeWord (m : Bytes) (a : Nat) (w : Word) : Bytes := m.store 4 a w.toNat

def loadVec (m : Bytes) (a : Nat) : Vec := fun col => loadWord m (a + 4 * col.val)

def storeVec (m : Bytes) (a : Nat) (v : Vec) : Bytes :=
  storeWord (storeWord (storeWord (storeWord m a (v 0)) (a + 4) (v 1)) (a + 8) (v 2))
    (a + 12) (v 3)

/-- The buffer at an address. -/
def bufAt (m : Bytes) (a : Nat) : VecCtxtBuf := fun row => loadVec m (a + 16 * row.val)

theorem vrsaveOf_bufAt (m : Bytes) (a : Nat) : vrsaveOf (bufAt m a) = loadWord m a :=
  congrArg (loadWord m) (Nat.add_zero a)

theorem vscrOf_bufAt (m : Bytes) (a : Nat) : vscrOf (bufAt m a) = loadWord m (a + 12) :=
  congrArg (loadWord m) (Nat.add_assoc a 0 12)

theorem loadWord_storeWord (m : Bytes) (a : Nat) (w : Word) :
    loadWord (storeWord m a w) a = w := by
  unfold loadWord storeWord
  rw [load_store w.isLt]
  exact BitVec.ofNat_toNat 32 w

theorem loadWord_congr {m m' : Bytes} {a : Nat} (h : AgreeOn m m' a 4) :
    loadWord m' a = loadWord m a := by
  unfold loadWord
  rw [load_congr h]

theorem agreeOn_storeWord {a b n : Nat} (h : b + n ≤ a ∨ a + 4 ≤ b) (m : Bytes) (w : Word) :
    AgreeOn m (storeWord m a w) b n := by
  intro x hx hx'
  exact store_outside (by unfold Outside; omega)

/-- A word of a buffer is stored. -/
theorem bufAt_storeWord (m : Bytes) (a : Nat) (row : Fin 34) (col : Fin 4) (w : Word) :
    bufAt (storeWord m (a + 16 * row.val + 4 * col.val) w) a =
      Function.update (bufAt m a) row (Function.update (bufAt m a row) col w) := by
  funext row' col'
  show loadWord (storeWord m (a + 16 * row.val + 4 * col.val) w)
    (a + 16 * row'.val + 4 * col'.val) = _
  by_cases hrow : row' = row
  · subst hrow
    rw [Function.update_self]
    by_cases hcol : col' = col
    · subst hcol
      rw [Function.update_self, loadWord_storeWord]
    · rw [Function.update_of_ne hcol]
      have hne : col'.val ≠ col.val := fun h => hcol (Fin.ext h)
      exact loadWord_congr (agreeOn_storeWord (by omega) m w)
  · rw [Function.update_of_ne hrow]
    have hne : row'.val ≠ row.val := fun h => hrow (Fin.ext h)
    exact loadWord_congr (agreeOn_storeWord (by omega) m w)

/-- A row of a buffer is stored. -/
theorem bufAt_storeVec (m : Bytes) (a : Nat) (row : Fin 34) (v : Vec) :
    bufAt (storeVec m (a + 16 * row.val) v) a = Function.update (bufAt m a) row v := by
  have h0 : ∀ m w, bufAt (storeWord m (a + 16 * row.val) w) a =
      Function.update (bufAt m a) row (Function.update (bufAt m a row) 0 w) :=
    fun m w => bufAt_storeWord m a row 0 w
  have h1 : ∀ m w, bufAt (storeWord m (a + 16 * row.val + 4) w) a =
      Function.update (bufAt m a) row (Function.update (bufAt m a row) 1 w) :=
    fun m w => bufAt_storeWord m a row 1 w
  have h2 : ∀ m w, bufAt (storeWord m (a + 16 * row.val + 8) w) a =
      Function.update (bufAt m a) row (Function.update (bufAt m a row) 2 w) :=
    fun m w => bufAt_storeWord m a row 2 w
  have h3 : ∀ m w, bufAt (storeWord m (a + 16 * row.val + 12) w) a =
      Function.update (bufAt m a) row (Function.update (bufAt m a row) 3 w) :=
    fun m w => bufAt_storeWord m a row 3 w
  rw [storeVec, h3, h2, h1, h0]
  funext row' col
  by_cases hrow : row' = row
  · subst hrow
    simp only [Function.update_self]
    match col with
    | 0 => rfl
    | 1 => rfl
    | 2 => rfl
    | 3 => rfl
  · simp only [Function.update_of_ne hrow]

theorem storeVec_outside {m : Bytes} {a b : Nat} (h : Outside a 16 b) (v : Vec) :
    storeVec m a v b = m b := by
  have hword : ∀ k, k ≤ 12 → ∀ m : Bytes, ∀ w, storeWord m (a + k) w b = m b := by
    intro k hk m w
    refine store_outside ?_
    unfold Outside at h ⊢
    omega
  unfold storeVec
  rw [hword 12 (by decide), hword 8 (by decide), hword 4 (by decide)]
  exact hword 0 (by decide) m (v 0)

/-- A cache line of a buffer is zeroed. -/
theorem bufAt_fill (m : Bytes) (a : Nat) (line : Nat) (row : Fin 34) :
    bufAt (m.fill (a + 32 * line) 0 32) a row =
      if row.val / 2 = line then fun _ => 0 else bufAt m a row := by
  funext col
  show loadWord (m.fill (a + 32 * line) 0 32) (a + 16 * row.val + 4 * col.val) = _
  split
  · next h =>
    have hzero : ∀ w b, a + 32 * line ≤ b → b + w ≤ a + 32 * line + 32 →
        (m.fill (a + 32 * line) 0 32).load w b = 0 := by
      intro w
      induction w with
      | zero => exact fun _ _ _ => rfl
      | succ w ih =>
        intro b hb hb'
        have hbyte : m.fill (a + 32 * line) 0 32 b = 0 := if_pos ⟨hb, by omega⟩
        show (m.fill (a + 32 * line) 0 32 b).toNat * 256 ^ w + _ = 0
        rw [hbyte, ih (b + 1) (by omega) (by omega)]
        exact Nat.zero_mul _
    show BitVec.ofNat 32 _ = 0
    rw [hzero 4 _ (by omega) (by omega)]
    rfl
  · refine loadWord_congr ?_
    intro x hx hx'
    exact fill_outside (by unfold Outside; omega)

/-- A buffer depends on its own bytes only. -/
theorem bufAt_congr {m m' : Bytes} {a : Nat} (h : AgreeOn m m' a bufSize) :
    bufAt m' a = bufAt m a := by
  funext row col
  refine loadWord_congr (h.mono ?_ ?_)
  · omega
  · unfold bufSize
    omega

/-! ## Instructions -/

inductive Gpr
  | r0
  | r4
  | r5
  | op0
  | op1
  | op2
  | op3
deriving DecidableEq

structure Cpu where
  gpr : Gpr → Word
  regs : VecRegs
  mem : Bytes

inductive Insn
  | mfvrsave (rd : Gpr)
  | mtvrsave (rs : Gpr)
  | li (rd : Gpr) (imm : Word)
  | addi (rd ra : Gpr) (imm : Word)
  | dcbt (ra rb : Gpr)
  | dcbz (ra rb : Gpr)
  | stvxl (v : Fin 32) (ra rb : Gpr)
  | lvxl (v : Fin 32) (ra rb : Gpr)
  | mfvscr (v : Fin 32)
  | mtvscr (v : Fin 32)
  | stw (rs : Gpr) (d : Word) (ra : Gpr)
  | lwz (rd : Gpr) (d : Word) (ra : Gpr)
  | stvewx (v : Fin 32) (ra rb : Gpr)
  | lvewx (v : Fin 32) (ra rb : Gpr)

/-- What an instruction writes. -/
inductive Write
  /-- The cache line at `a` is zeroed. -/
  | zero (a : Nat)
  /-- `n` bytes of data are stored at `a`. -/
  | data (a n : Nat)
deriving DecidableEq

/-- The base of an address: r0 stands for 0. -/
def baseReg (c : Cpu) (ra : Gpr) : Word := if ra = .r0 then 0 else c.gpr ra

/-- The effective address, down to a multiple of `n`. -/
def ea (c : Cpu) (n : Nat) (ra rb : Gpr) : Nat := (baseReg c ra + c.gpr rb).toNat / n * n

def setGpr (c : Cpu) (rd : Gpr) (w : Word) : Cpu := { c with gpr := Function.update c.gpr rd w }

def setV (c : Cpu) (v : Fin 32) (x : Vec) : Cpu :=
  { c with regs := { c.regs with v := Function.update c.regs.v v x } }

/-- The word of its row that an address is in. -/
def element (a : Nat) : Fin 4 := Fin.ofNat 4 (a / 4)

variable (undef : Vec)

def insnStep (c : Cpu) : Insn → Cpu × List Write
  | .mfvrsave rd => (setGpr c rd c.regs.vrsave, [])
  | .mtvrsave rs => ({ c with regs := { c.regs with vrsave := c.gpr rs } }, [])
  | .li rd imm => (setGpr c rd imm, [])
  | .addi rd ra imm => (setGpr c rd (baseReg c ra + imm), [])
  | .dcbt _ _ => (c, [])
  | .dcbz ra rb => ({ c with mem := c.mem.fill (ea c 32 ra rb) 0 32 }, [.zero (ea c 32 ra rb)])
  | .stvxl v ra rb =>
    ({ c with mem := storeVec c.mem (ea c 16 ra rb) (c.regs.v v) }, [.data (ea c 16 ra rb) 16])
  | .lvxl v ra rb => (setV c v (loadVec c.mem (ea c 16 ra rb)), [])
  | .mfvscr v => (setV c v fun col => if col = 3 then c.regs.vscr else 0, [])
  | .mtvscr v => ({ c with regs := { c.regs with vscr := c.regs.v v 3 } }, [])
  | .stw rs d ra =>
    let a := (baseReg c ra + d).toNat
    ({ c with mem := storeWord c.mem a (c.gpr rs) }, [.data a 4])
  | .lwz rd d ra => (setGpr c rd (loadWord c.mem (baseReg c ra + d).toNat), [])
  | .stvewx v ra rb =>
    let a := ea c 4 ra rb
    ({ c with mem := storeWord c.mem a (c.regs.v v (element a)) }, [.data a 4])
  | .lvewx v ra rb =>
    let a := ea c 4 ra rb
    (setV c v fun col => if col = element a then loadWord c.mem a else undef col, [])

/-! ## The macros -/

section Macros

variable (i : Nat) (b0 b1 b2 b3 ro ri rj : Gpr)

def stvx (b o : Gpr) : List Insn := [.stvxl (Fin.ofNat 32 i) b o]

def ldvx (b o : Gpr) : List Insn := [.lvxl (Fin.ofNat 32 i) b o]

def s4vec : List Insn :=
  stvx (i + 0) b0 ro ++ stvx (i + 1) b1 ro ++ stvx (i + 2) b2 ro ++ stvx (i + 3) b3 ro

def l4vec : List Insn :=
  ldvx (i + 0) b0 ro ++ ldvx (i + 1) b1 ro ++ ldvx (i + 2) b2 ro ++ ldvx (i + 3) b3 ro

def z4vec : List Insn := [.dcbz b0 ro, .dcbz b2 ro]

def p4vec : List Insn := .addi rj ri 64 :: z4vec b0 b2 rj

def l4veca : List Insn := l4vec i b0 b1 b2 b3 ro ++ [.addi ro ro 64]

def s4vecP : List Insn := p4vec b0 b2 ri rj ++ s4vec i b0 b1 b2 b3 ri

def s8vecP : List Insn :=
  s4vecP (i + 0) b0 b1 b2 b3 ri rj ++ s4vecP (i + 4) b0 b1 b2 b3 rj ri

def l8veca : List Insn := l4veca i b0 b1 b2 b3 ro ++ l4veca (i + 4) b0 b1 b2 b3 ro

def s32vec : List Insn :=
  s8vecP 0 b0 b1 b2 b3 ri rj ++ s8vecP 8 b0 b1 b2 b3 ri rj ++ s8vecP 16 b0 b1 b2 b3 ri rj ++
    s4vecP 24 b0 b1 b2 b3 ri rj ++ s4vec 28 b0 b1 b2 b3 rj

def l32vec : List Insn :=
  l8veca 0 b0 b1 b2 b3 ro ++ l8veca 8 b0 b1 b2 b3 ro ++ l8veca 16 b0 b1 b2 b3 ro ++
    l4veca 24 b0 b1 b2 b3 ro ++ l4vec 28 b0 b1 b2 b3 ro

end Macros

/-- The assembly of `save_vec_context`. -/
def saveInsns : List Insn :=
  [.mfvrsave .r0, .li .r5 32,
    -- the first line is not zeroed: BPTR is stored there
    .dcbt .r0 .op0,
    .dcbz .r5 .op0, .dcbz .r5 .op2] ++
  s32vec .op0 .op1 .op2 .op3 .r5 .r4 ++
  [.mfvscr 0, .stw .r0 0 .op0, .li .r5 12, .stvewx 0 .op0 .r5]

/-- The assembly of `load_vec_context`. -/
def loadInsns : List Insn :=
  [.lwz .r4 0 .op0, .mtvrsave .r4, .li .r4 12, .lvewx 0 .r4 .op0, .mtvscr 0, .addi .r4 .r4 20] ++
  l32vec .op0 .op1 .op2 .op3 .r4

/-! ## Addresses -/

/-- A buffer as `extalloc` aligns it. -/
structure Buffer (base : Word) : Prop where
  aligned : base.toNat % 32 = 0
  fits : base.toNat + bufSize ≤ 2 ^ 32

/-- The operands `*buf+0` to `*buf+3`. -/
structure Operands (base : Word) (c : Cpu) : Prop where
  op0 : c.gpr .op0 = base
  op1 : c.gpr .op1 = base + 16
  op2 : c.gpr .op2 = base + 32
  op3 : c.gpr .op3 = base + 48

variable {base : Word} {c c₀ : Cpu}

theorem offset_toNat (hb : Buffer base) {d : Nat} (hd : d < bufSize) :
    (base + BitVec.ofNat 32 d).toNat = base.toNat + d := by
  have hfits := hb.fits
  unfold bufSize at hd hfits
  rw [BitVec.toNat_add, BitVec.toNat_ofNat]
  omega

theorem ea_offset (hb : Buffer base) {ra rb : Gpr} {d n : Nat}
    (hsum : baseReg c ra + c.gpr rb = base + BitVec.ofNat 32 d) (hd : d < bufSize)
    (hn : n = 4 ∨ n = 16 ∨ n = 32) (hdn : d % n = 0) : ea c n ra rb = base.toNat + d := by
  have haligned := hb.aligned
  unfold ea
  rw [hsum, offset_toNat hb hd]
  rcases hn with rfl | rfl | rfl <;> omega

/-- The base of a row of a group, and its index: together they are its offset. -/
theorem base_index {x y : Word} {k off : Nat} (hx : x = base + BitVec.ofNat 32 k)
    (hy : y = BitVec.ofNat 32 off) : x + y = base + BitVec.ofNat 32 (k + off) := by
  rw [hx, hy, BitVec.ofNat_add, BitVec.add_assoc]

theorem index_next {y : Word} {off : Nat} (hy : y = BitVec.ofNat 32 off) :
    y + 64 = BitVec.ofNat 32 (off + 64) := by
  rw [hy, BitVec.ofNat_add]
  rfl

/-- The address of the `k`-th row of the `n`-th group. -/
theorem row_address {n : Nat} {ro : Gpr} (hro : c.gpr ro = BitVec.ofNat 32 (64 * n + 32))
    {c' : Cpu} {k : Nat} {op : Gpr} (hop : op ≠ .r0) (hgpr : c'.gpr = c.gpr)
    (hk : c.gpr op = base + BitVec.ofNat 32 (16 * k)) :
    baseReg c' op + c'.gpr ro = base + BitVec.ofNat 32 (16 * (4 * n + k + 2)) := by
  have hsize : 16 * k + (64 * n + 32) = 16 * (4 * n + k + 2) := by omega
  unfold baseReg
  rw [if_neg hop, hgpr, base_index hk hro, hsize]

/-- Four rows in turn: what one row does, with `P` counting the rows that are done. -/
theorem four_rows {P : Nat → Cpu → Prop} {insns : Nat → Gpr → Gpr → List Insn}
    {writes : Nat → List Write} (hop : ∀ {n c}, P n c → Operands base c)
    (hone : ∀ {n : Nat} {c : Cpu} {ra rb : Gpr}, P n c →
      baseReg c ra + c.gpr rb = base + BitVec.ofNat 32 (16 * (n + 2)) → n < 32 →
      ∃ c', Runs (insnStep undef) c (insns n ra rb) c' (writes n) ∧ P (n + 1) c' ∧
        c'.gpr = c.gpr)
    {n : Nat} (h : P (4 * n) c) {ro : Gpr} (hro : c.gpr ro = BitVec.ofNat 32 (64 * n + 32))
    (hn : n < 8) :
    ∃ c', Runs (insnStep undef) c
        (insns (4 * n) .op0 ro ++ insns (4 * n + 1) .op1 ro ++ insns (4 * n + 2) .op2 ro ++
          insns (4 * n + 3) .op3 ro) c'
        (writes (4 * n) ++ writes (4 * n + 1) ++ writes (4 * n + 2) ++ writes (4 * n + 3)) ∧
      P (4 * n + 4) c' ∧ c'.gpr = c.gpr := by
  have hops := hop h
  obtain ⟨c1, hrun1, h1, hg1⟩ := hone h
    (row_address hro (k := 0) (by decide) rfl (hops.op0.trans (BitVec.add_zero base).symm))
    (by omega)
  obtain ⟨c2, hrun2, h2, hg2⟩ := hone h1
    (row_address hro (k := 1) (by decide) hg1 hops.op1) (by omega)
  have hg2' := hg2.trans hg1
  obtain ⟨c3, hrun3, h3, hg3⟩ := hone h2
    (row_address hro (k := 2) (by decide) hg2' hops.op2) (by omega)
  have hg3' := hg3.trans hg2'
  obtain ⟨c4, hrun4, h4, hg4⟩ := hone h3
    (row_address hro (k := 3) (by decide) hg3' hops.op3) (by omega)
  exact ⟨c4, ((hrun1.append hrun2).append hrun3).append hrun4, h4, hg4.trans hg3'⟩

/-! ## Saving -/

def Write.shift (a : Nat) : Write → Write
  | .zero b => .zero (a + b)
  | .data b n => .data (a + b) n

def lineWrite (line : Nat) : Write := .zero (32 * line)

def vecWrite (i : Nat) : Write := .data (16 * (i + 2)) 16

theorem vecRow_lt (i : Fin 32) : i.val + 2 < 34 := by omega

/-- The row of `v_i`. -/
def vecRow (i : Fin 32) : Fin 34 := ⟨i.val + 2, vecRow_lt i⟩

/-- The first `n` vector registers are saved. -/
structure Saved (base : Word) (c₀ : Cpu) (n : Nat) (c : Cpu) : Prop where
  operands : Operands base c
  regs : c.regs = c₀.regs
  r0 : c.gpr .r0 = c₀.regs.vrsave
  head : ∀ row : Fin 34, row.val < 2 →
    bufAt c.mem base.toNat row = bufAt c₀.mem base.toNat row
  rows : ∀ i : Fin 32, i.val < n → bufAt c.mem base.toNat (vecRow i) = c₀.regs.v i
  outside : ∀ b, Outside base.toNat bufSize b → c.mem b = c₀.mem b

/-- A line behind what is saved may be zeroed. -/
theorem saved_dcbz (hb : Buffer base) {n line : Nat} (h : Saved base c₀ n c) {ra rb : Gpr}
    (hsum : baseReg c ra + c.gpr rb = base + BitVec.ofNat 32 (32 * line))
    (hn : n + 2 ≤ 2 * line) (hline : line < 17) :
    ∃ c', Runs (insnStep undef) c [.dcbz ra rb] c' [(lineWrite line).shift base.toNat] ∧
      Saved base c₀ n c' ∧ c'.gpr = c.gpr := by
  have hea : ea c 32 ra rb = base.toNat + 32 * line :=
    ea_offset hb hsum (by unfold bufSize; omega) (Or.inr (Or.inr rfl)) (Nat.mul_mod_right 32 line)
  have hrun := runs_one (insnStep undef) c (.dcbz ra rb)
  unfold insnStep at hrun
  dsimp only at hrun
  rw [hea] at hrun
  refine ⟨_, hrun, ⟨⟨h.operands.1, h.operands.2, h.operands.3, h.operands.4⟩, h.regs, h.r0,
    ?_, ?_, ?_⟩, rfl⟩
  · intro row hrow
    dsimp only
    rw [bufAt_fill, if_neg (by omega)]
    exact h.head row hrow
  · intro i hi
    have hrow : (vecRow i).val = i.val + 2 := rfl
    dsimp only
    rw [bufAt_fill, if_neg (by omega)]
    exact h.rows i hi
  · intro b hout
    refine Eq.trans (fill_outside ?_) (h.outside b hout)
    unfold Outside bufSize at hout
    unfold Outside
    omega

theorem saved_stvx (hb : Buffer base) {n : Nat} (h : Saved base c₀ n c) {ra rb : Gpr}
    (hsum : baseReg c ra + c.gpr rb = base + BitVec.ofNat 32 (16 * (n + 2))) (hn : n < 32) :
    ∃ c', Runs (insnStep undef) c (stvx n ra rb) c' [(vecWrite n).shift base.toNat] ∧
      Saved base c₀ (n + 1) c' ∧ c'.gpr = c.gpr := by
  have hea : ea c 16 ra rb = base.toNat + 16 * (n + 2) :=
    ea_offset hb hsum (by unfold bufSize; omega) (Or.inr (Or.inl rfl)) (Nat.mul_mod_right 16 _)
  have hrun := runs_one (insnStep undef) c (.stvxl (Fin.ofNat 32 n) ra rb)
  unfold insnStep at hrun
  dsimp only at hrun
  rw [hea] at hrun
  have hval : (Fin.ofNat 32 n).val = n := Nat.mod_eq_of_lt hn
  have hbuf : ∀ v, bufAt (storeVec c.mem (base.toNat + 16 * (n + 2)) v) base.toNat =
      Function.update (bufAt c.mem base.toNat) (vecRow (Fin.ofNat 32 n)) v := by
    intro v
    rw [← bufAt_storeVec]
    show _ = bufAt (storeVec c.mem (base.toNat + 16 * ((Fin.ofNat 32 n).val + 2)) v) base.toNat
    rw [hval]
  refine ⟨_, hrun, ⟨⟨h.operands.1, h.operands.2, h.operands.3, h.operands.4⟩, h.regs, h.r0,
    ?_, ?_, ?_⟩, rfl⟩
  · intro row hrow
    have hne : row ≠ vecRow (Fin.ofNat 32 n) := by
      intro heq
      have hge : row.val = n + 2 := (congrArg Fin.val heq).trans (congrArg (· + 2) hval)
      omega
    dsimp only
    rw [hbuf, Function.update_of_ne hne]
    exact h.head row hrow
  · intro i hi
    dsimp only
    rw [hbuf]
    by_cases heq : i = Fin.ofNat 32 n
    · rw [heq, Function.update_self, h.regs]
    · have hne : vecRow i ≠ vecRow (Fin.ofNat 32 n) := by
        intro hrow
        exact heq (Fin.ext (Nat.add_right_cancel (congrArg Fin.val hrow)))
      have hlt : i.val ≠ n := fun h => heq (Fin.ext (h.trans hval.symm))
      rw [Function.update_of_ne hne]
      exact h.rows i (by omega)
  · intro b hout
    refine Eq.trans (storeVec_outside ?_ _) (h.outside b hout)
    unfold Outside bufSize at hout
    unfold Outside
    omega

/-- What the macro for four registers writes. -/
def vecWrites (n : Nat) : List Write :=
  [vecWrite (4 * n), vecWrite (4 * n + 1), vecWrite (4 * n + 2), vecWrite (4 * n + 3)]

theorem s4vec_runs (hb : Buffer base) {n : Nat} (h : Saved base c₀ (4 * n) c) {ro : Gpr}
    (hro : c.gpr ro = BitVec.ofNat 32 (64 * n + 32)) (hn : n < 8) :
    ∃ c', Runs (insnStep undef) c (s4vec (4 * n) .op0 .op1 .op2 .op3 ro) c'
        ((vecWrites n).map (Write.shift base.toNat)) ∧
      Saved base c₀ (4 * n + 4) c' ∧ c'.gpr = c.gpr :=
  four_rows undef Saved.operands (fun h => saved_stvx undef hb h) h hro hn

/-- What the macro for four registers and the next two lines writes. -/
def groupWrites (n : Nat) : List Write :=
  [lineWrite (2 * n + 3), lineWrite (2 * n + 4)] ++ vecWrites n

/-- An index register. -/
def IsIndex (r : Gpr) : Prop := r = .r4 ∨ r = .r5

theorem saved_setGpr {n : Nat} (h : Saved base c₀ n c) {r : Gpr} (hr : IsIndex r) (w : Word) :
    Saved base c₀ n (setGpr c r w) := by
  have hne : ∀ r', r' ≠ .r4 → r' ≠ .r5 → (setGpr c r w).gpr r' = c.gpr r' := by
    intro r' h4 h5
    refine Function.update_of_ne ?_ ..
    rcases hr with rfl | rfl
    · exact h4
    · exact h5
  refine ⟨⟨?_, ?_, ?_, ?_⟩, h.regs, ?_, h.head, h.rows, h.outside⟩
  · exact (hne _ (by decide) (by decide)).trans h.operands.op0
  · exact (hne _ (by decide) (by decide)).trans h.operands.op1
  · exact (hne _ (by decide) (by decide)).trans h.operands.op2
  · exact (hne _ (by decide) (by decide)).trans h.operands.op3
  · exact (hne _ (by decide) (by decide)).trans h.r0

theorem s4vecP_runs (hb : Buffer base) {n : Nat} (h : Saved base c₀ (4 * n) c) {ri rj : Gpr}
    (hri : IsIndex ri) (hrj : IsIndex rj) (hij : ri ≠ rj)
    (hindex : c.gpr ri = BitVec.ofNat 32 (64 * n + 32)) (hn : n < 7) :
    ∃ c', Runs (insnStep undef) c (s4vecP (4 * n) .op0 .op1 .op2 .op3 ri rj) c'
        ((groupWrites n).map (Write.shift base.toNat)) ∧
      Saved base c₀ (4 * (n + 1)) c' ∧ c'.gpr rj = BitVec.ofNat 32 (64 * (n + 1) + 32) := by
  have hri0 : ri ≠ .r0 := by rcases hri with rfl | rfl <;> decide
  -- the other index register points to the group behind
  have hnext : baseReg c ri + 64 = BitVec.ofNat 32 (64 * (n + 1) + 32) := by
    unfold baseReg
    rw [if_neg hri0, index_next hindex]
    congr 1
  have hrun0 := runs_one (insnStep undef) c (.addi rj ri 64)
  have hs0 := saved_setGpr h hrj (baseReg c ri + 64)
  have hj0 : (setGpr c rj (baseReg c ri + 64)).gpr rj = BitVec.ofNat 32 (64 * (n + 1) + 32) :=
    (Function.update_self ..).trans hnext
  have hi0 : (setGpr c rj (baseReg c ri + 64)).gpr ri = BitVec.ofNat 32 (64 * n + 32) :=
    (Function.update_of_ne hij ..).trans hindex
  change Runs (insnStep undef) c [.addi rj ri 64] (setGpr c rj (baseReg c ri + 64)) [] at hrun0
  generalize setGpr c rj (baseReg c ri + 64) = c0 at hrun0 hs0 hj0 hi0
  have hsum : ∀ {c' : Cpu} {k line : Nat} {op : Gpr}, op ≠ .r0 → c'.gpr = c0.gpr →
      c0.gpr op = base + BitVec.ofNat 32 (32 * k) → line = 2 * n + 3 + k →
      baseReg c' op + c'.gpr rj = base + BitVec.ofNat 32 (32 * line) := by
    intro c' k line op hop hgpr hk hline
    have hsize : 32 * k + (64 * (n + 1) + 32) = 32 * line := by omega
    unfold baseReg
    rw [if_neg hop, hgpr, base_index hk hj0, hsize]
  obtain ⟨c1, hrun1, hs1, hg1⟩ := saved_dcbz undef hb hs0
    (hsum (k := 0) (by decide) rfl (hs0.operands.op0.trans (BitVec.add_zero base).symm) rfl)
    (by omega) (by omega)
  obtain ⟨c2, hrun2, hs2, hg2⟩ := saved_dcbz undef hb hs1
    (hsum (k := 1) (by decide) hg1 hs0.operands.op2 rfl) (by omega) (by omega)
  have hg2' := hg2.trans hg1
  obtain ⟨c3, hrun3, hs3, hg3⟩ := s4vec_runs undef hb hs2
    ((congrFun hg2' ri).trans hi0) (by omega)
  refine ⟨c3, ((hrun0.append hrun1).append hrun2).append hrun3, hs3, ?_⟩
  exact (congrFun (hg3.trans hg2') rj).trans hj0

/-- The groups from the `n`-th on, with the two index registers in turn. -/
def groups (n : Nat) : Nat → Gpr → Gpr → List Insn
  | 0, _, _ => []
  | k + 1, ri, rj => s4vecP (4 * n) .op0 .op1 .op2 .op3 ri rj ++ groups (n + 1) k rj ri

theorem s32vec_code : s32vec .op0 .op1 .op2 .op3 .r5 .r4 =
    groups 0 7 .r5 .r4 ++ s4vec 28 .op0 .op1 .op2 .op3 .r4 := rfl

theorem groups_runs (hb : Buffer base) {n k : Nat} (h : Saved base c₀ (4 * n) c) {ri rj : Gpr}
    (hri : IsIndex ri) (hrj : IsIndex rj) (hij : ri ≠ rj)
    (hindex : c.gpr ri = BitVec.ofNat 32 (64 * n + 32)) (hn : n + k ≤ 7) :
    ∃ c', Runs (insnStep undef) c (groups n k ri rj) c'
        (((List.range' n k).flatMap groupWrites).map (Write.shift base.toNat)) ∧
      Saved base c₀ (4 * (n + k)) c' ∧
      c'.gpr (if k % 2 = 0 then ri else rj) = BitVec.ofNat 32 (64 * (n + k) + 32) := by
  induction k generalizing n c ri rj with
  | zero => exact ⟨c, ⟨rfl, rfl⟩, h, hindex⟩
  | succ k ih =>
    obtain ⟨c1, hrun1, hs1, hj1⟩ := s4vecP_runs undef hb h hri hrj hij hindex (by omega)
    obtain ⟨c2, hrun2, hs2, hlast⟩ := ih hs1 hrj hri hij.symm hj1 (by omega)
    have hcount : n + 1 + k = n + (k + 1) := by omega
    rw [hcount] at hs2 hlast
    refine ⟨c2, ?_, hs2, ?_⟩
    · rw [List.range'_succ, List.flatMap_cons, List.map_append]
      exact hrun1.append hrun2
    · by_cases hk : k % 2 = 0
      · rw [if_pos hk] at hlast
        rw [if_neg (by omega)]
        exact hlast
      · rw [if_neg hk] at hlast
        rw [if_pos (by omega)]
        exact hlast

/-- Everything that a save writes, relative to the buffer. -/
def saveWrites : List Write :=
  [lineWrite 1, lineWrite 2] ++ (List.range' 0 7).flatMap groupWrites ++ vecWrites 7 ++
    [.data 0 4, .data 12 4]

/-- What a save leaves behind. -/
structure SavedAll (base : Word) (c₀ c : Cpu) : Prop where
  operands : Operands base c
  buf : bufAt c.mem base.toNat = (saveVecContext c₀.regs (bufAt c₀.mem base.toNat)).1
  regs : c.regs = (saveVecContext c₀.regs (bufAt c₀.mem base.toNat)).2
  outside : ∀ b, Outside base.toNat bufSize b → c.mem b = c₀.mem b

/-- All the rows and the two words of the first: that is the saved context. -/
theorem setWord_saved {saved buf : VecCtxtBuf} {r : VecRegs}
    (hhead : ∀ row : Fin 34, row.val < 2 → saved row = buf row)
    (hrows : ∀ i, saved (vecRow i) = r.v i) :
    setWord (setWord saved 0 r.vrsave) 3 r.vscr = (saveVecContext r buf).1 := by
  funext row col
  unfold saveVecContext setWord
  dsimp only
  by_cases htwo : 2 ≤ row.val
  · have hne : row ≠ 0 := fun h => by rw [h] at htwo; cases htwo
    have hrow : row = vecRow ⟨row.val - 2, by omega⟩ := by
      refine Fin.ext ?_
      show row.val = row.val - 2 + 2
      omega
    rw [dif_pos htwo, Function.update_of_ne hne, Function.update_of_ne hne]
    exact congrFun ((congrArg saved hrow).trans (hrows _)) col
  · rw [dif_neg htwo]
    by_cases hzero : row = 0
    · subst hzero
      rw [Function.update_self, Function.update_self]
      have hcol : col = 0 ∨ col = 1 ∨ col = 2 ∨ col = 3 := by omega
      rcases hcol with rfl | rfl | rfl | rfl
      · rfl
      · exact congrFun (hhead 0 (by decide)) 1
      · exact congrFun (hhead 0 (by decide)) 2
      · rfl
    · rw [Function.update_of_ne hzero, Function.update_of_ne hzero, if_neg fun h => hzero h.1,
        if_neg fun h => hzero h.1]
      exact congrFun (hhead row (by omega)) col

theorem saved_start (h : Operands base c₀) :
    Saved base c₀ 0 (setGpr (setGpr c₀ .r0 c₀.regs.vrsave) .r5 32) :=
  ⟨⟨h.op0, h.op1, h.op2, h.op3⟩, rfl, rfl, fun _ _ => rfl,
    fun _ hi => absurd hi (Nat.not_lt_zero _), fun _ _ => rfl⟩

/-- The instructions in front of the macro. -/
theorem saved_head (hb : Buffer base) (h : Operands base c₀) :
    ∃ c', Runs (insnStep undef) c₀ [.mfvrsave .r0, .li .r5 32, .dcbt .r0 .op0, .dcbz .r5 .op0,
        .dcbz .r5 .op2] c' ([lineWrite 1, lineWrite 2].map (Write.shift base.toNat)) ∧
      Saved base c₀ 0 c' ∧ c'.gpr .r5 = BitVec.ofNat 32 32 := by
  have hs0 := saved_start h
  have hrun0 : Runs (insnStep undef) c₀ [.mfvrsave .r0, .li .r5 32, .dcbt .r0 .op0]
      (setGpr (setGpr c₀ .r0 c₀.regs.vrsave) .r5 32) [] := ⟨rfl, rfl⟩
  have h5 : (setGpr (setGpr c₀ .r0 c₀.regs.vrsave) .r5 32).gpr .r5 = BitVec.ofNat 32 32 := rfl
  generalize setGpr (setGpr c₀ .r0 c₀.regs.vrsave) .r5 32 = c0 at hs0 hrun0 h5
  have hsum : ∀ {c' : Cpu} {op : Gpr} (k line : Nat), c'.gpr = c0.gpr →
      c0.gpr op = base + BitVec.ofNat 32 (32 * k) → line = k + 1 →
      baseReg c' .r5 + c'.gpr op = base + BitVec.ofNat 32 (32 * line) := by
    intro c' op k line hgpr hk hline
    have hsize : 32 * k + 32 = 32 * line := by omega
    show c'.gpr .r5 + c'.gpr op = _
    rw [hgpr, BitVec.add_comm, base_index hk h5, hsize]
  obtain ⟨c1, hrun1, hs1, hg1⟩ := saved_dcbz undef hb hs0
    (hsum 0 1 rfl (hs0.operands.op0.trans (BitVec.add_zero base).symm) rfl) (by decide) (by decide)
  obtain ⟨c2, hrun2, hs2, hg2⟩ := saved_dcbz undef hb hs1
    (hsum 1 2 hg1 hs0.operands.op2 rfl) (by decide) (by decide)
  refine ⟨c2, (hrun0.append hrun1).append hrun2, hs2, ?_⟩
  exact (congrFun (hg2.trans hg1) .r5).trans h5

/-- The instructions behind it: VRSAVE and VSCR go to the first row. -/
theorem saved_tail (hb : Buffer base) (h : Saved base c₀ 32 c) :
    ∃ c', Runs (insnStep undef) c [.mfvscr 0, .stw .r0 0 .op0, .li .r5 12, .stvewx 0 .op0 .r5] c'
        ([Write.data 0 4, .data 12 4].map (Write.shift base.toNat)) ∧ SavedAll base c₀ c' := by
  have hzero : (base + 0).toNat = base.toNat := congrArg BitVec.toNat (BitVec.add_zero base)
  have haligned := hb.aligned
  have htwelve : (base + 12).toNat / 4 * 4 = base.toNat + 12 := by
    have hoff := offset_toNat hb (d := 12) (by decide)
    change (base + 12).toNat = base.toNat + 12 at hoff
    rw [hoff]
    omega
  have helement : element (base.toNat + 12) = 3 := by
    refine Fin.ext ?_
    show (base.toNat + 12) / 4 % 4 = 3
    omega
  have hrun : Runs (insnStep undef) c [.mfvscr 0, .stw .r0 0 .op0, .li .r5 12, .stvewx 0 .op0 .r5]
      ⟨Function.update c.gpr .r5 12,
        { c.regs with
          v := Function.update c.regs.v 0 fun col => if col = 3 then c.regs.vscr else 0 },
        storeWord (storeWord c.mem base.toNat c₀.regs.vrsave) (base.toNat + 12) c.regs.vscr⟩
      [.data base.toNat 4, .data (base.toNat + 12) 4] := by
    unfold Runs
    simp only [emits_cons, emits_nil, after_cons, after_nil, insnStep, ea, baseReg, setGpr, setV,
      Function.update_self, Function.update_of_ne, ne_eq, reduceCtorEq, not_false_eq_true,
      if_false, h.operands.op0, h.r0, hzero, htwelve, helement, if_true, List.flatten_cons,
      List.flatten_nil, List.nil_append, List.cons_append, and_self]
  refine ⟨_, hrun, ⟨?_, ?_, ?_, ?_⟩⟩
  · exact ⟨h.operands.op0, h.operands.op1, h.operands.op2, h.operands.op3⟩
  · have hw0 : ∀ m w, bufAt (storeWord m base.toNat w) base.toNat =
        setWord (bufAt m base.toNat) 0 w := fun m w => bufAt_storeWord m base.toNat 0 0 w
    have hw3 : ∀ m w, bufAt (storeWord m (base.toNat + 12) w) base.toNat =
        setWord (bufAt m base.toNat) 3 w := fun m w => bufAt_storeWord m base.toNat 0 3 w
    dsimp only
    rw [hw3, hw0, h.regs]
    exact setWord_saved h.head fun i => h.rows i i.isLt
  · dsimp only
    rw [h.regs]
    rfl
  · intro b hout
    have hword : ∀ a, base.toNat ≤ a → a + 4 ≤ base.toNat + bufSize → ∀ m : Bytes, ∀ w,
        storeWord m a w b = m b := by
      intro a ha ha' m w
      refine store_outside ?_
      unfold Outside at hout ⊢
      omega
    dsimp only
    rw [hword _ (by omega) (by unfold bufSize; omega),
      hword _ (by omega) (by unfold bufSize; omega)]
    exact h.outside b hout

/-- The assembly saves what `saveVecContext` saves, and writes `saveWrites`. -/
theorem save_insns (hb : Buffer base) (h : Operands base c) :
    ∃ c', Runs (insnStep undef) c saveInsns c' (saveWrites.map (Write.shift base.toNat)) ∧
      SavedAll base c c' := by
  obtain ⟨c1, hrun1, hs1, h5⟩ := saved_head undef hb h
  obtain ⟨c2, hrun2, hs2, h4⟩ := groups_runs undef hb (n := 0) (k := 7) hs1 (Or.inr rfl)
    (Or.inl rfl) (by decide) h5 (by decide)
  obtain ⟨c3, hrun3, hs3, -⟩ := s4vec_runs undef hb (n := 7) hs2 h4 (by decide)
  obtain ⟨c4, hrun4, hall⟩ := saved_tail undef hb hs3
  refine ⟨c4, ?_, hall⟩
  have hrun := (hrun1.append (hrun2.append hrun3)).append hrun4
  rw [← List.map_append, ← List.map_append, ← List.map_append, ← List.append_assoc] at hrun
  unfold saveInsns
  rw [s32vec_code]
  exact hrun

/-! ## Loading -/

/-- The first `n` vector registers are loaded. -/
structure Loaded (base : Word) (c₀ : Cpu) (n : Nat) (c : Cpu) : Prop where
  operands : Operands base c
  mem : c.mem = c₀.mem
  vscr : c.regs.vscr = vscrOf (bufAt c₀.mem base.toNat)
  vrsave : c.regs.vrsave = vrsaveOf (bufAt c₀.mem base.toNat)
  rows : ∀ i : Fin 32, i.val < n → c.regs.v i = bufAt c₀.mem base.toNat (vecRow i)

theorem loaded_ldvx (hb : Buffer base) {n : Nat} (h : Loaded base c₀ n c) {ra rb : Gpr}
    (hsum : baseReg c ra + c.gpr rb = base + BitVec.ofNat 32 (16 * (n + 2))) (hn : n < 32) :
    ∃ c', Runs (insnStep undef) c (ldvx n ra rb) c' [] ∧ Loaded base c₀ (n + 1) c' ∧
      c'.gpr = c.gpr := by
  have hea : ea c 16 ra rb = base.toNat + 16 * (n + 2) :=
    ea_offset hb hsum (by unfold bufSize; omega) (Or.inr (Or.inl rfl)) (Nat.mul_mod_right 16 _)
  have hval : (Fin.ofNat 32 n).val = n := Nat.mod_eq_of_lt hn
  have hrow : loadVec c.mem (ea c 16 ra rb) =
      bufAt c₀.mem base.toNat (vecRow (Fin.ofNat 32 n)) := by
    rw [hea, h.mem]
    show _ = loadVec c₀.mem (base.toNat + 16 * ((Fin.ofNat 32 n).val + 2))
    rw [hval]
  have hrun := runs_one (insnStep undef) c (.lvxl (Fin.ofNat 32 n) ra rb)
  refine ⟨_, hrun, ⟨⟨h.operands.1, h.operands.2, h.operands.3, h.operands.4⟩, h.mem, h.vscr,
    h.vrsave, ?_⟩, rfl⟩
  intro i hi
  show Function.update c.regs.v (Fin.ofNat 32 n) (loadVec c.mem (ea c 16 ra rb)) i = _
  by_cases heq : i = Fin.ofNat 32 n
  · rw [heq, Function.update_self, hrow]
  · have hlt : i.val ≠ n := fun h => heq (Fin.ext (h.trans hval.symm))
    rw [Function.update_of_ne heq]
    exact h.rows i (by omega)

theorem l4vec_runs (hb : Buffer base) {n : Nat} (h : Loaded base c₀ (4 * n) c) {ro : Gpr}
    (hro : c.gpr ro = BitVec.ofNat 32 (64 * n + 32)) (hn : n < 8) :
    ∃ c', Runs (insnStep undef) c (l4vec (4 * n) .op0 .op1 .op2 .op3 ro) c' [] ∧
      Loaded base c₀ (4 * n + 4) c' ∧ c'.gpr = c.gpr :=
  four_rows undef Loaded.operands (fun h => loaded_ldvx undef hb h) h hro hn

theorem l4veca_runs (hb : Buffer base) {n : Nat} (h : Loaded base c₀ (4 * n) c)
    (hindex : c.gpr .r4 = BitVec.ofNat 32 (64 * n + 32)) (hn : n < 8) :
    ∃ c', Runs (insnStep undef) c (l4veca (4 * n) .op0 .op1 .op2 .op3 .r4) c' [] ∧
      Loaded base c₀ (4 * (n + 1)) c' ∧
      c'.gpr .r4 = BitVec.ofNat 32 (64 * (n + 1) + 32) := by
  obtain ⟨c1, hrun1, hs1, hg1⟩ := l4vec_runs undef hb h hindex hn
  have hrun2 := runs_one (insnStep undef) c1 (.addi .r4 .r4 64)
  refine ⟨_, hrun1.append hrun2, ?_, ?_⟩
  · exact ⟨⟨hs1.operands.op0, hs1.operands.op1, hs1.operands.op2, hs1.operands.op3⟩, hs1.mem,
      hs1.vscr, hs1.vrsave, hs1.rows⟩
  · have hold : c1.gpr .r4 = BitVec.ofNat 32 (64 * n + 32) := (congrFun hg1 .r4).trans hindex
    exact index_next hold

/-- The groups from the `n`-th on. -/
def loadGroups (n : Nat) : Nat → List Insn
  | 0 => []
  | k + 1 => l4veca (4 * n) .op0 .op1 .op2 .op3 .r4 ++ loadGroups (n + 1) k

theorem l32vec_code : l32vec .op0 .op1 .op2 .op3 .r4 =
    loadGroups 0 7 ++ l4vec 28 .op0 .op1 .op2 .op3 .r4 := rfl

theorem loadGroups_runs (hb : Buffer base) {n k : Nat} (h : Loaded base c₀ (4 * n) c)
    (hindex : c.gpr .r4 = BitVec.ofNat 32 (64 * n + 32)) (hn : n + k ≤ 7) :
    ∃ c', Runs (insnStep undef) c (loadGroups n k) c' [] ∧ Loaded base c₀ (4 * (n + k)) c' ∧
      c'.gpr .r4 = BitVec.ofNat 32 (64 * (n + k) + 32) := by
  induction k generalizing n c with
  | zero => exact ⟨c, ⟨rfl, rfl⟩, h, hindex⟩
  | succ k ih =>
    obtain ⟨c1, hrun1, hs1, hi1⟩ := l4veca_runs undef hb h hindex (by omega)
    obtain ⟨c2, hrun2, hs2, hi2⟩ := ih hs1 hi1 (by omega)
    have hcount : n + 1 + k = n + (k + 1) := by omega
    rw [hcount] at hs2 hi2
    exact ⟨c2, hrun1.append hrun2, hs2, hi2⟩

theorem lwz_vrsave (h : Operands base c) :
    insnStep undef c (.lwz .r4 0 .op0) =
      (setGpr c .r4 (vrsaveOf (bufAt c.mem base.toNat)), []) := by
  have hzero : (c.gpr .op0 + 0).toNat = base.toNat :=
    congrArg BitVec.toNat ((BitVec.add_zero _).trans h.op0)
  show (setGpr c .r4 (loadWord c.mem (c.gpr .op0 + 0).toNat), []) = _
  rw [hzero, vrsaveOf_bufAt]

theorem lvewx_vscr (hb : Buffer base) (h : Operands base c) (h4 : c.gpr .r4 = 12) :
    insnStep undef c (.lvewx 0 .r4 .op0) =
      (setV c 0 fun col => if col = 3 then vscrOf (bufAt c.mem base.toNat) else undef col,
        []) := by
  have haligned := hb.aligned
  have hsum : baseReg c .r4 + c.gpr .op0 = base + BitVec.ofNat 32 12 := by
    show c.gpr .r4 + c.gpr .op0 = base + 12
    rw [h4, h.op0, BitVec.add_comm]
  have hea : ea c 4 .r4 .op0 = base.toNat + 12 :=
    ea_offset hb hsum (by decide) (Or.inl rfl) rfl
  have helement : element (base.toNat + 12) = 3 := by
    refine Fin.ext ?_
    show (base.toNat + 12) / 4 % 4 = 3
    omega
  unfold insnStep
  dsimp only
  rw [hea, helement, vscrOf_bufAt]

/-- The instructions in front of the macro: VRSAVE and VSCR. -/
theorem loaded_head (hb : Buffer base) (h : Operands base c₀) :
    ∃ c', Runs (insnStep undef) c₀ [.lwz .r4 0 .op0, .mtvrsave .r4, .li .r4 12, .lvewx 0 .r4 .op0,
        .mtvscr 0, .addi .r4 .r4 20] c' [] ∧
      Loaded base c₀ 0 c' ∧ c'.gpr .r4 = BitVec.ofNat 32 32 := by
  -- VRSAVE is loaded, and the index of VSCR
  obtain ⟨c1, hrun1, hop, hmem, h4, hvrsave⟩ :
      ∃ c1, Runs (insnStep undef) c₀ [.lwz .r4 0 .op0, .mtvrsave .r4, .li .r4 12] c1 [] ∧
        Operands base c1 ∧ c1.mem = c₀.mem ∧ c1.gpr .r4 = 12 ∧
        c1.regs.vrsave = vrsaveOf (bufAt c₀.mem base.toNat) := by
    have hlwz := runs_one (insnStep undef) c₀ (.lwz .r4 0 .op0)
    rw [lwz_vrsave undef h] at hlwz
    refine ⟨_, (hlwz.append (runs_one (insnStep undef) _ (.mtvrsave .r4))).append
      (runs_one (insnStep undef) _ (.li .r4 12)), ⟨h.op0, h.op1, h.op2, h.op3⟩, rfl, rfl, ?_⟩
    show Function.update c₀.gpr .r4 (vrsaveOf (bufAt c₀.mem base.toNat)) .r4 = _
    rw [Function.update_self]
  have hlvewx := runs_one (insnStep undef) c1 (.lvewx 0 .r4 .op0)
  rw [lvewx_vscr undef hb hop h4, hmem] at hlvewx
  refine ⟨_, ((hrun1.append hlvewx).append (runs_one (insnStep undef) _ (.mtvscr 0))).append
    (runs_one (insnStep undef) _ (.addi .r4 .r4 20)),
    ⟨⟨hop.op0, hop.op1, hop.op2, hop.op3⟩, hmem, ?_, hvrsave,
      fun _ hi => absurd hi (Nat.not_lt_zero _)⟩, ?_⟩
  · show Function.update c1.regs.v 0 (fun col : Fin 4 =>
      if col = 3 then vscrOf (bufAt c₀.mem base.toNat) else undef col) 0 3 = _
    rw [Function.update_self, if_pos rfl]
  · show c1.gpr .r4 + 20 = _
    rw [h4]
    rfl

/-- The assembly loads what `loadVecContext` loads, and writes nothing. -/
theorem load_insns (hb : Buffer base) (h : Operands base c) :
    ∃ c', Runs (insnStep undef) c loadInsns c' [] ∧ c'.mem = c.mem ∧
      c'.regs = loadVecContext (bufAt c.mem base.toNat) := by
  obtain ⟨c1, hrun1, hs1, hi1⟩ := loaded_head undef hb h
  obtain ⟨c2, hrun2, hs2, hi2⟩ := loadGroups_runs undef hb (n := 0) (k := 7) hs1 hi1 (by decide)
  obtain ⟨c3, hrun3, hs3, -⟩ := l4vec_runs undef hb (n := 7) hs2 hi2 (by decide)
  refine ⟨c3, ?_, hs3.mem, ?_⟩
  · unfold loadInsns
    rw [l32vec_code]
    exact hrun1.append (hrun2.append hrun3)
  have hv : c3.regs.v = (loadVecContext (bufAt c.mem base.toNat)).v := by
    funext i
    exact hs3.rows i i.isLt
  have hvscr := hs3.vscr
  have hvrsave := hs3.vrsave
  generalize c3.regs = r at hv hvscr hvrsave
  cases r
  rw [loadVecContext, VecRegs.mk.injEq]
  exact ⟨hv, hvscr, hvrsave⟩

/-! ## Lossless -/

/-- The write stays in the `n` bytes from `a` on. -/
def Write.Within (a n : Nat) : Write → Prop
  | .zero b => a ≤ b ∧ b + 32 ≤ a + n
  | .data b k => a ≤ b ∧ b + k ≤ a + n

instance (a n : Nat) : (w : Write) → Decidable (w.Within a n)
  | .zero _ => inferInstanceAs (Decidable (_ ∧ _))
  | .data _ _ => inferInstanceAs (Decidable (_ ∧ _))

/-- The later write does not zero what the earlier one stored. -/
def Write.Spares : Write → Write → Prop
  | .data a n, .zero b => a + n ≤ b ∨ b + 32 ≤ a
  | _, _ => True

instance : (w x : Write) → Decidable (w.Spares x)
  | .data _ _, .zero _ => inferInstanceAs (Decidable (_ ∨ _))
  | .data _ _, .data _ _ => isTrue trivial
  | .zero _, _ => isTrue trivial

/-- No line is zeroed after data was stored into it. -/
def ZeroFirst (ws : List Write) : Prop := ws.Pairwise Write.Spares

theorem within_shift {w : Write} {n : Nat} (h : w.Within 0 n) (a : Nat) :
    (w.shift a).Within a n := by
  cases w with
  | zero b =>
    unfold Write.Within at h
    unfold Write.shift Write.Within
    omega
  | data b k =>
    unfold Write.Within at h
    unfold Write.shift Write.Within
    omega

theorem spares_shift {w x : Write} (h : w.Spares x) (a : Nat) :
    (w.shift a).Spares (x.shift a) := by
  cases w with
  | zero b => trivial
  | data b n =>
    cases x with
    | zero b' =>
      unfold Write.Spares at h
      unfold Write.shift Write.Spares
      omega
    | data b' n' => trivial

theorem saveWrites_within : ∀ w ∈ saveWrites, w.Within 0 bufSize := by decide

theorem saveWrites_zeroFirst : ZeroFirst saveWrites := by
  unfold ZeroFirst
  decide

/-- A save into the buffer: whatever is in the registers, and whatever was written outside
    of the buffer before. -/
def SaveStep (base : Word) (m m' : Bytes) : Prop :=
  ∃ c, Operands base c ∧ AgreeOn m c.mem base.toNat bufSize ∧
    m' = (after (insnStep undef) c saveInsns).mem

theorem saveStep_bptr (hb : Buffer base) {m m' : Bytes} (h : SaveStep undef base m m') :
    bptrOf (bufAt m' base.toNat) = bptrOf (bufAt m base.toNat) := by
  obtain ⟨c, hop, hagree, rfl⟩ := h
  obtain ⟨c', ⟨rfl, -⟩, hall⟩ := save_insns undef hb hop
  rw [hall.buf, bptr_save, bufAt_congr hagree]

/-- Any number of saves keep the pointer to the raw block. -/
theorem saves_bptr (hb : Buffer base) {m m' : Bytes}
    (h : Relation.ReflTransGen (SaveStep undef base) m m') :
    bptrOf (bufAt m' base.toNat) = bptrOf (bufAt m base.toNat) := by
  induction h with
  | refl => rfl
  | tail _ hstep ih => rw [saveStep_bptr undef hb hstep, ih]

/-- A context that was saved is loaded again, whatever happened to the registers and outside
    of the buffer in between. The save writes nothing outside of the buffer, zeroes no line
    behind data, and any number of saves keep the pointer to the raw block. -/
theorem save_load (hb : Buffer base) (h : Operands base c) :
    let saved := after (insnStep undef) c saveInsns
    let trace := (emits (insnStep undef) c saveInsns).flatten
    (∀ c', Operands base c' → AgreeOn saved.mem c'.mem base.toNat bufSize →
      (after (insnStep undef) c' loadInsns).regs = c.regs) ∧
    (∀ b, Outside base.toNat bufSize b → saved.mem b = c.mem b) ∧
    (∀ w ∈ trace, w.Within base.toNat bufSize) ∧ ZeroFirst trace ∧
    ∀ m m', Relation.ReflTransGen (SaveStep undef base) m m' →
      bptrOf (bufAt m' base.toNat) = bptrOf (bufAt m base.toNat) := by
  obtain ⟨saved, ⟨hsaved, htrace⟩, hall⟩ := save_insns undef hb h
  intro saved' trace
  rw [show saved' = saved from hsaved, show trace = _ from htrace]
  refine ⟨?_, hall.outside, ?_, ?_, fun m m' => saves_bptr undef hb⟩
  · intro c' hop hagree
    obtain ⟨c'', ⟨rfl, -⟩, -, hregs⟩ := load_insns undef hb hop
    rw [hregs, bufAt_congr hagree, hall.buf, load_save]
  · intro w hw
    obtain ⟨x, hx, rfl⟩ := List.mem_map.mp hw
    exact within_shift (saveWrites_within x hx) base.toNat
  · refine List.pairwise_map.mpr (saveWrites_zeroFirst.imp ?_)
    exact fun hspares => spares_shift hspares base.toNat

/-- A buffer at 0x1000, and registers that are all different. -/
def sampleCpu : Cpu where
  gpr
    | .op0 => 0x1000
    | .op1 => 0x1010
    | .op2 => 0x1020
    | .op3 => 0x1030
    | _ => 7
  regs := ⟨fun i col => BitVec.ofNat 32 (4 * i.val + col.val), 0x10000, 0xffffffff⟩
  mem := fun a => UInt8.ofNat a

/-- All vector registers are cleared in between. -/
theorem save_load_sample :
    (after (insnStep fun _ => 0) ⟨sampleCpu.gpr, ⟨fun _ _ => 0, 0, 0⟩,
      (after (insnStep fun _ => 0) sampleCpu saveInsns).mem⟩ loadInsns).regs = sampleCpu.regs :=
  (save_load (fun _ => 0) (c := sampleCpu) (⟨by decide, by decide⟩ : Buffer 0x1000)
    ⟨rfl, rfl, rfl, rfl⟩).1 _ ⟨rfl, rfl, rfl, rfl⟩ (AgreeOn.refl _ _ _)

end SsrlApps.Altivec
