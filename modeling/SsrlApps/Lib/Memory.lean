/-
  Bytes in memory, words of several bytes, and a heap of disjoint blocks.

  `Bytes` is a memory: a byte at every address. `load` reads a word of `w` bytes, most
  significant first, `store` writes one; `loadLE` and `storeLE` are those of a
  little-endian host. `copy` is `memcpy`, `fill` is `memset`, and `slice` lists bytes.

  A `Heap` is a memory with a table of live blocks, by start address. `Fits` says that a
  block can be put at an address: it ends below `top` and is apart from every other live
  block. Allocating a block, and resizing one in place, is `put`; freeing is `free`. The
  contents of the memory outlive both.

  Proved:
  * `load_store`, `load_storeLE`: a stored word reads back, up to the size of a word.
  * `load_congr`, `slice_congr`, `store_outside`, `fill_outside`: what is not written keeps
    its value.
  * `wf_put`, `wf_free`: the live blocks stay apart.
-/
import SsrlApps.Lib.Table
import Mathlib.Algebra.Order.Ring.Nat

/-- A byte at every address. -/
abbrev Bytes := Nat → UInt8

namespace Bytes

/-- The word of `w` bytes at address `a`, most significant byte first. -/
def load (m : Bytes) : Nat → Nat → Nat
  | 0, _ => 0
  | w + 1, a => (m a).toNat * 256 ^ w + load m w (a + 1)

/-- `v` is written as a word of `w` bytes at address `a`. -/
def store (m : Bytes) (w a v : Nat) : Bytes := fun b =>
  if a ≤ b ∧ b < a + w then UInt8.ofNat (v / 256 ^ (a + w - 1 - b)) else m b

/-- The word of `w` bytes at address `a`, least significant byte first. -/
def loadLE (m : Bytes) : Nat → Nat → Nat
  | 0, _ => 0
  | w + 1, a => (m a).toNat + 256 * loadLE m w (a + 1)

/-- `v` is written as a word of `w` bytes at address `a`, least significant byte first. -/
def storeLE (m : Bytes) (w a v : Nat) : Bytes := fun b =>
  if a ≤ b ∧ b < a + w then UInt8.ofNat (v / 256 ^ (b - a)) else m b

/-- `memcpy(d, s, n)` -/
def copy (m : Bytes) (d s n : Nat) : Bytes := fun b =>
  if d ≤ b ∧ b < d + n then m (s + (b - d)) else m b

/-- `memset(d, v, n)` -/
def fill (m : Bytes) (d : Nat) (v : UInt8) (n : Nat) : Bytes := fun b =>
  if d ≤ b ∧ b < d + n then v else m b

/-- The `n` bytes from `a` on. -/
def slice (m : Bytes) : Nat → Nat → List UInt8
  | _, 0 => []
  | a, n + 1 => m a :: slice m (a + 1) n

/-- `b` lies outside the `n` bytes from `a` on. -/
def Outside (a n b : Nat) : Prop := b < a ∨ a + n ≤ b

/-- The two memories agree on the `n` bytes from `a` on. -/
def AgreeOn (m m' : Bytes) (a n : Nat) : Prop := ∀ b, a ≤ b → b < a + n → m' b = m b

variable {m m' : Bytes}

theorem AgreeOn.refl (m : Bytes) (a n : Nat) : AgreeOn m m a n := fun _ _ _ => rfl

theorem AgreeOn.mono {a n a' n' : Nat} (h : AgreeOn m m' a n) (ha : a ≤ a')
    (hn : a' + n' ≤ a + n) : AgreeOn m m' a' n' := by
  intro b hb hb'
  exact h b (by omega) (by omega)

theorem not_mem_of_outside {a n b : Nat} (h : Outside a n b) : ¬ (a ≤ b ∧ b < a + n) := by
  rcases h with h | h <;> omega

theorem store_outside {w a v b : Nat} (h : Outside a w b) : m.store w a v b = m b :=
  if_neg (not_mem_of_outside h)

theorem fill_outside {d n b : Nat} {v : UInt8} (h : Outside d n b) : m.fill d v n b = m b :=
  if_neg (not_mem_of_outside h)

/-- A word depends on its own bytes only. -/
theorem load_congr {w a : Nat} (h : AgreeOn m m' a w) : m'.load w a = m.load w a := by
  induction w generalizing a with
  | zero => rfl
  | succ w ih =>
    have hhead : m' a = m a := h a (Nat.le_refl a) (by omega)
    have htail : AgreeOn m m' (a + 1) w := h.mono (by omega) (by omega)
    show (m' a).toNat * 256 ^ w + m'.load w (a + 1) = (m a).toNat * 256 ^ w + m.load w (a + 1)
    rw [hhead, ih htail]

theorem slice_congr {a n : Nat} (h : AgreeOn m m' a n) : m'.slice a n = m.slice a n := by
  induction n generalizing a with
  | zero => rfl
  | succ n ih =>
    have hhead : m' a = m a := h a (Nat.le_refl a) (by omega)
    have htail : AgreeOn m m' (a + 1) n := h.mono (by omega) (by omega)
    show m' a :: m'.slice (a + 1) n = m a :: m.slice (a + 1) n
    rw [hhead, ih htail]

theorem length_slice (m : Bytes) (a n : Nat) : (m.slice a n).length = n := by
  induction n generalizing a with
  | zero => rfl
  | succ n ih => exact congrArg Nat.succ (ih (a + 1))

theorem getElem?_slice (m : Bytes) {a n i : Nat} (hi : i < n) :
    (m.slice a n)[i]? = some (m (a + i)) := by
  induction n generalizing a i with
  | zero => exact absurd hi (Nat.not_lt_zero i)
  | succ n ih =>
    cases i with
    | zero => rfl
    | succ i =>
      rw [show a + (i + 1) = a + 1 + i by omega]
      exact ih (a := a + 1) (by omega)

/-- Blocks one behind the other. -/
theorem slice_add (m : Bytes) (a n k : Nat) :
    m.slice a (n + k) = m.slice a n ++ m.slice (a + n) k := by
  induction n generalizing a with
  | zero =>
    rw [Nat.zero_add]
    rfl
  | succ n ih =>
    have hhead : m.slice a (n + 1 + k) = m a :: m.slice (a + 1) (n + k) := by
      rw [Nat.succ_add]
      rfl
    rw [hhead, ih, Nat.add_assoc, Nat.add_comm 1 n]
    rfl

/-- `memcmp` of two blocks compares them byte by byte. -/
theorem slice_eq_iff {a b n : Nat} :
    m.slice a n = m'.slice b n ↔ ∀ i, i < n → m (a + i) = m' (b + i) := by
  induction n generalizing a b with
  | zero => exact iff_of_true rfl fun i hi => absurd hi (Nat.not_lt_zero i)
  | succ n ih =>
    show m a :: m.slice (a + 1) n = m' b :: m'.slice (b + 1) n ↔ _
    rw [List.cons.injEq, ih]
    constructor
    · rintro ⟨hhead, htail⟩ i hi
      cases i with
      | zero => exact hhead
      | succ i =>
        have h := htail i (by omega)
        rw [Nat.add_right_comm a 1 i, Nat.add_right_comm b 1 i] at h
        exact h
    · intro h
      refine ⟨h 0 (by omega), fun i hi => ?_⟩
      rw [Nat.add_right_comm a 1 i, Nat.add_right_comm b 1 i]
      exact h (i + 1) (by omega)

/-- The last `k` bytes of a stored word hold the value modulo `256 ^ k`. -/
theorem load_store_suffix (m : Bytes) (w a v k : Nat) (hk : k ≤ w) :
    (m.store w a v).load k (a + w - k) = v % 256 ^ k := by
  induction k with
  | zero => rw [Nat.pow_zero, Nat.mod_one]; rfl
  | succ k ih =>
    have haddr : a + w - (k + 1) + 1 = a + w - k := by omega
    have hpos : a + w - 1 - (a + w - (k + 1)) = k := by omega
    have hbyte : m.store w a v (a + w - (k + 1)) = UInt8.ofNat (v / 256 ^ k) := by
      unfold store
      rw [if_pos (by omega), hpos]
    show (m.store w a v (a + w - (k + 1))).toNat * 256 ^ k +
      (m.store w a v).load k (a + w - (k + 1) + 1) = v % 256 ^ (k + 1)
    have hsplit : v % 256 ^ (k + 1) = v % 256 ^ k + 256 ^ k * (v / 256 ^ k % 256) := by
      rw [Nat.pow_succ]
      exact Nat.mod_mul
    have hval : (UInt8.ofNat (v / 256 ^ k)).toNat = v / 256 ^ k % 256 := UInt8.toNat_ofNat'
    rw [hbyte, haddr, ih (by omega), hval, hsplit, Nat.add_comm, Nat.mul_comm]

/-- The bytes of a stored word from the `k`-th on hold the value without its last `k`. -/
theorem load_storeLE_suffix (m : Bytes) (w a v k n : Nat) (hk : k + n = w) :
    (m.storeLE w a v).loadLE n (a + k) = v / 256 ^ k % 256 ^ n := by
  induction n generalizing k with
  | zero => rw [Nat.pow_zero, Nat.mod_one]; rfl
  | succ n ih =>
    have hoff : a + k - a = k := by omega
    have hbyte : m.storeLE w a v (a + k) = UInt8.ofNat (v / 256 ^ k) := by
      unfold storeLE
      rw [if_pos (by omega), hoff]
    have hval : (UInt8.ofNat (v / 256 ^ k)).toNat = v / 256 ^ k % 256 := UInt8.toNat_ofNat'
    show (m.storeLE w a v (a + k)).toNat + 256 * (m.storeLE w a v).loadLE n (a + (k + 1)) = _
    rw [hbyte, hval, ih (k + 1) (by omega), Nat.pow_succ 256 k, ← Nat.div_div_eq_div_mul,
      Nat.pow_succ 256 n, Nat.mul_comm (256 ^ n), ← Nat.mod_mul]

theorem load_storeLE (m : Bytes) (w a v : Nat) :
    (m.storeLE w a v).loadLE w a = v % 256 ^ w := by
  have h := load_storeLE_suffix m w a v 0 w (Nat.zero_add w)
  rw [Nat.pow_zero, Nat.div_one] at h
  exact h

theorem storeLE_outside {w a v b : Nat} (h : Outside a w b) : m.storeLE w a v b = m b :=
  if_neg (not_mem_of_outside h)

/-- A stored word reads back. -/
theorem load_store {w a v : Nat} (hv : v < 256 ^ w) : (m.store w a v).load w a = v := by
  have h := load_store_suffix m w a v w (Nat.le_refl w)
  rw [Nat.add_sub_cancel, Nat.mod_eq_of_lt hv] at h
  exact h

end Bytes

/-- A memory and the sizes of the live blocks, by start address. -/
structure Heap where
  mem : Bytes
  size : Nat → Option Nat

namespace Heap

/-- The block at `a` becomes live with `n` bytes, or changes its size to `n`. -/
def put (h : Heap) (a n : Nat) : Heap := { h with size := Function.update h.size a (some n) }

/-- `free(a)`: nothing happens when no live block starts at `a`. -/
def free (h : Heap) (a : Nat) : Heap := { h with size := Function.update h.size a none }

/-- The `n` bytes from `a` on can be a block: not at 0, below `top`, and apart from every
    live block that starts elsewhere. -/
structure Fits (top : Nat) (h : Heap) (a n : Nat) : Prop where
  pos : 0 < a
  below : a + n ≤ top
  apart : ∀ c k, c ≠ a → h.size c = some k → a + n ≤ c ∨ c + k ≤ a

/-- Every live block has its place. -/
def Wf (top : Nat) (h : Heap) : Prop := ∀ a n, h.size a = some n → Fits top h a n

variable {h : Heap} {top : Nat}

theorem put_size_self (h : Heap) (a n : Nat) : (h.put a n).size a = some n :=
  Function.update_self ..

theorem put_size_of_ne {a c : Nat} (hc : c ≠ a) (n : Nat) : (h.put a n).size c = h.size c :=
  Function.update_of_ne hc ..

theorem free_size_of_ne {a c : Nat} (hc : c ≠ a) : (h.free a).size c = h.size c :=
  Function.update_of_ne hc ..

/-- What is live after a `free` was live before. -/
theorem size_of_free_size {a c n : Nat} (hc : (h.free a).size c = some n) :
    c ≠ a ∧ h.size c = some n :=
  Table.entry_clear hc

theorem Fits.free {a n : Nat} (hf : Fits top h a n) (b : Nat) : Fits top (h.free b) a n where
  pos := hf.pos
  below := hf.below
  apart := by
    intro c k hne hc
    exact hf.apart c k hne (size_of_free_size hc).2

theorem wf_free (hw : Wf top h) (b : Nat) : Wf top (h.free b) := by
  intro a n ha
  exact (hw a n (size_of_free_size ha).2).free b

/-- The live blocks after a `put`: the new one and the old ones that start elsewhere. -/
theorem size_of_put_size {a n c k : Nat} (hc : (h.put a n).size c = some k) :
    c = a ∧ k = n ∨ c ≠ a ∧ h.size c = some k :=
  Table.entry_set hc

/-- A block put where it fits leaves the others their places. -/
theorem wf_put {a n : Nat} (hw : Wf top h) (hf : Fits top h a n) : Wf top (h.put a n) := by
  intro b k hb
  rcases size_of_put_size hb with ⟨rfl, rfl⟩ | ⟨hba, hb'⟩
  · refine ⟨hf.pos, hf.below, ?_⟩
    intro c j hc hj
    rw [put_size_of_ne hc] at hj
    exact hf.apart c j hc hj
  · have hfb := hw b k hb'
    refine ⟨hfb.pos, hfb.below, ?_⟩
    intro c j hc hj
    rcases size_of_put_size hj with ⟨rfl, rfl⟩ | ⟨-, hj'⟩
    · exact (hf.apart b k hba hb').symm
    · exact hfb.apart c j hc hj'

/-- The memory is not part of what makes a heap well formed. -/
theorem wf_congr {g : Heap} (hsize : g.size = h.size) (hw : Wf top h) : Wf top g := by
  intro a n ha
  rw [hsize] at ha
  obtain ⟨hpos, hbelow, hapart⟩ := hw a n ha
  exact ⟨hpos, hbelow, by rw [hsize]; exact hapart⟩

end Heap
