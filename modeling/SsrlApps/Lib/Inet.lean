/-
  Classful internet addresses, as BSD's C library computes with them.

  Addresses are words of 32 bits. `netof` and `lnaof` take an address in the order of the host
  apart, `makeaddr` puts one together; the first two decide the class by the leading bits of
  the address, the third by the size of the network number. `bswap` turns the bytes of a word
  round.

  Proved:
  * `lnaof_eq`: the host part is what the mask of the class leaves out.
  * `mask_of_xor`: the addresses with the host part all zeros and all ones differ exactly in
    the host part.
  * `bswap_bswap`, `bswap_xor`, `bswap_and`, `bswap_not`: turning round commutes with the
    operations on bits.
-/
import Mathlib.Tactic.IntervalCases
import Mathlib.Data.Nat.Bits

namespace Inet

/-! ## The functions -/

/-- `IN_CLASSA` -/
def inClassA (i : BitVec 32) : Bool := i &&& 0x80000000 == 0

/-- `IN_CLASSB` -/
def inClassB (i : BitVec 32) : Bool := i &&& 0xc0000000 == 0x80000000

/-- `inet_netof`, of an address in host order. -/
def netof (i : BitVec 32) : BitVec 32 :=
  if inClassA i then (i &&& 0xff000000) >>> 24
  else if inClassB i then (i &&& 0xffff0000) >>> 16
  else (i &&& 0xffffff00) >>> 8

/-- `inet_lnaof`, of an address in host order. -/
def lnaof (i : BitVec 32) : BitVec 32 :=
  if inClassA i then i &&& 0x00ffffff
  else if inClassB i then i &&& 0x0000ffff
  else i &&& 0x000000ff

/-- `inet_makeaddr`, in host order. -/
def makeaddr (net host : BitVec 32) : BitVec 32 :=
  if net < 128 then (net <<< 24) ||| (host &&& 0x00ffffff)
  else if net < 65536 then (net <<< 16) ||| (host &&& 0x0000ffff)
  else if net < 16777216 then (net <<< 8) ||| (host &&& 0x000000ff)
  else net ||| host

/-- The mask of the class: 255.0.0.0 below 128.0.0.0, 255.255.0.0 below 192.0.0.0, and
    255.255.255.0 above. -/
def classMask (i : BitVec 32) : BitVec 32 :=
  if i < 0x80000000 then 0xff000000
  else if i < 0xc0000000 then 0xffff0000
  else 0xffffff00

/-- The bytes of a word in the opposite order. -/
def bswap (x : BitVec 32) : BitVec 32 :=
  (x >>> 24) ||| ((x >>> 8) &&& 0x0000ff00) ||| ((x <<< 8) &&& 0x00ff0000) ||| (x <<< 24)

/-! ## Classes -/

theorem getLsbD_div (x : BitVec 32) (k : Nat) :
    x.getLsbD k = decide (x.toNat / 2 ^ k % 2 = 1) := by
  rw [BitVec.getLsbD, Nat.testBit_eq_decide_div_mod_eq]

/-- The leading bit decides about class A. -/
theorem classA_bit (i : BitVec 32) : i &&& 0x80000000 = 0 ↔ i.getLsbD 31 = false := by
  constructor
  · intro h
    have h31 := congrArg (fun x => x.getLsbD 31) h
    simp at h31
    exact h31
  · intro h31
    have hbit : i[31] = false := h31
    apply BitVec.eq_of_getLsbD_eq
    intro j hj
    interval_cases j <;> simp
    exact hbit

/-- The two leading bits decide about class B. -/
theorem classB_bits (i : BitVec 32) :
    i &&& 0xc0000000 = 0x80000000 ↔ i.getLsbD 31 = true ∧ i.getLsbD 30 = false := by
  constructor
  · intro h
    have h31 := congrArg (fun x => x.getLsbD 31) h
    have h30 := congrArg (fun x => x.getLsbD 30) h
    simp at h31 h30
    exact ⟨h31, h30⟩
  · intro ⟨h31, h30⟩
    have hbit : i[31] = true := h31
    have hbit' : i[30] = false := h30
    apply BitVec.eq_of_getLsbD_eq
    intro j hj
    interval_cases j <;> simp
    · exact hbit'
    · exact hbit

theorem toNat_classes : (0x80000000 : BitVec 32).toNat = 2 ^ 31 ∧
    (0xc0000000 : BitVec 32).toNat = 3 * 2 ^ 30 := by decide

theorem inClassA_iff (i : BitVec 32) : inClassA i = true ↔ i < 0x80000000 := by
  have hlt := i.isLt
  unfold inClassA
  rw [beq_iff_eq, classA_bit, getLsbD_div, decide_eq_false_iff_not, BitVec.lt_def,
    toNat_classes.1]
  omega

theorem inClassB_iff (i : BitVec 32) :
    inClassB i = true ↔ 0x80000000 ≤ i ∧ i < 0xc0000000 := by
  have hlt := i.isLt
  unfold inClassB
  rw [beq_iff_eq, classB_bits, getLsbD_div, getLsbD_div, decide_eq_true_iff,
    decide_eq_false_iff_not, BitVec.le_def, BitVec.lt_def, toNat_classes.1, toNat_classes.2]
  omega

/-- Every address is in one class, by its size. -/
theorem classes (i : BitVec 32) :
    (inClassA i = true ∧ i < 0x80000000) ∨
      (inClassA i = false ∧ inClassB i = true ∧ 0x80000000 ≤ i ∧ i < 0xc0000000) ∨
      (inClassA i = false ∧ inClassB i = false ∧ 0xc0000000 ≤ i) := by
  by_cases hA : i < 0x80000000
  · exact Or.inl ⟨(inClassA_iff i).mpr hA, hA⟩
  · have hnotA : inClassA i = false := Bool.eq_false_iff.mpr (mt (inClassA_iff i).mp hA)
    have hgeA : 0x80000000 ≤ i := BitVec.not_lt.mp hA
    by_cases hB : i < 0xc0000000
    · exact Or.inr (Or.inl ⟨hnotA, (inClassB_iff i).mpr ⟨hgeA, hB⟩, hgeA, hB⟩)
    · have hnotB : inClassB i = false :=
        Bool.eq_false_iff.mpr fun h => hB ((inClassB_iff i).mp h).2
      exact Or.inr (Or.inr ⟨hnotA, hnotB, BitVec.not_lt.mp hB⟩)

theorem classMask_A {i : BitVec 32} (h : i < 0x80000000) : classMask i = 0xff000000 := if_pos h

theorem classMask_B {i : BitVec 32} (h : 0x80000000 ≤ i) (h' : i < 0xc0000000) :
    classMask i = 0xffff0000 := by
  unfold classMask
  rw [if_neg (BitVec.not_lt.mpr h), if_pos h']

theorem classMask_C {i : BitVec 32} (h : 0xc0000000 ≤ i) : classMask i = 0xffffff00 := by
  have hA : ¬ i < 0x80000000 := by
    rw [BitVec.le_def, toNat_classes.2] at h
    rw [BitVec.lt_def, toNat_classes.1]
    omega
  unfold classMask
  rw [if_neg hA, if_neg (BitVec.not_lt.mpr h)]

/-! ## The two parts of an address -/

/-- The host part is what the mask of the class leaves out. -/
theorem lnaof_eq (i : BitVec 32) : lnaof i = i &&& ~~~ classMask i := by
  unfold lnaof
  rcases classes i with ⟨hA, hlt⟩ | ⟨hA, hB, hge, hlt⟩ | ⟨hA, hB, hge⟩
  · rw [if_pos hA, classMask_A hlt]
    rfl
  · rw [hA, hB, if_neg Bool.false_ne_true, if_pos rfl, classMask_B hge hlt]
    rfl
  · rw [hA, hB, if_neg Bool.false_ne_true, if_neg Bool.false_ne_true, classMask_C hge]
    rfl

/-- A part that has no bit in common with the rest. -/
theorem xor_or_apart {x m : BitVec 32} (h : x &&& m = 0) : x ^^^ (x ||| m) = m := by
  apply BitVec.eq_of_getLsbD_eq
  intro j hj
  have hbit : (x &&& m).getLsbD j = false := by
    rw [h]
    exact BitVec.getLsbD_zero
  rw [BitVec.getLsbD_and] at hbit
  rw [BitVec.getLsbD_xor, BitVec.getLsbD_or]
  cases hx : x.getLsbD j with
  | false => rw [Bool.false_or, Bool.false_xor]
  | true =>
    rw [hx, Bool.true_and] at hbit
    rw [hbit]
    rfl

/-- Two addresses of the same network, with the host part all zeros and all ones. -/
theorem xor_hosts {net host : BitVec 32} (h : net &&& host = 0) :
    (net ||| (0 &&& host)) ^^^ (net ||| (-1 &&& host)) = host := by
  have hzero : net ||| (0 &&& host) = net := by simp
  have hones : -1 &&& host = host := BitVec.allOnes_and
  rw [hzero, hones, xor_or_apart h]

theorem netof_A {i : BitVec 32} (hA : inClassA i = true) : netof i = i >>> 24 := by
  unfold netof
  rw [if_pos hA]
  apply BitVec.eq_of_getLsbD_eq
  intro j hj
  interval_cases j <;> simp

theorem netof_B {i : BitVec 32} (hA : inClassA i = false) (hB : inClassB i = true) :
    netof i = i >>> 16 := by
  unfold netof
  rw [hA, hB, if_neg Bool.false_ne_true, if_pos rfl]
  apply BitVec.eq_of_getLsbD_eq
  intro j hj
  interval_cases j <;> simp

theorem netof_C {i : BitVec 32} (hA : inClassA i = false) (hB : inClassB i = false) :
    netof i = i >>> 8 := by
  unfold netof
  rw [hA, hB, if_neg Bool.false_ne_true, if_neg Bool.false_ne_true]
  apply BitVec.eq_of_getLsbD_eq
  intro j hj
  interval_cases j <;> simp

theorem toNat_sizes : (128 : BitVec 32).toNat = 2 ^ 7 ∧ (65536 : BitVec 32).toNat = 2 ^ 16 ∧
    (16777216 : BitVec 32).toNat = 2 ^ 24 := by decide

theorem toNat_shift (i : BitVec 32) (k : Nat) : (i >>> k).toNat = i.toNat / 2 ^ k := by
  rw [BitVec.toNat_ushiftRight, Nat.shiftRight_eq_div_pow]

/-- The network number tells `makeaddr` the class of the address it is from. -/
theorem makeaddr_netof (i host : BitVec 32) : makeaddr (netof i) host =
    if i < 0x80000000 then (netof i <<< 24) ||| (host &&& 0x00ffffff)
    else if i < 0xc0000000 then (netof i <<< 16) ||| (host &&& 0x0000ffff)
    else (netof i <<< 8) ||| (host &&& 0x000000ff) := by
  have hlt := i.isLt
  unfold makeaddr
  rcases classes i with ⟨hA, hi⟩ | ⟨hA, hB, hge, hi⟩ | ⟨hA, hB, hge⟩
  · have hnet : netof i < 128 := by
      rw [BitVec.lt_def, toNat_classes.1] at hi
      rw [netof_A hA, BitVec.lt_def, toNat_shift, toNat_sizes.1]
      omega
    rw [if_pos hnet, if_pos hi]
  · have hnot : ¬ netof i < 128 := by
      rw [BitVec.le_def, toNat_classes.1] at hge
      rw [netof_B hA hB, BitVec.lt_def, toNat_shift, toNat_sizes.1]
      omega
    have hnet : netof i < 65536 := by
      rw [netof_B hA hB, BitVec.lt_def, toNat_shift, toNat_sizes.2.1]
      omega
    rw [if_neg hnot, if_pos hnet, if_neg (BitVec.not_lt.mpr hge), if_pos hi]
  · rw [BitVec.le_def, toNat_classes.2] at hge
    have hnotA : ¬ netof i < 128 := by
      rw [netof_C hA hB, BitVec.lt_def, toNat_shift, toNat_sizes.1]
      omega
    have hnotB : ¬ netof i < 65536 := by
      rw [netof_C hA hB, BitVec.lt_def, toNat_shift, toNat_sizes.2.1]
      omega
    have hnet : netof i < 16777216 := by
      rw [netof_C hA hB, BitVec.lt_def, toNat_shift, toNat_sizes.2.2]
      omega
    have hi : ¬ i < 0x80000000 := by
      rw [BitVec.lt_def, toNat_classes.1]
      omega
    have hi' : ¬ i < 0xc0000000 := by
      rw [BitVec.lt_def, toNat_classes.2]
      omega
    rw [if_neg hnotA, if_neg hnotB, if_pos hnet, if_neg hi, if_neg hi']

/-- The mask of the class, from two addresses of the network. -/
theorem mask_of_xor (i : BitVec 32) :
    ~~~ (makeaddr (netof i) 0 ^^^ makeaddr (netof i) (-1)) = classMask i := by
  have hA : (netof i <<< 24) &&& 0x00ffffff = 0 := by
    apply BitVec.eq_of_getLsbD_eq
    intro j hj
    interval_cases j <;> simp
  have hB : (netof i <<< 16) &&& 0x0000ffff = 0 := by
    apply BitVec.eq_of_getLsbD_eq
    intro j hj
    interval_cases j <;> simp
  have hC : (netof i <<< 8) &&& 0x000000ff = 0 := by
    apply BitVec.eq_of_getLsbD_eq
    intro j hj
    interval_cases j <;> simp
  rw [makeaddr_netof, makeaddr_netof]
  unfold classMask
  split
  · rw [xor_hosts hA]
    rfl
  · split
    · rw [xor_hosts hB]
      rfl
    · rw [xor_hosts hC]
      rfl

/-! ## The order of bytes -/

theorem getLsbD_bswap (x : BitVec 32) {j : Nat} (hj : j < 32) :
    (bswap x).getLsbD j = x.getLsbD (24 - 8 * (j / 8) + j % 8) := by
  unfold bswap
  interval_cases j <;> simp

theorem bswap_bswap (x : BitVec 32) : bswap (bswap x) = x := by
  apply BitVec.eq_of_getLsbD_eq
  intro j hj
  rw [getLsbD_bswap _ hj, getLsbD_bswap _ (by omega)]
  congr 1
  omega

theorem bswap_xor (x y : BitVec 32) : bswap (x ^^^ y) = bswap x ^^^ bswap y := by
  apply BitVec.eq_of_getLsbD_eq
  intro j hj
  simp only [getLsbD_bswap _ hj, BitVec.getLsbD_xor]

theorem bswap_and (x y : BitVec 32) : bswap (x &&& y) = bswap x &&& bswap y := by
  apply BitVec.eq_of_getLsbD_eq
  intro j hj
  simp only [getLsbD_bswap _ hj, BitVec.getLsbD_and]

theorem bswap_not (x : BitVec 32) : bswap (~~~ x) = ~~~ bswap x := by
  apply BitVec.eq_of_getLsbD_eq
  intro j hj
  have hin : 24 - 8 * (j / 8) + j % 8 < 32 := by omega
  simp only [getLsbD_bswap _ hj, BitVec.getLsbD_not, hj, hin, decide_true, Bool.true_and]

end Inet
