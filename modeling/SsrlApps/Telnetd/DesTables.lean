/-
  The tables of des.c compute the permutations of the textbook.

  Proved:
  * `pack_lookup`: what a pair of mask tables does to a string of bits, when the masks are
    those of an output bit for each input bit.
  * `initial_tables`, `final_tables`: the initial and the final permutation.
  * `key_tables`, `comp_tables`: the choices of the key schedule.
-/
import SsrlApps.Telnetd.DesTextbook
import Mathlib.Data.Nat.Bitwise
import Mathlib.Tactic.IntervalCases

namespace SsrlApps.Des

open BitRoute

/-! ## Masks and lookups -/

theorem bits32_bit : ∀ p < 32, ∀ o < 32, (bits32 p).getLsbD (31 - o) = decide (p = o) := by
  decide

theorem bits28_bit : ∀ p < 28, ∀ o < 28, (bits28 p).getLsbD (27 - o) = decide (p = o) := by
  decide

theorem bits24_bit : ∀ p < 24, ∀ o < 24, (bits24 p).getLsbD (23 - o) = decide (p = o) := by
  decide

theorem bits8_eq : ∀ j < 8, bits8.getD j 0 = 2 ^ (7 - j) := by decide

theorem and_bits8 (i : Nat) {width j : Nat} (hw : width ≤ 8) (hj : j < width) :
    i &&& bits8.getD (j + (8 - width)) 0 ≠ 0 ↔ i.testBit (width - 1 - j) = true := by
  have hexp : 7 - (j + (8 - width)) = width - 1 - j := by omega
  rw [bits8_eq _ (by omega), hexp, Nat.and_two_pow]
  cases i.testBit (width - 1 - j) <;> simp

theorem getLsbD_orMask (i : Nat) {width : Nat} (hw : width ≤ 8) (mask : Nat → Word) (o : Nat) :
    (orMask width i mask).getLsbD o = true ↔
      ∃ j < width, i.testBit (width - 1 - j) = true ∧ (mask j).getLsbD o = true := by
  unfold orMask
  rw [getLsbD_orMasks]
  constructor
  · rintro ⟨j, hj, hbit, hmask⟩
    exact ⟨j, hj, (and_bits8 i hw hj).mp hbit, hmask⟩
  · rintro ⟨j, hj, hbit, hmask⟩
    exact ⟨j, hj, (and_bits8 i hw hj).mpr hbit, hmask⟩

theorem getLsbD_lookup (table : Nat → Nat → Word) (is : List Nat) (o : Nat) :
    (lookup table is).getLsbD o = true ↔
      ∃ k < is.length, (table k (is.getD k 0)).getLsbD o = true := by
  unfold lookup
  rw [getLsbD_orAll]
  constructor
  · rintro ⟨v, hv, hbit⟩
    obtain ⟨k, hk, rfl⟩ := List.mem_mapIdx.mp hv
    rw [← List.getD_eq_getElem is 0 hk] at hbit
    exact ⟨k, hk, hbit⟩
  · rintro ⟨k, hk, hbit⟩
    rw [List.getD_eq_getElem is 0 hk] at hbit
    exact ⟨_, List.mem_mapIdx.mpr ⟨k, hk, rfl⟩, hbit⟩

section Route

variable (bits : Nat → Word) (n width s : Nat) (out : Nat → Nat)

/-- A table of masks: bit `j` of an index into row `k` goes to the output bit
    `out (s * k + j)`. This one has the output bits of the left word. -/
def maskl (k i : Nat) : Word := orMask width i fun j =>
  unlessDropped (out (s * k + j)) (toLeft bits n (out (s * k + j)))

def maskr (k i : Nat) : Word := orMask width i fun j =>
  unlessDropped (out (s * k + j)) (toRight bits n (out (s * k + j)))

end Route

/-- The masks of an output bit: that bit, in the word that has it. -/
theorem left_bit {bits : Nat → Word} {n : Nat}
    (hbits : ∀ p < n, ∀ o < n, (bits p).getLsbD (n - 1 - o) = decide (p = o))
    (hn : 2 * n ≤ 255) (p : Nat) {o : Nat} (ho : o < n) :
    (unlessDropped p (toLeft bits n p)).getLsbD (n - 1 - o) = true ↔ p = o := by
  unfold unlessDropped toLeft
  split
  · next h => simp; omega
  · split
    · next h => rw [hbits p h o ho, decide_eq_true_iff]
    · next h => simp; omega

theorem right_bit {bits : Nat → Word} {n : Nat}
    (hbits : ∀ p < n, ∀ o < n, (bits p).getLsbD (n - 1 - o) = decide (p = o))
    (hn : 2 * n ≤ 255) {p o : Nat} (hp : p < 2 * n ∨ p = 255) (ho : n ≤ o) (ho' : o < 2 * n) :
    (unlessDropped p (toRight bits n p)).getLsbD (2 * n - 1 - o) = true ↔ p = o := by
  have hpos : 2 * n - 1 - o = n - 1 - (o - n) := by omega
  unfold unlessDropped toRight
  split
  · next h => simp; omega
  · split
    · next h => simp; omega
    · next h =>
      rw [hpos, hbits (p - n) (by omega) (o - n) (by omega), decide_eq_true_iff]
      omega

/-- Looking up the masks of a string moves its bits. `x` is the string, of which `is` are the
    groups; `src o` is the bit that goes to `o`. -/
theorem pack_lookup {bits : Nat → Word} {n width s : Nat} {out : Nat → Nat}
    (hbits : ∀ p < n, ∀ o < n, (bits p).getLsbD (n - 1 - o) = decide (p = o))
    (hn : 2 * n ≤ 255) (hw : width ≤ 8) {is : List Nat} {x : Nat → Bool}
    (hx : ∀ k < is.length, ∀ j < width,
      (is.getD k 0).testBit (width - 1 - j) = x (s * k + j))
    (hout : ∀ k < is.length, ∀ j < width, out (s * k + j) < 2 * n ∨ out (s * k + j) = 255)
    (src : Nat → Nat)
    (hsrc : ∀ o < 2 * n, out (src o) = o ∧ ∃ k < is.length, ∃ j < width, s * k + j = src o)
    (hinj : ∀ k < is.length, ∀ j < width, out (s * k + j) < 2 * n →
      src (out (s * k + j)) = s * k + j)
    {o : Nat} (ho : o < 2 * n) :
    packAt n (lookup (maskl bits n width s out) is) (lookup (maskr bits n width s out) is) o =
      x (src o) := by
  have hmoved : packAt n (lookup (maskl bits n width s out) is)
      (lookup (maskr bits n width s out) is) o = true ↔
      ∃ k < is.length, ∃ j < width, x (s * k + j) = true ∧ out (s * k + j) = o := by
    unfold packAt
    split
    · next hlt =>
      rw [getLsbD_lookup]
      constructor
      · rintro ⟨k, hk, hbit⟩
        obtain ⟨j, hj, hset, hmask⟩ := (getLsbD_orMask _ hw _ _).mp hbit
        rw [hx k hk j hj] at hset
        exact ⟨k, hk, j, hj, hset, (left_bit hbits hn _ hlt).mp hmask⟩
      · rintro ⟨k, hk, j, hj, hset, hto⟩
        rw [← hx k hk j hj] at hset
        exact ⟨k, hk, (getLsbD_orMask _ hw _ _).mpr
          ⟨j, hj, hset, (left_bit hbits hn _ hlt).mpr hto⟩⟩
    · next hge =>
      rw [getLsbD_lookup]
      constructor
      · rintro ⟨k, hk, hbit⟩
        obtain ⟨j, hj, hset, hmask⟩ := (getLsbD_orMask _ hw _ _).mp hbit
        rw [hx k hk j hj] at hset
        exact ⟨k, hk, j, hj, hset,
          (right_bit hbits hn (hout k hk j hj) (Nat.not_lt.mp hge) ho).mp hmask⟩
      · rintro ⟨k, hk, j, hj, hset, hto⟩
        rw [← hx k hk j hj] at hset
        exact ⟨k, hk, (getLsbD_orMask _ hw _ _).mpr ⟨j, hj, hset,
          (right_bit hbits hn (hout k hk j hj) (Nat.not_lt.mp hge) ho).mpr hto⟩⟩
  obtain ⟨hback, k, hk, j, hj, hpos⟩ := hsrc o ho
  rw [Bool.eq_iff_iff, hmoved]
  constructor
  · rintro ⟨k', hk', j', hj', hset, hto⟩
    have hsame := hinj k' hk' j' hj' (hto ▸ ho)
    rw [hto] at hsame
    rw [hsame]
    exact hset
  · intro hset
    rw [← hpos] at hset hback
    exact ⟨k, hk, j, hj, hset, hback⟩

/-! ## Groups of bits -/

section Pieces

variable {n m p s : Nat} {mask v : Word}

theorem getLsbD_masked (hmask : ∀ i < m, mask.getLsbD i = true) (w : Word) :
    ∀ i < m, (w &&& mask).getLsbD i = w.getLsbD (0 + i) := by
  intro i hi
  rw [BitVec.getLsbD_and, hmask i hi, Bool.and_true, Nat.zero_add]

theorem getLsbD_shifted (hmask : ∀ i < m, mask.getLsbD i = true) (w : Word) (s : Nat) :
    ∀ i < m, ((w >>> s) &&& mask).getLsbD i = w.getLsbD (s + i) := by
  intro i hi
  rw [BitVec.getLsbD_and, hmask i hi, Bool.and_true, BitVec.getLsbD_ushiftRight]

/-- `m` bits of the left word, with `s` bits of it below them and `p` above. -/
theorem left_piece {l : Word} (hv : ∀ i < m, v.getLsbD i = l.getLsbD (s + i))
    (hs : p + m + s = n) (r : Word) {j : Nat} (hj : j < m) :
    v.toNat.testBit (m - 1 - j) = packAt n l r (p + j) := by
  have hleft : p + j < n := by omega
  have hpos : s + (m - 1 - j) = n - 1 - (p + j) := by omega
  rw [BitVec.testBit_toNat, hv _ (by omega), hpos]
  exact (if_pos hleft).symm

theorem right_piece {r : Word} (hv : ∀ i < m, v.getLsbD i = r.getLsbD (s + i)) (hn : n ≤ p)
    (hs : p + m + s = 2 * n) (l : Word) {j : Nat} (hj : j < m) :
    v.toNat.testBit (m - 1 - j) = packAt n l r (p + j) := by
  have hright : ¬ p + j < n := by omega
  have hpos : s + (m - 1 - j) = 2 * n - 1 - (p + j) := by omega
  rw [BitVec.testBit_toNat, hv _ (by omega), hpos]
  exact (if_neg hright).symm

end Pieces

theorem byteIndices_bit (l r : Word) : ∀ k < (byteIndices l r).length, ∀ j < 8,
    ((byteIndices l r).getD k 0).testBit (8 - 1 - j) = packAt 32 l r (8 * k + j) := by
  have hmask : ∀ i < 8, (0xff : Word).getLsbD i = true := by decide
  intro k hk j hj
  replace hk : k < 8 := hk
  interval_cases k
  · exact left_piece (fun _ _ => BitVec.getLsbD_ushiftRight ..) rfl r hj
  · exact left_piece (getLsbD_shifted hmask l 16) rfl r hj
  · exact left_piece (getLsbD_shifted hmask l 8) rfl r hj
  · exact left_piece (getLsbD_masked hmask l) rfl r hj
  · exact right_piece (fun _ _ => BitVec.getLsbD_ushiftRight ..) (by decide) rfl l hj
  · exact right_piece (getLsbD_shifted hmask r 16) (by decide) rfl l hj
  · exact right_piece (getLsbD_shifted hmask r 8) (by decide) rfl l hj
  · exact right_piece (getLsbD_masked hmask r) (by decide) rfl l hj

theorem keyIndices_bit (rawkey0 rawkey1 : Word) : ∀ k < (keyIndices rawkey0 rawkey1).length, ∀ j < 7,
    ((keyIndices rawkey0 rawkey1).getD k 0).testBit (7 - 1 - j) = packAt 32 rawkey0 rawkey1 (8 * k + j) := by
  have hmask : ∀ i < 7, (0x7f : Word).getLsbD i = true := by decide
  intro k hk j hj
  replace hk : k < 8 := hk
  interval_cases k
  · exact left_piece (fun _ _ => BitVec.getLsbD_ushiftRight ..) rfl rawkey1 hj
  · exact left_piece (getLsbD_shifted hmask rawkey0 17) rfl rawkey1 hj
  · exact left_piece (getLsbD_shifted hmask rawkey0 9) rfl rawkey1 hj
  · exact left_piece (getLsbD_shifted hmask rawkey0 1) rfl rawkey1 hj
  · exact right_piece (fun _ _ => BitVec.getLsbD_ushiftRight ..) (by decide) rfl rawkey0 hj
  · exact right_piece (getLsbD_shifted hmask rawkey1 17) (by decide) rfl rawkey0 hj
  · exact right_piece (getLsbD_shifted hmask rawkey1 9) (by decide) rfl rawkey0 hj
  · exact right_piece (getLsbD_shifted hmask rawkey1 1) (by decide) rfl rawkey0 hj

theorem compIndices_bit (t0 t1 : Word) : ∀ k < (compIndices t0 t1).length, ∀ j < 7,
    ((compIndices t0 t1).getD k 0).testBit (7 - 1 - j) = packAt 28 t0 t1 (7 * k + j) := by
  have hmask : ∀ i < 7, (0x7f : Word).getLsbD i = true := by decide
  intro k hk j hj
  replace hk : k < 8 := hk
  interval_cases k
  · exact left_piece (getLsbD_shifted hmask t0 21) rfl t1 hj
  · exact left_piece (getLsbD_shifted hmask t0 14) rfl t1 hj
  · exact left_piece (getLsbD_shifted hmask t0 7) rfl t1 hj
  · exact left_piece (getLsbD_masked hmask t0) rfl t1 hj
  · exact right_piece (getLsbD_shifted hmask t1 21) (by decide) rfl t0 hj
  · exact right_piece (getLsbD_shifted hmask t1 14) (by decide) rfl t0 hj
  · exact right_piece (getLsbD_shifted hmask t1 7) (by decide) rfl t0 hj
  · exact right_piece (getLsbD_masked hmask t1) (by decide) rfl t0 hj

/-! ## Inverted permutations -/

theorem ip_nodup : ip.Nodup := by decide

theorem ip_pos : ∀ p ∈ ip, p ≠ 0 := by decide

theorem keyPerm_nodup : keyPerm.Nodup := by decide

theorem keyPerm_pos : ∀ p ∈ keyPerm, p ≠ 0 := by decide

theorem compPerm_nodup : compPerm.Nodup := by decide

theorem compPerm_pos : ∀ p ∈ compPerm, p ≠ 0 := by decide

theorem mem_ip : ∀ p < 64, p + 1 ∈ ip := by decide

theorem finalPerm_lt (p : Nat) : finalPerm p < 64 := by
  by_cases hp : p < 64
  · exact (ip_index ⟨p, hp⟩).1
  · have hlen : ip.length ≤ p := Nat.not_lt.mp hp
    unfold finalPerm
    rw [List.getD_eq_default _ _ hlen]
    decide

theorem initPerm_lt (p : Nat) : initPerm p < 64 := by
  rcases invertTable_cases ip_nodup ip_pos (fun _ => 0) p with ⟨hlt, -⟩ | ⟨-, hzero⟩
  · exact hlt
  · unfold initPerm
    rw [hzero]
    decide

theorem ip_initPerm {p : Nat} (hp : p < 64) : ip.getD (initPerm p) 0 - 1 = p := by
  rcases invertTable_cases ip_nodup ip_pos (fun _ => 0) p with ⟨-, hback⟩ | ⟨hno, -⟩
  · exact hback
  · exact absurd (mem_ip p hp) hno

theorem invKeyPerm_cases (p : Nat) :
    (invKeyPerm p < 56 ∧ keyPerm.getD (invKeyPerm p) 0 - 1 = p) ∨ invKeyPerm p = 255 := by
  rcases invertTable_cases keyPerm_nodup keyPerm_pos (fun _ => 255) p with h | ⟨-, h⟩
  · exact Or.inl h
  · exact Or.inr h

theorem invCompPerm_cases (p : Nat) :
    (invCompPerm p < 48 ∧ compPerm.getD (invCompPerm p) 0 - 1 = p) ∨ invCompPerm p = 255 := by
  rcases invertTable_cases compPerm_nodup compPerm_pos (fun _ => 255) p with h | ⟨-, h⟩
  · exact Or.inl h
  · exact Or.inr h

/-! ## The permutations that the tables compute -/

theorem unlessDropped_lt {p : Nat} (hp : p < 64) (mask : Word) : unlessDropped p mask = mask := by
  have hne : p ≠ 255 := by omega
  exact if_neg hne

theorem ipMaskl_eq : ipMaskl = maskl bits32 32 8 8 initPerm := by
  funext k i
  unfold ipMaskl maskl
  simp only [unlessDropped_lt (initPerm_lt _)]

theorem ipMaskr_eq : ipMaskr = maskr bits32 32 8 8 initPerm := by
  funext k i
  unfold ipMaskr maskr
  simp only [unlessDropped_lt (initPerm_lt _)]

theorem fpMaskl_eq : fpMaskl = maskl bits32 32 8 8 finalPerm := by
  funext k i
  unfold fpMaskl maskl
  simp only [unlessDropped_lt (finalPerm_lt _)]

theorem fpMaskr_eq : fpMaskr = maskr bits32 32 8 8 finalPerm := by
  funext k i
  unfold fpMaskr maskr
  simp only [unlessDropped_lt (finalPerm_lt _)]

/-- Every bit of a block is in one of the eight bytes. -/
theorem in_bytes {p : Nat} (hp : p < 64) : ∃ k < 8, ∃ j < 8, 8 * k + j = p :=
  ⟨p / 8, by omega, p % 8, by omega, by omega⟩

theorem initial_tables (l r : Word) :
    pack 32 (lookup ipMaskl (byteIndices l r)) (lookup ipMaskr (byteIndices l r)) =
      initialPermutation (pack 32 l r) := by
  funext o
  have ho : o.val < 64 := o.isLt
  have hlt := (ip_index o).1
  rw [ipMaskl_eq, ipMaskr_eq]
  show packAt 32 _ _ o.val = (pack 32 l r).bit (ip.getD o 0 - 1)
  rw [bit_pack 32 l r hlt]
  refine pack_lookup bits32_bit (by decide) (Nat.le_refl 8) (byteIndices_bit l r)
    (fun k _ j _ => Or.inl (initPerm_lt _)) (fun o => ip.getD o 0 - 1) ?_ ?_ ho
  · intro q hq
    exact ⟨invertTable_table ip_nodup ip_pos _ hq, in_bytes (ip_index ⟨q, hq⟩).1⟩
  · intro k hk j hj _
    have hk : k < 8 := hk
    exact ip_initPerm (by omega)

theorem final_tables (l r : Word) :
    pack 32 (lookup fpMaskl (byteIndices l r)) (lookup fpMaskr (byteIndices l r)) =
      finalPermutation (pack 32 l r) := by
  funext o
  have ho : o.val < 64 := o.isLt
  have hlt := (ip_idxOf o).1
  rw [fpMaskl_eq, fpMaskr_eq]
  show packAt 32 _ _ o.val = (pack 32 l r).bit (ip.idxOf (o.val + 1))
  rw [bit_pack 32 l r hlt]
  refine pack_lookup bits32_bit (by decide) (Nat.le_refl 8) (byteIndices_bit l r)
    (fun k _ j _ => Or.inl (finalPerm_lt _)) (fun o => ip.idxOf (o + 1)) ?_ ?_ ho
  · intro q hq
    obtain ⟨hq', hback⟩ := ip_idxOf ⟨q, hq⟩
    exact ⟨hback, in_bytes hq'⟩
  · intro k hk j hj _
    have hk : k < 8 := hk
    exact (ip_index ⟨8 * k + j, by omega⟩).2

theorem key_tables (rawkey0 rawkey1 : Word) :
    pack 28 (lookup keyPermMaskl (keyIndices rawkey0 rawkey1))
        (lookup keyPermMaskr (keyIndices rawkey0 rawkey1)) =
      (pack 32 rawkey0 rawkey1).select keyPerm := by
  funext o
  have ho : o.val < 56 := o.isLt
  have hlt := (keyPerm_bound o).1
  show packAt 28 (lookup (maskl bits28 28 7 8 invKeyPerm) _)
    (lookup (maskr bits28 28 7 8 invKeyPerm) _) o.val = (pack 32 _ _).bit (keyPerm.getD o 0 - 1)
  rw [bit_pack 32 _ _ hlt]
  refine pack_lookup bits28_bit (by decide) (by decide) (keyIndices_bit rawkey0 rawkey1)
    (fun k _ j _ => ?_) (fun o => keyPerm.getD o 0 - 1) ?_ ?_ ho
  · exact (invKeyPerm_cases _).imp_left And.left
  · intro q hq
    obtain ⟨hq', hpar⟩ := keyPerm_bound ⟨q, hq⟩
    refine ⟨invertTable_table keyPerm_nodup keyPerm_pos _ hq, ?_⟩
    dsimp only at hq' hpar ⊢
    exact ⟨(keyPerm.getD q 0 - 1) / 8, (by omega : _ < 8), (keyPerm.getD q 0 - 1) % 8, by omega,
      by omega⟩
  · intro k hk j hj hstored
    rcases invKeyPerm_cases (8 * k + j) with ⟨-, hback⟩ | h
    · exact hback
    · omega

theorem comp_tables (t0 t1 : Word) :
    pack 24 (lookup compMaskl (compIndices t0 t1)) (lookup compMaskr (compIndices t0 t1)) =
      (pack 28 t0 t1).select compPerm := by
  funext o
  have ho : o.val < 48 := o.isLt
  have hlt := compPerm_bound o
  show packAt 24 (lookup (maskl bits24 24 7 7 invCompPerm) _)
    (lookup (maskr bits24 24 7 7 invCompPerm) _) o.val = (pack 28 _ _).bit (compPerm.getD o 0 - 1)
  rw [bit_pack 28 _ _ hlt]
  refine pack_lookup bits24_bit (by decide) (by decide) (compIndices_bit t0 t1)
    (fun k _ j _ => ?_) (fun o => compPerm.getD o 0 - 1) ?_ ?_ ho
  · exact (invCompPerm_cases _).imp_left And.left
  · intro q hq
    have hq' := compPerm_bound ⟨q, hq⟩
    refine ⟨invertTable_table compPerm_nodup compPerm_pos _ hq, ?_⟩
    dsimp only at hq' ⊢
    exact ⟨(compPerm.getD q 0 - 1) / 7, (by omega : _ < 8), (compPerm.getD q 0 - 1) % 7, by omega,
      by omega⟩
  · intro k hk j hj hstored
    rcases invCompPerm_cases (7 * k + j) with ⟨-, hback⟩ | h
    · exact hback
    · omega

end SsrlApps.Des
