/-
  The key schedule of des.c.

  `des_setkey` rotates the two halves of the permuted key by the sum of all shifts so far,
  without masking off what goes beyond 28 bits, and stores each subkey twice: in the arrays
  for enciphering, and from the other end in those for deciphering. Its bits are those of the
  eight bytes of the key, on any host.

  Proved:
  * `pack_rotate`: the rotation of the words.
  * `scheduled_loop`: what the loop has stored behind each of its iterations.
  * `keysOf_reverse`: the subkeys for deciphering are the others in reverse order.
  * `subkeys_eq`: they are those of the textbook.
-/
import SsrlApps.Telnetd.DesCipher

namespace SsrlApps.Des

open BitRoute

/-! ## Rotation -/

/-- The word has 28 bits. -/
def Low28 (w : Word) : Prop := ∀ i, 28 ≤ i → w.getLsbD i = false

theorem rotate_bit {k : Word} (hk : Low28 k) {s : Nat} (hs : s ≤ 28) {o : Nat} (ho : o < 28) :
    (rotate k s).getLsbD (27 - o) = k.getLsbD (27 - (o + s) % 28) := by
  have hin : 27 - o < 32 := by omega
  unfold rotate
  rw [BitVec.getLsbD_or, BitVec.getLsbD_shiftLeft, BitVec.getLsbD_ushiftRight,
    decide_eq_true hin, Bool.true_and]
  by_cases hwrap : o + s < 28
  · have hge : ¬ 27 - o < s := by omega
    have hpos : 27 - o - s = 27 - (o + s) % 28 := by omega
    rw [hk (28 - s + (27 - o)) (by omega), decide_eq_false hge, hpos]
    simp
  · have hlt : 27 - o < s := by omega
    have hpos : 28 - s + (27 - o) = 27 - (o + s) % 28 := by omega
    rw [decide_eq_true hlt, hpos]
    simp

theorem pack_rotate {k0 k1 : Word} (h0 : Low28 k0) (h1 : Low28 k1) {s : Nat} (hs : s ≤ 28) :
    pack 28 (rotate k0 s) (rotate k1 s) = rotateHalves s (pack 28 k0 k1) := by
  funext o
  have hmod : ∀ a, a % 28 < 28 := fun a => Nat.mod_lt a (by decide)
  show packAt 28 (rotate k0 s) (rotate k1 s) o.val = if o.val < 28 then
    (pack 28 k0 k1).bit ((o.val + s) % 28) else (pack 28 k0 k1).bit (28 + (o.val - 28 + s) % 28)
  unfold packAt
  split
  · next h =>
    have hlt : (o.val + s) % 28 < 2 * 28 := Nat.lt_trans (hmod _) (by decide)
    rw [rotate_bit h0 hs h, bit_pack 28 k0 k1 hlt, packAt, if_pos (hmod _)]
  · next h =>
    have hlt : 28 + (o.val - 28 + s) % 28 < 2 * 28 := Nat.add_lt_add_left (hmod _) 28
    have hge : ¬ 28 + (o.val - 28 + s) % 28 < 28 := Nat.not_lt.mpr (Nat.le_add_right 28 _)
    have hleft : 2 * 28 - 1 - o.val = 27 - (o.val - 28) := by omega
    have hright : 2 * 28 - 1 - (28 + (o.val - 28 + s) % 28) = 27 - (o.val - 28 + s) % 28 := by
      omega
    rw [hleft, rotate_bit h1 hs (by omega), bit_pack 28 k0 k1 hlt, packAt, if_neg hge, hright]

theorem rotateHalves_zero (x : Bits 56) : rotateHalves 0 x = x := by
  funext o
  rw [← Bits.bit_val x o]
  unfold rotateHalves
  split
  · next h => rw [Nat.add_zero, Nat.mod_eq_of_lt h]
  · next h =>
    have hlt : o.val - 28 < 28 := by omega
    have hback : 28 + (o.val - 28) = o.val := by omega
    rw [Nat.add_zero, Nat.mod_eq_of_lt hlt, hback]

theorem rotateHalves_add (s t : Nat) (x : Bits 56) :
    rotateHalves s (rotateHalves t x) = rotateHalves (t + s) x := by
  have hmod : ∀ a, a % 28 < 28 := fun a => Nat.mod_lt a (by decide)
  have hleft : ∀ p < 28, (rotateHalves t x).bit p = x.bit ((p + t) % 28) := by
    intro p hp
    have hlt : p < 56 := Nat.lt_trans hp (by decide)
    exact (dif_pos hlt).trans (if_pos hp)
  have hright : ∀ p < 28, (rotateHalves t x).bit (28 + p) = x.bit (28 + (p + t) % 28) := by
    intro p hp
    have hlt : 28 + p < 56 := Nat.add_lt_add_left hp 28
    have hge : ¬ 28 + p < 28 := Nat.not_lt.mpr (Nat.le_add_right 28 p)
    refine (dif_pos hlt).trans ((if_neg hge).trans ?_)
    show x.bit (28 + (28 + p - 28 + t) % 28) = _
    rw [Nat.add_sub_cancel_left]
  have hsum : ∀ p, ((p + s) % 28 + t) % 28 = (p + (t + s)) % 28 := by
    intro p
    rw [Nat.mod_add_mod, Nat.add_assoc, Nat.add_comm s t]
  funext o
  show (if o.val < 28 then (rotateHalves t x).bit ((o.val + s) % 28)
    else (rotateHalves t x).bit (28 + (o.val - 28 + s) % 28)) =
    if o.val < 28 then x.bit ((o.val + (t + s)) % 28) else x.bit (28 + (o.val - 28 + (t + s)) % 28)
  split
  · rw [hleft _ (hmod _), hsum]
  · rw [hright _ (hmod _), hsum]

/-! ## The key schedule -/

/-- A subkey in the order of the rounds: rotated by all shifts up to its own. -/
theorem subkeysFrom_eq (ss : List Nat) (t : Nat) (x : Bits 56) :
    subkeysFrom ss (rotateHalves t x) = (List.range ss.length).map fun i =>
      (rotateHalves (t + (ss.take (i + 1)).sum) x).select compPerm := by
  induction ss generalizing t with
  | nil => rfl
  | cons s ss ih =>
    rw [subkeysFrom, rotateHalves_add, ih, List.length_cons, List.range_succ_eq_map, List.map_cons,
      List.map_map]
    refine congrArg₂ List.cons ?_ (List.map_congr_left fun i _ => ?_)
    · simp
    · show (rotateHalves (t + s + (ss.take (i + 1)).sum) x).select compPerm =
        (rotateHalves (t + (s :: ss.take (i + 1)).sum) x).select compPerm
      rw [List.sum_cons, Nat.add_assoc]

/-- The sum of the shifts of the first `n` rounds. -/
def shiftsTo (n : Nat) : Nat := (keyShifts.take n).sum

theorem shiftsTo_succ : ∀ n < 16, shiftsTo (n + 1) = shiftsTo n + keyShifts.getD n 0 := by decide

theorem shiftsTo_le : ∀ n < 17, shiftsTo n ≤ 28 := by decide

theorem subkeys_shifts (key : Bits 64) :
    subkeys key = (List.range 16).map fun i =>
      (rotateHalves (shiftsTo (i + 1)) (key.select keyPerm)).select compPerm := by
  have h := subkeysFrom_eq keyShifts 0 (key.select keyPerm)
  rw [rotateHalves_zero] at h
  unfold subkeys
  rw [h]
  refine List.map_congr_left fun i _ => ?_
  rw [Nat.zero_add, shiftsTo]

/-- Masks of output bits below `n` have no bits above. -/
theorem lookup_high {bits : Nat → Word} {n width s : Nat} {out : Nat → Nat}
    (hbits : ∀ p < n, ∀ i, n ≤ i → (bits p).getLsbD i = false) (hw : width ≤ 8)
    (hout : ∀ p, out p < 2 * n ∨ out p = 255) (is : List Nat) {i : Nat} (hi : n ≤ i) :
    (lookup (maskl bits n width s out) is).getLsbD i = false ∧
      (lookup (maskr bits n width s out) is).getLsbD i = false := by
  refine ⟨Bool.eq_false_iff.mpr fun hbit => ?_, Bool.eq_false_iff.mpr fun hbit => ?_⟩
  · obtain ⟨k, -, hentry⟩ := (getLsbD_lookup _ _ _).mp hbit
    obtain ⟨j, -, -, hmask⟩ := (getLsbD_orMask _ hw _ _).mp hentry
    unfold unlessDropped toLeft at hmask
    split at hmask
    · simp at hmask
    · split at hmask
      · next h => rw [hbits _ h i hi] at hmask; cases hmask
      · simp at hmask
  · obtain ⟨k, -, hentry⟩ := (getLsbD_lookup _ _ _).mp hbit
    obtain ⟨j, -, -, hmask⟩ := (getLsbD_orMask _ hw _ _).mp hentry
    unfold unlessDropped toRight at hmask
    split at hmask
    · simp at hmask
    · next hkept =>
      split at hmask
      · simp at hmask
      · have hlt := (hout (s * k + j)).resolve_right hkept
        rw [hbits _ (by omega) i hi] at hmask
        cases hmask

theorem bits28_high : ∀ p < 28, ∀ i, 28 ≤ i → (bits28 p).getLsbD i = false := by
  have hword : ∀ p < 28, ∀ i < 32, 28 ≤ i → (bits28 p).getLsbD i = false := by decide
  intro p hp i hi
  by_cases h : i < 32
  · exact hword p hp i h hi
  · exact BitVec.getLsbD_of_ge _ _ (Nat.not_lt.mp h)

theorem bits24_high : ∀ p < 24, ∀ i, 24 ≤ i → (bits24 p).getLsbD i = false := by
  have hword : ∀ p < 24, ∀ i < 32, 24 ≤ i → (bits24 p).getLsbD i = false := by decide
  intro p hp i hi
  by_cases h : i < 32
  · exact hword p hp i h hi
  · exact BitVec.getLsbD_of_ge _ _ (Nat.not_lt.mp h)

theorem keyPerm_low (is : List Nat) :
    Low28 (lookup keyPermMaskl is) ∧ Low28 (lookup keyPermMaskr is) :=
  have hout : ∀ p, invKeyPerm p < 2 * 28 ∨ invKeyPerm p = 255 := fun p =>
    (invKeyPerm_cases p).imp_left And.left
  ⟨fun _ hi => (lookup_high bits28_high (by decide) hout is hi).1,
    fun _ hi => (lookup_high bits28_high (by decide) hout is hi).2⟩

theorem comp_fits (is : List Nat) : Fits (lookup compMaskl is) ∧ Fits (lookup compMaskr is) :=
  have hout : ∀ p, invCompPerm p < 2 * 24 ∨ invCompPerm p = 255 := fun p =>
    (invCompPerm_cases p).imp_left And.left
  ⟨fits_of_bits fun _ hi => (lookup_high bits24_high (by decide) hout is hi).1,
    fits_of_bits fun _ hi => (lookup_high bits24_high (by decide) hout is hi).2⟩

section Schedule

variable (k0 k1 : Word)

/-- The subkey of a round, as the loop looks it up. -/
def roundKeyl (i : Nat) : Word :=
  lookup compMaskl (compIndices (rotate k0 (shiftsTo (i + 1))) (rotate k1 (shiftsTo (i + 1))))

def roundKeyr (i : Nat) : Word :=
  lookup compMaskr (compIndices (rotate k0 (shiftsTo (i + 1))) (rotate k1 (shiftsTo (i + 1))))

/-- The context behind the first `n` iterations of the loop, which started with `ctx`. -/
structure Scheduled (ctx : Context) (n : Nat) (s : Nat × Context) : Prop where
  shifts : s.1 = shiftsTo n
  en : ∀ i < n, s.2.enKeysl i = roundKeyl k0 k1 i ∧ s.2.enKeysr i = roundKeyr k0 k1 i
  de : ∀ i < n, s.2.deKeysl (15 - i) = roundKeyl k0 k1 i ∧
    s.2.deKeysr (15 - i) = roundKeyr k0 k1 i
  saltbits : s.2.saltbits = ctx.saltbits
  oldSalt : s.2.oldSalt = ctx.oldSalt
  oldRawkey0 : s.2.oldRawkey0 = ctx.oldRawkey0
  oldRawkey1 : s.2.oldRawkey1 = ctx.oldRawkey1

variable {k0 k1}

theorem scheduled_succ {ctx : Context} {n : Nat} (hn : n < 16) {s : Nat × Context}
    (h : Scheduled k0 k1 ctx n s) : Scheduled k0 k1 ctx (n + 1) (setkeyRound k0 k1 s n) := by
  have hshift : s.1 + keyShifts.getD n 0 = shiftsTo (n + 1) := by
    rw [h.shifts, shiftsTo_succ n hn]
  have hkeys : ∀ (a b : Nat → Word) (v : Word) (i : Nat), (i < n → a i = b i) → i < n + 1 →
      b n = v → Function.update a n v i = b i := by
    intro a b v i hold hi hv
    rcases Nat.lt_succ_iff_lt_or_eq.mp hi with hlt | rfl
    · rw [Function.update_of_ne (Nat.ne_of_lt hlt)]
      exact hold hlt
    · rw [Function.update_self, hv]
  have hback : ∀ (a b : Nat → Word) (v : Word) (i : Nat), (i < n → a (15 - i) = b i) →
      i < n + 1 → b n = v → Function.update a (15 - n) v (15 - i) = b i := by
    intro a b v i hold hi hv
    rcases Nat.lt_succ_iff_lt_or_eq.mp hi with hlt | rfl
    · have hne : 15 - i ≠ 15 - n := by omega
      rw [Function.update_of_ne hne]
      exact hold hlt
    · rw [Function.update_self, hv]
  unfold setkeyRound
  dsimp only
  rw [hshift]
  refine ⟨rfl, fun i hi => ⟨?_, ?_⟩, fun i hi => ⟨?_, ?_⟩, h.saltbits, h.oldSalt, h.oldRawkey0,
    h.oldRawkey1⟩
  · exact hkeys _ (roundKeyl k0 k1) _ i (fun hlt => (h.en i hlt).1) hi rfl
  · exact hkeys _ (roundKeyr k0 k1) _ i (fun hlt => (h.en i hlt).2) hi rfl
  · exact hback _ (roundKeyl k0 k1) _ i (fun hlt => (h.de i hlt).1) hi rfl
  · exact hback _ (roundKeyr k0 k1) _ i (fun hlt => (h.de i hlt).2) hi rfl

theorem scheduled_loop (ctx : Context) {n : Nat} (hn : n ≤ 16) :
    Scheduled k0 k1 ctx n ((List.range n).foldl (setkeyRound k0 k1) (0, ctx)) := by
  induction n with
  | zero =>
    exact ⟨rfl, fun i hi => absurd hi (Nat.not_lt_zero i), fun i hi => absurd hi (Nat.not_lt_zero i),
      rfl, rfl, rfl, rfl⟩
  | succ n ih =>
    rw [List.range_succ, List.foldl_append]
    exact scheduled_succ hn (ih (Nat.le_of_succ_le hn))

/-- The subkeys for deciphering are those for enciphering, in reverse order. -/
theorem keysOf_reverse {ctx : Context} {s : Nat × Context} (h : Scheduled k0 k1 ctx 16 s) :
    keysOf s.2.deKeysl s.2.deKeysr = (keysOf s.2.enKeysl s.2.enKeysr).reverse := by
  unfold keysOf
  rw [← List.map_reverse]
  have hrange : (List.range 16).reverse = (List.range 16).map fun i => 15 - i := by decide
  rw [hrange, List.map_map]
  refine List.map_congr_left fun i hi => ?_
  have hi : i < 16 := List.mem_range.mp hi
  have hlt : 15 - i < 16 := by omega
  have hback : 15 - (15 - i) = i := by omega
  obtain ⟨hdl, hdr⟩ := h.de (15 - i) hlt
  obtain ⟨hel, her⟩ := h.en (15 - i) hlt
  rw [hback] at hdl hdr
  show pack 24 (s.2.deKeysl i) (s.2.deKeysr i) =
    pack 24 (s.2.enKeysl (15 - i)) (s.2.enKeysr (15 - i))
  rw [hdl, hdr, hel, her]

theorem roundKey_eq (h0 : Low28 k0) (h1 : Low28 k1) {i : Nat} (hi : i < 16) :
    pack 24 (roundKeyl k0 k1 i) (roundKeyr k0 k1 i) =
      (rotateHalves (shiftsTo (i + 1)) (pack 28 k0 k1)).select compPerm := by
  have hs : shiftsTo (i + 1) ≤ 28 := shiftsTo_le (i + 1) (Nat.succ_lt_succ hi)
  unfold roundKeyl roundKeyr
  rw [comp_tables, pack_rotate h0 h1 hs]

end Schedule

/-- The bits of the eight bytes at `key`. -/
def keyBits (key : Nat → UInt8) : Bits 64 := fun o =>
  (key (o.val / 8)).toBitVec.getLsbD (7 - o.val % 8)

theorem rawWord_bit (key : Nat → UInt8) (i : Nat) {j : Nat} (hj : j < 32) :
    (rawWord key i).getLsbD (31 - j) = (key (i + j / 8)).toBitVec.getLsbD (7 - j % 8) := by
  unfold rawWord
  simp only [BitVec.getLsbD_append]
  rcases (by omega : j < 8 ∨ 8 ≤ j ∧ j < 16 ∨ 16 ≤ j ∧ j < 24 ∨ 24 ≤ j) with h | h | h | h
  · have hdiv : j / 8 = 0 := by omega
    have h1 : ¬ 31 - j < 8 := by omega
    have h2 : ¬ 31 - j - 8 < 8 := by omega
    have h3 : ¬ 31 - j - 8 - 8 < 8 := by omega
    have hpos : 31 - j - 8 - 8 - 8 = 7 - j % 8 := by omega
    rw [if_neg h1, if_neg h2, if_neg h3, hdiv, hpos]
    rfl
  · have hdiv : j / 8 = 1 := by omega
    have h1 : ¬ 31 - j < 8 := by omega
    have h2 : ¬ 31 - j - 8 < 8 := by omega
    have h3 : 31 - j - 8 - 8 < 8 := by omega
    have hpos : 31 - j - 8 - 8 = 7 - j % 8 := by omega
    rw [if_neg h1, if_neg h2, if_pos h3, hdiv, hpos]
  · have hdiv : j / 8 = 2 := by omega
    have h1 : ¬ 31 - j < 8 := by omega
    have h2 : 31 - j - 8 < 8 := by omega
    have hpos : 31 - j - 8 = 7 - j % 8 := by omega
    rw [if_neg h1, if_pos h2, hdiv, hpos]
  · have hdiv : j / 8 = 3 := by omega
    have h1 : 31 - j < 8 := by omega
    have hpos : 31 - j = 7 - j % 8 := by omega
    rw [if_pos h1, hdiv, hpos]

theorem pack_rawWord (key : Nat → UInt8) :
    pack 32 (rawWord key 0) (rawWord key 4) = keyBits key := by
  funext o
  show packAt 32 (rawWord key 0) (rawWord key 4) o.val =
    (key (o.val / 8)).toBitVec.getLsbD (7 - o.val % 8)
  unfold packAt
  split
  · next h =>
    rw [rawWord_bit key 0 h, Nat.zero_add]
  · next h =>
    have hpos : 2 * 32 - 1 - o.val = 31 - (o.val - 32) := by omega
    have hdiv : 4 + (o.val - 32) / 8 = o.val / 8 := by omega
    have hmod : (o.val - 32) % 8 = o.val % 8 := by omega
    rw [hpos, rawWord_bit key 4 (by omega), hdiv, hmod]

/-- The loop stores the subkeys of the textbook, and none of them has more than 24 bits. -/
theorem subkeys_eq (key : Nat → UInt8) {ctx : Context} {s : Nat × Context}
    (h : Scheduled (lookup keyPermMaskl (keyIndices (rawWord key 0) (rawWord key 4)))
      (lookup keyPermMaskr (keyIndices (rawWord key 0) (rawWord key 4))) ctx 16 s) :
    keysOf s.2.enKeysl s.2.enKeysr = subkeys (keyBits key) ∧ s.2.Keyed := by
  obtain ⟨h0, h1⟩ := keyPerm_low (keyIndices (rawWord key 0) (rawWord key 4))
  refine ⟨?_, fun i hi => ?_, fun i hi => ?_⟩
  · rw [subkeys_shifts, ← pack_rawWord, ← key_tables]
    refine List.map_congr_left fun i hi => ?_
    have hi : i < 16 := List.mem_range.mp hi
    rw [(h.en i hi).1, (h.en i hi).2]
    exact roundKey_eq h0 h1 hi
  · rw [(h.en i hi).1, (h.en i hi).2]
    exact comp_fits _
  · have hlt : 15 - i < 16 := by omega
    have hback : 15 - (15 - i) = i := by omega
    have hde := h.de (15 - i) hlt
    rw [hback] at hde
    rw [hde.1, hde.2]
    exact comp_fits _

end SsrlApps.Des
