/-
  `do_des` is the cipher of the textbook.

  The S-boxes are looked up in pairs, and their outputs in the tables of the P-box; the
  E-box is a few masks and shifts. `Fits` says that a word has 24 bits, as the halves of an
  expanded block and of a subkey do: `m_sbox` has 4096 entries, so that `do_des` stays inside
  its tables.

  Proved:
  * `expand_eq`, `substitute_eq`, `cipherf_eq`: the parts of a round.
  * `substitute_inBounds`: the indices into `m_sbox`.
  * `desRounds_eq`: the 16 rounds are a Feistel network.
  * `doDes_eq`: `do_des` makes `|count|` passes of the textbook cipher.
-/
import SsrlApps.Telnetd.DesTables

namespace SsrlApps.Des

open BitRoute

/-! ## The E-box -/

theorem expandl_bit (r : Word) : ∀ o < 24,
    (expandl r).getLsbD (23 - o) = r.getLsbD (31 - (expansion.getD o 0 - 1)) := by
  intro o ho
  unfold expandl expansion
  interval_cases o
  all_goals simp

theorem expandr_bit (r : Word) : ∀ o < 24,
    (expandr r).getLsbD (23 - o) = r.getLsbD (31 - (expansion.getD (o + 24) 0 - 1)) := by
  intro o ho
  unfold expandr expansion
  interval_cases o
  all_goals simp

theorem expand_eq (r : Word) :
    pack 24 (expandl r) (expandr r) = (wordBits r).select expansion := by
  funext o
  have hlt := expansion_bound o
  show packAt 24 (expandl r) (expandr r) o = (wordBits r).bit (expansion.getD o 0 - 1)
  have hbit : (wordBits r).bit (expansion.getD o 0 - 1) =
      r.getLsbD (31 - (expansion.getD o 0 - 1)) := dif_pos hlt
  rw [hbit]
  unfold packAt
  split
  · next h => exact expandl_bit r o h
  · next h =>
    have hpos : 2 * 24 - 1 - o.val = 23 - (o.val - 24) := by omega
    have hback : o.val - 24 + 24 = o.val := by omega
    rw [hpos, expandr_bit r _ (by omega), hback]

/-- The word has 24 bits. -/
def Fits (w : Word) : Prop := w.toNat < 2 ^ 24

theorem fits_of_bits {w : Word} (h : ∀ i, 24 ≤ i → w.getLsbD i = false) : Fits w :=
  Nat.lt_pow_two_of_testBit _ h

theorem Fits.bit {w : Word} (h : Fits w) {i : Nat} (hi : 24 ≤ i) : w.getLsbD i = false := by
  have hlt : w.toNat < 2 ^ i := Nat.lt_of_lt_of_le h (Nat.pow_le_pow_right (by decide) hi)
  exact Nat.testBit_lt_two_pow hlt

theorem Fits.xor {v w : Word} (hv : Fits v) (hw : Fits w) : Fits (v ^^^ w) :=
  fits_of_bits fun i hi => by rw [BitVec.getLsbD_xor, hv.bit hi, hw.bit hi]; rfl

theorem Fits.and {v : Word} (hv : Fits v) (w : Word) : Fits (w &&& v) :=
  fits_of_bits fun i hi => by rw [BitVec.getLsbD_and, hv.bit hi, Bool.and_false]

theorem expandl_fits (r : Word) : Fits (expandl r) := by
  refine fits_of_bits fun i hi => ?_
  by_cases hlt : i < 32
  · unfold expandl
    interval_cases i
    all_goals simp
  · exact BitVec.getLsbD_of_ge _ _ (Nat.not_lt.mp hlt)

theorem expandr_fits (r : Word) : Fits (expandr r) := by
  refine fits_of_bits fun i hi => ?_
  by_cases hlt : i < 32
  · unfold expandr
    interval_cases i
    all_goals simp
  · exact BitVec.getLsbD_of_ge _ _ (Nat.not_lt.mp hlt)

/-! ## The S-boxes and the P-box -/

/-- The index that `des_init` computes is the row and the column of the six bits. -/
theorem sbox_index : ∀ j < 64,
    (j &&& 0x20) ||| ((j &&& 1) <<< 4) ||| ((j >>> 1) &&& 0xf) =
      16 * (2 * (j.testBit 5).toNat + (j.testBit 0).toNat) +
        (8 * (j.testBit 4).toNat + 4 * (j.testBit 3).toNat + 2 * (j.testBit 2).toNat +
          (j.testBit 1).toNat) := by
  decide

theorem uSbox_eq (i : Nat) {j : Nat} (hj : j < 64) :
    uSbox i j = sboxValue i fun t => j.testBit (5 - t) := by
  unfold uSbox
  rw [sbox_index j hj]
  rfl

theorem sbox_entry : ∀ row ∈ sbox, ∀ v ∈ row, v < 16 := by decide

theorem sboxValue_lt (i : Nat) (b : Nat → Bool) : sboxValue i b < 16 := by
  unfold sboxValue
  dsimp only
  rw [List.getD_eq_getElem?_getD, List.getD_eq_getElem?_getD]
  cases hrow : sbox[i]? with
  | none => simp
  | some row =>
    dsimp only [Option.getD_some]
    cases hv : row[16 * (2 * (b 0).toNat + (b 5).toNat) + (8 * (b 1).toNat +
        4 * (b 2).toNat + 2 * (b 3).toNat + (b 4).toNat)]? with
    | none => simp
    | some v => exact sbox_entry row (List.mem_of_getElem? hrow) v (List.mem_of_getElem? hv)

/-- The four index words of `substitute`. -/
def sboxIndices (a b : Word) : List Nat :=
  [(a >>> 12).toNat, (a &&& 0xfff).toNat, (b >>> 12).toNat, (b &&& 0xfff).toNat]

/-- `do_des` stays inside `m_sbox`. -/
theorem substitute_inBounds {a b : Word} (ha : Fits a) (hb : Fits b) :
    ∀ n ∈ sboxIndices a b, n < 4096 := by
  have hshift : ∀ w : Word, Fits w → (w >>> 12).toNat < 4096 := by
    intro w hw
    rw [BitVec.toNat_ushiftRight, Nat.shiftRight_eq_div_pow]
    have hw' : w.toNat < 2 ^ 24 := hw
    omega
  have hmask : ∀ w : Word, (w &&& 0xfff).toNat < 4096 := by
    intro w
    rw [BitVec.toNat_and]
    exact Nat.lt_of_le_of_lt Nat.and_le_right (by decide)
  intro n hn
  simp only [sboxIndices, List.mem_cons, List.not_mem_nil, or_false] at hn
  rcases hn with rfl | rfl | rfl | rfl
  · exact hshift a ha
  · exact hmask a
  · exact hshift b hb
  · exact hmask b

/-- The two groups of six bits of an index into `m_sbox`. -/
theorem sixBits (a b : Word) : ∀ k < 4, ∀ t < 6,
    ((sboxIndices a b).getD k 0 >>> 6).testBit (5 - t) = packAt 24 a b (12 * k + t) ∧
      ((sboxIndices a b).getD k 0 &&& 0x3f).testBit (5 - t) = packAt 24 a b (12 * k + (6 + t)) := by
  intro k hk t ht
  have h6 : ∀ i < 6, Nat.testBit 0x3f i = true := by decide
  have h12 : ∀ i < 12, (0xfff : Word).getLsbD i = true := by decide
  have hlow := h6 (5 - t) (by omega)
  have hmid := h12 (5 - t) (by omega)
  have hhigh := h12 (6 + (5 - t)) (by omega)
  unfold packAt sboxIndices
  interval_cases k
  all_goals
    simp only [List.getD_cons_zero, List.getD_cons_succ, Nat.testBit_shiftRight, Nat.testBit_and,
      BitVec.testBit_toNat, BitVec.getLsbD_and, BitVec.getLsbD_ushiftRight, hlow, hmid, hhigh,
      Bool.and_true, Nat.reduceSub, Nat.reduceMul]
    constructor
    · split
      · first | (refine congrArg (BitVec.getLsbD _) ?_; omega) | omega
      · first | (refine congrArg (BitVec.getLsbD _) ?_; omega) | omega
    · split
      · first | (refine congrArg (BitVec.getLsbD _) ?_; omega) | omega
      · first | (refine congrArg (BitVec.getLsbD _) ?_; omega) | omega

theorem sboxValue_congr (i : Nat) {b b' : Nat → Bool} (h : ∀ t < 6, b t = b' t) :
    sboxValue i b = sboxValue i b' := by
  unfold sboxValue
  rw [h 0 (by decide), h 1 (by decide), h 2 (by decide), h 3 (by decide), h 4 (by decide),
    h 5 (by decide)]

/-- An entry of `m_sbox` has the outputs of two S-boxes, four bits each. -/
theorem mSbox_bit (b : Nat) {n : Nat} (hn : n < 4096) {j : Nat} (hj : j < 8) :
    (mSbox b n).testBit (7 - j) =
      if j < 4 then (sboxValue (2 * b) fun t => (n >>> 6).testBit (5 - t)).testBit (3 - j)
      else (sboxValue (2 * b + 1) fun t => (n &&& 0x3f).testBit (5 - t)).testBit (7 - j) := by
  have hhigh : n >>> 6 < 64 := by
    rw [Nat.shiftRight_eq_div_pow]
    omega
  have hlow : n &&& 0x3f < 64 := Nat.lt_of_le_of_lt Nat.and_le_right (by decide)
  have hbox : b <<< 1 = 2 * b := by
    rw [Nat.shiftLeft_eq, Nat.pow_one, Nat.mul_comm]
  unfold mSbox
  dsimp only
  rw [hbox, uSbox_eq _ hhigh, uSbox_eq _ hlow, Nat.testBit_or, Nat.testBit_shiftLeft]
  have hlt := sboxValue_lt (2 * b + 1) fun t => (n &&& 0x3f).testBit (5 - t)
  split
  · next h =>
    have hge : 4 ≤ 7 - j := by omega
    have hpow : 2 ^ 4 ≤ 2 ^ (7 - j) := Nat.pow_le_pow_right (by decide) hge
    have hpos : 7 - j - 4 = 3 - j := by omega
    rw [decide_eq_true hge, Bool.true_and, hpos, Nat.testBit_lt_two_pow (Nat.lt_of_lt_of_le hlt hpow),
      Bool.or_false]
  · next h =>
    have hnot : ¬ 4 ≤ 7 - j := by omega
    rw [decide_eq_false hnot, Bool.false_and, Bool.false_or]

theorem sboxIndices_bit {a b : Word} (ha : Fits a) (hb : Fits b) {k j : Nat} (hk : k < 4)
    (hj : j < 8) : (mSbox k ((sboxIndices a b).getD k 0)).testBit (7 - j) =
      (sboxes (pack 24 a b)).bit (8 * k + j) := by
  have hlen : k < (sboxIndices a b).length := hk
  have hn : (sboxIndices a b).getD k 0 < 4096 := by
    rw [List.getD_eq_getElem _ _ hlen]
    exact substitute_inBounds ha hb _ (List.getElem_mem hlen)
  have hlt : 8 * k + j < 32 := by omega
  have hbit : (sboxes (pack 24 a b)).bit (8 * k + j) =
      (sboxValue ((8 * k + j) / 4) fun t => (pack 24 a b).bit (6 * ((8 * k + j) / 4) + t)).testBit
        (3 - (8 * k + j) % 4) := dif_pos hlt
  rw [hbit, mSbox_bit k hn hj]
  split
  · next h =>
    have hbox : (8 * k + j) / 4 = 2 * k := by omega
    have hpos : (8 * k + j) % 4 = j := by omega
    rw [hbox, hpos]
    refine congrArg (Nat.testBit · _) (sboxValue_congr _ fun t ht => ?_)
    have hgroup : 6 * (2 * k) + t = 12 * k + t := by omega
    rw [(sixBits a b k hk t ht).1, hgroup, bit_pack 24 a b (by omega)]
  · next h =>
    have hbox : (8 * k + j) / 4 = 2 * k + 1 := by omega
    have hpos : 3 - (8 * k + j) % 4 = 7 - j := by omega
    rw [hbox, hpos]
    refine congrArg (Nat.testBit · _) (sboxValue_congr _ fun t ht => ?_)
    have hgroup : 6 * (2 * k + 1) + t = 12 * k + (6 + t) := by omega
    rw [(sixBits a b k hk t ht).2, hgroup, bit_pack 24 a b (by omega)]

theorem pbox_nodup : pbox.Nodup := by decide

theorem pbox_pos : ∀ p ∈ pbox, p ≠ 0 := by decide

theorem mem_pbox : ∀ p < 32, p + 1 ∈ pbox := by decide

theorem pbox_bound (o : Fin 32) : pbox.getD o 0 - 1 < 32 := by
  revert o
  decide

/-- The S-box lookups and the lookups in the P-box tables behind them. -/
theorem substitute_eq {a b : Word} (ha : Fits a) (hb : Fits b) :
    wordBits (substitute a b) = (sboxes (pack 24 a b)).select pbox := by
  funext o
  have hlt := pbox_bound o
  show (substitute a b).getLsbD (31 - o) = (sboxes (pack 24 a b)).bit (pbox.getD o 0 - 1)
  have hentry : ∀ k < 4, ([mSbox 0 (a >>> 12).toNat, mSbox 1 (a &&& 0xfff).toNat,
      mSbox 2 (b >>> 12).toNat, mSbox 3 (b &&& 0xfff).toNat] : List Nat).getD k 0 =
      mSbox k ((sboxIndices a b).getD k 0) := by
    intro k hk
    interval_cases k
    all_goals rfl
  unfold substitute
  rw [Bool.eq_iff_iff, getLsbD_lookup]
  constructor
  · rintro ⟨k, hk, hbit⟩
    have hk : k < 4 := hk
    rw [hentry k hk] at hbit
    obtain ⟨j, hj, hset, hmask⟩ := (getLsbD_orMask _ (Nat.le_refl 8) _ _).mp hbit
    rcases invertTable_cases pbox_nodup pbox_pos (fun _ => 0) (8 * k + j) with
      ⟨hin, hback⟩ | ⟨hno, -⟩
    · have hto : unPbox (8 * k + j) = o := by
        have hdec := bits32_bit (unPbox (8 * k + j)) hin o o.isLt
        rw [hmask] at hdec
        exact of_decide_eq_true hdec.symm
      have hsrc : pbox.getD o 0 - 1 = 8 * k + j := by
        rw [← hto]
        exact hback
      rw [hsrc, ← sboxIndices_bit ha hb hk hj]
      exact hset
    · exact absurd (mem_pbox _ (by omega)) hno
  · intro hset
    have hk : (pbox.getD o 0 - 1) / 8 < 4 := by omega
    have hj : (pbox.getD o 0 - 1) % 8 < 8 := Nat.mod_lt _ (by decide)
    have hsplit : 8 * ((pbox.getD o 0 - 1) / 8) + (pbox.getD o 0 - 1) % 8 =
        pbox.getD o 0 - 1 := Nat.div_add_mod _ 8
    have hto : unPbox (pbox.getD o 0 - 1) = o := invertTable_table pbox_nodup pbox_pos _ o.isLt
    have hgroup := sboxIndices_bit ha hb hk hj
    rw [hsplit, hset] at hgroup
    refine ⟨(pbox.getD o 0 - 1) / 8, hk, ?_⟩
    rw [hentry _ hk]
    refine (getLsbD_orMask _ (Nat.le_refl 8) _ _).mpr ⟨_, hj, hgroup, ?_⟩
    rw [hsplit, hto, bits32_bit o o.isLt o o.isLt]
    exact decide_eq_true rfl

/-! ## A round -/

/-- `saltbits` are the low 24 bits of the salt, the other way round. -/
structure SaltOf (saltbits salt : Word) : Prop where
  fits : Fits saltbits
  bit : ∀ o < 24, saltbits.getLsbD (23 - o) = salt.getLsbD o

/-- Salting exchanges bits of the two words, and the key is added. -/
theorem pack_salted {saltbits salt : Word} (hs : SaltOf saltbits salt) (l r kl kr : Word) :
    pack 24 (l ^^^ (((l ^^^ r) &&& saltbits) ^^^ kl)) (r ^^^ (((l ^^^ r) &&& saltbits) ^^^ kr)) =
      (saltSwap salt (pack 24 l r)).xor (pack 24 kl kr) := by
  have hchoose : ∀ x y s k : Bool,
      ((x ^^ (((x ^^ y) && s) ^^ k)) = ((if s then y else x) ^^ k)) ∧
        ((y ^^ (((x ^^ y) && s) ^^ k)) = ((if s then x else y) ^^ k)) := by decide
  funext o
  have hother : (pack 24 l r).bit ((o.val + 24) % 48) = packAt 24 l r ((o.val + 24) % 48) :=
    bit_pack 24 l r (Nat.mod_lt _ (by decide))
  show packAt 24 _ _ o.val = ((if salt.getLsbD (o.val % 24) then
    (pack 24 l r).bit ((o.val + 24) % 48) else packAt 24 l r o.val) ^^ packAt 24 kl kr o.val)
  rw [hother]
  unfold packAt
  by_cases ho : o.val < 24
  · have hsalt : salt.getLsbD (o.val % 24) = saltbits.getLsbD (24 - 1 - o.val) := by
      rw [Nat.mod_eq_of_lt ho, ← hs.bit o ho]
    have hswap : ¬ (o.val + 24) % 48 < 24 := by omega
    have hpos : 2 * 24 - 1 - (o.val + 24) % 48 = 24 - 1 - o.val := by omega
    rw [if_pos ho, if_pos ho, if_pos ho, if_neg hswap, hpos, hsalt, BitVec.getLsbD_xor,
      BitVec.getLsbD_xor, BitVec.getLsbD_and, BitVec.getLsbD_xor]
    exact (hchoose _ _ _ _).1
  · have hmod : o.val % 24 = o.val - 24 := by omega
    have hrev : 23 - (o.val - 24) = 2 * 24 - 1 - o.val := by omega
    have hsalt : salt.getLsbD (o.val % 24) = saltbits.getLsbD (2 * 24 - 1 - o.val) := by
      rw [hmod, ← hs.bit _ (by omega), hrev]
    have hswap : (o.val + 24) % 48 < 24 := by omega
    have hpos : 24 - 1 - (o.val + 24) % 48 = 2 * 24 - 1 - o.val := by omega
    rw [if_neg ho, if_neg ho, if_neg ho, if_pos hswap, hpos, hsalt, BitVec.getLsbD_xor,
      BitVec.getLsbD_xor, BitVec.getLsbD_and, BitVec.getLsbD_xor]
    exact (hchoose _ _ _ _).2

/-- The indices of a round into `m_sbox`. -/
def roundIndices (saltbits : Word) (key : Word × Word) (r : Word) : List Nat :=
  let f := (expandl r ^^^ expandr r) &&& saltbits
  sboxIndices (expandl r ^^^ (f ^^^ key.1)) (expandr r ^^^ (f ^^^ key.2))

section Round

variable {saltbits : Word} (hs : Fits saltbits) {kl kr : Word} (hl : Fits kl) (hr : Fits kr)
  (r : Word)
include hs hl hr

/-- Both words of what a round looks up have 24 bits. -/
theorem salted_fits :
    Fits (expandl r ^^^ (((expandl r ^^^ expandr r) &&& saltbits) ^^^ kl)) ∧
      Fits (expandr r ^^^ (((expandl r ^^^ expandr r) &&& saltbits) ^^^ kr)) :=
  ⟨(expandl_fits r).xor ((hs.and _).xor hl), (expandr_fits r).xor ((hs.and _).xor hr)⟩

theorem roundIndices_lt : ∀ n ∈ roundIndices saltbits (kl, kr) r, n < 4096 := by
  obtain ⟨ha, hb⟩ := salted_fits hs hl hr r
  exact substitute_inBounds ha hb

end Round

theorem cipherf_eq {saltbits salt : Word} (hs : SaltOf saltbits salt) {kl kr : Word}
    (hl : Fits kl) (hr : Fits kr) (r : Word) :
    wordBits (cipherf saltbits (kl, kr) r) = roundf salt (pack 24 kl kr) (wordBits r) := by
  obtain ⟨ha, hb⟩ := salted_fits hs.fits hl hr r
  unfold cipherf roundf
  rw [← expand_eq, ← pack_salted hs]
  exact substitute_eq ha hb

/-! ## Rounds and passes -/

/-- The subkeys that two arrays hold. -/
def keysOf (kl kr : Nat → Word) : List (Bits 48) :=
  (List.range 16).map fun i => pack 24 (kl i) (kr i)

/-- The 16 pairs of subkeys have 24 bits each. -/
def KeysFit (kl kr : Nat → Word) : Prop := ∀ i < 16, Fits (kl i) ∧ Fits (kr i)

section Rounds

variable {saltbits salt : Word} (hs : SaltOf saltbits salt) {kl kr : Nat → Word}
include hs

theorem foldl_desRound (rounds : List Nat) (hfit : ∀ i ∈ rounds, Fits (kl i) ∧ Fits (kr i))
    (b : Word × Word) :
    (rounds.foldl (desRound saltbits kl kr) b).map wordBits wordBits =
      Feistel.rounds Bits.xor (roundf salt) (rounds.map fun i => pack 24 (kl i) (kr i))
        (b.map wordBits wordBits) := by
  induction rounds generalizing b with
  | nil => rfl
  | cons i rounds ih =>
    obtain ⟨hl, hr⟩ := hfit i List.mem_cons_self
    have hround : (desRound saltbits kl kr b i).map wordBits wordBits =
        Feistel.round Bits.xor (roundf salt) (b.map wordBits wordBits) (pack 24 (kl i) (kr i)) := by
      show (wordBits b.2, wordBits (cipherf saltbits (kl i, kr i) b.2 ^^^ b.1)) =
        (wordBits b.2, (roundf salt (pack 24 (kl i) (kr i)) (wordBits b.2)).xor (wordBits b.1))
      rw [wordBits_xor, cipherf_eq hs hl hr]
    rw [List.foldl_cons, List.map_cons, Feistel.rounds_cons, ← hround]
    exact ih (fun j hj => hfit j (List.mem_cons_of_mem i hj)) _

variable (hk : KeysFit kl kr)
include hk

theorem desRounds_eq (b : Word × Word) :
    (desRounds saltbits kl kr b).map wordBits wordBits =
      Feistel.network Bits.xor (roundf salt) (keysOf kl kr) (b.map wordBits wordBits) := by
  have hrounds := foldl_desRound hs (List.range 16)
    (fun i hi => hk i (List.mem_range.mp hi)) b
  unfold Feistel.network keysOf
  rw [← hrounds]
  rfl

theorem desRounds_iterate (n : Nat) (b : Word × Word) :
    ((desRounds saltbits kl kr)^[n] b).map wordBits wordBits =
      (Feistel.network Bits.xor (roundf salt) (keysOf kl kr))^[n] (b.map wordBits wordBits) := by
  have hsemi : Function.Semiconj (Prod.map wordBits wordBits) (desRounds saltbits kl kr)
      (Feistel.network Bits.xor (roundf salt) (keysOf kl kr)) := desRounds_eq hs hk
  exact (hsemi.iterate_right n).eq b

end Rounds

theorem halves_pack (l r : Word) : halves (pack 32 l r) = (wordBits l, wordBits r) := by
  refine Prod.ext ?_ ?_
  · funext o
    have hlt : o.val < 64 := by omega
    exact (dif_pos hlt).trans (if_pos o.isLt)
  · funext o
    have hlt : o.val + 32 < 64 := by omega
    have hge : ¬ o.val + 32 < 32 := by omega
    have hpos : 2 * 32 - 1 - (o.val + 32) = 31 - o.val := by omega
    show (pack 32 l r).bit (o.val + 32) = r.getLsbD (31 - o.val)
    rw [bit_pack 32 l r hlt, packAt, if_neg hge, hpos]

theorem ofHalves_words (l r : Word) :
    ofHalves (wordBits l, wordBits r) = finalPermutation (pack 32 l r) := by
  unfold ofHalves
  rw [← halves_pack, join_halves]

/-- The keys that `do_des` uses for this count. -/
def Context.keys (ctx : Context) (count : Int) : List (Bits 48) :=
  if 0 < count then keysOf ctx.enKeysl ctx.enKeysr else keysOf ctx.deKeysl ctx.deKeysr

/-- All subkeys of the context have 24 bits. -/
def Context.Keyed (ctx : Context) : Prop :=
  KeysFit ctx.enKeysl ctx.enKeysr ∧ KeysFit ctx.deKeysl ctx.deKeysr

theorem doDes_zero (ctx : Context) (l r : Word) : doDes ctx l r 0 = none := rfl

/-- `do_des` makes `|count|` passes of the cipher. -/
theorem doDes_eq {ctx : Context} {salt : Word} (hs : SaltOf ctx.saltbits salt) (hk : ctx.Keyed)
    (l r : Word) {count : Int} (hcount : count ≠ 0) :
    ∃ l' r', doDes ctx l r count = some (l', r') ∧
      pack 32 l' r' = (encipher salt (ctx.keys count))^[count.natAbs] (pack 32 l r) := by
  have hpass : ∀ kl kr : Nat → Word, KeysFit kl kr → ∀ n : Nat,
      let b := (desRounds ctx.saltbits kl kr)^[n]
        (lookup ipMaskl (byteIndices l r), lookup ipMaskr (byteIndices l r))
      pack 32 (lookup fpMaskl (byteIndices b.1 b.2)) (lookup fpMaskr (byteIndices b.1 b.2)) =
        (encipher salt (keysOf kl kr))^[n] (pack 32 l r) := by
    intro kl kr hfit n b
    have hstart : toHalves (pack 32 l r) = Prod.map wordBits wordBits
        (lookup ipMaskl (byteIndices l r), lookup ipMaskr (byteIndices l r)) := by
      unfold toHalves
      rw [← initial_tables, halves_pack]
      rfl
    rw [final_tables, ← ofHalves_words, encipher_iterate, hstart, ← desRounds_iterate hs hfit]
    rfl
  unfold doDes Context.keys
  rw [if_neg hcount]
  by_cases hpos : 0 < count
  · simp only [if_pos hpos]
    exact ⟨_, _, rfl, hpass _ _ hk.1 _⟩
  · simp only [if_neg hpos]
    exact ⟨_, _, rfl, hpass _ _ hk.2 _⟩

end SsrlApps.Des
