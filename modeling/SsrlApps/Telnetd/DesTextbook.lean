/-
  DES as textbooks describe it, bit by bit, with the salt that crypt adds.

  Model. Blocks, keys and subkeys are bit strings, permutations are read off their tables.
  The salt exchanges bits `i` and `i + 24` of the expanded half block for each of its bits `i`
  that is set; without salt this is the DES of the standard. The tables are those of des.c,
  and the E-box, which des.c does not have.

  Proved:
  * `finalPermutation_initial`, `initialPermutation_final`: the two permutations are inverse.
  * `encipher_iterate`: between two passes they cancel.
  * `encipher_reverse`: the subkeys in reverse order decipher, after any number of passes.
  * `subkeys_complement`, `encipher_complement`: the complement of the key enciphers the
    complement of the block to the complement of the result.
  * `subkeys_congr`: the last bit of each byte of the key is not used.
  * `subkeysFrom_weak`, `encipher_weak`: keys that rotation leaves alone make an involution.
-/
import SsrlApps.Lib.Feistel
import SsrlApps.Telnetd.Des
import Mathlib.Logic.Function.Conjugate

namespace SsrlApps.Des

open BitRoute

/-! ## The cipher -/

/-- The E-box. -/
def expansion : List Nat := [
  32,  1,  2,  3,  4,  5,  4,  5,  6,  7,  8,  9,
   8,  9, 10, 11, 12, 13, 12, 13, 14, 15, 16, 17,
  16, 17, 18, 19, 20, 21, 20, 21, 22, 23, 24, 25,
  24, 25, 26, 27, 28, 29, 28, 29, 30, 31, 32,  1]

/-- Each bit of the salt exchanges two bits. -/
def saltSwap (salt : Word) (x : Bits 48) : Bits 48 := fun o =>
  if salt.getLsbD (o.val % 24) then x.bit ((o.val + 24) % 48) else x o

/-- An S-box, at six bits: the outer two choose the row, the inner four the column. -/
def sboxValue (box : Nat) (b : Nat → Bool) : Nat :=
  let row := 2 * (b 0).toNat + (b 5).toNat
  let column := 8 * (b 1).toNat + 4 * (b 2).toNat + 2 * (b 3).toNat + (b 4).toNat
  (sbox.getD box []).getD (16 * row + column) 0

/-- The eight S-boxes side by side. -/
def sboxes (x : Bits 48) : Bits 32 := fun o =>
  (sboxValue (o.val / 4) fun t => x.bit (6 * (o.val / 4) + t)).testBit (3 - o.val % 4)

/-- The round function. -/
def roundf (salt : Word) (k : Bits 48) (x : Bits 32) : Bits 32 :=
  (sboxes ((saltSwap salt (x.select expansion)).xor k)).select pbox

def initialPermutation (x : Bits 64) : Bits 64 := x.select ip

/-- The inverse of the initial permutation. -/
def finalPermutation (x : Bits 64) : Bits 64 := fun o => x.bit (ip.idxOf (o.val + 1))

def halves (x : Bits 64) : Bits 32 × Bits 32 :=
  (fun o => x.bit o.val, fun o => x.bit (o.val + 32))

def join (b : Bits 32 × Bits 32) : Bits 64 := fun o =>
  if o.val < 32 then b.1.bit o.val else b.2.bit (o.val - 32)

def encipher (salt : Word) (ks : List (Bits 48)) (x : Bits 64) : Bits 64 :=
  finalPermutation (join (Feistel.network Bits.xor (roundf salt) ks (halves (initialPermutation x))))

/-! ## The key schedule -/

/-- Both halves of 56 bits, rotated to the left. -/
def rotateHalves (s : Nat) (x : Bits 56) : Bits 56 := fun o =>
  if o.val < 28 then x.bit ((o.val + s) % 28) else x.bit (28 + (o.val - 28 + s) % 28)

def subkeysFrom : List Nat → Bits 56 → List (Bits 48)
  | [], _ => []
  | s :: ss, cd => (rotateHalves s cd).select compPerm :: subkeysFrom ss (rotateHalves s cd)

def subkeys (key : Bits 64) : List (Bits 48) := subkeysFrom keyShifts (key.select keyPerm)

/-! ## Permutations and halves -/

theorem ip_index (o : Fin 64) : ip.getD o 0 - 1 < 64 ∧ ip.idxOf (ip.getD o 0 - 1 + 1) = o := by
  revert o
  decide

theorem ip_idxOf (o : Fin 64) : ip.idxOf (o.val + 1) < 64 ∧ ip.getD (ip.idxOf (o.val + 1)) 0 - 1 = o := by
  revert o
  decide

theorem bit_initial (x : Bits 64) {p : Nat} (hp : p < 64) :
    (initialPermutation x).bit p = x.bit (ip.getD p 0 - 1) := dif_pos hp

theorem bit_final (x : Bits 64) {p : Nat} (hp : p < 64) :
    (finalPermutation x).bit p = x.bit (ip.idxOf (p + 1)) := dif_pos hp

theorem finalPermutation_initial (x : Bits 64) :
    finalPermutation (initialPermutation x) = x := by
  funext o
  obtain ⟨hlt, hback⟩ := ip_idxOf o
  show (initialPermutation x).bit (ip.idxOf (o.val + 1)) = x o
  rw [bit_initial x hlt, hback, Bits.bit_val]

theorem initialPermutation_final (x : Bits 64) :
    initialPermutation (finalPermutation x) = x := by
  funext o
  obtain ⟨hlt, hback⟩ := ip_index o
  show (finalPermutation x).bit (ip.getD o 0 - 1) = x o
  rw [bit_final x hlt, hback, Bits.bit_val]

theorem join_halves (x : Bits 64) : join (halves x) = x := by
  funext o
  unfold join
  split
  · next h => exact (dif_pos h).trans (Bits.bit_val x o)
  · next h =>
    have hlt : o.val - 32 < 32 := by omega
    have hback : o.val - 32 + 32 = o := by omega
    refine (dif_pos hlt).trans ?_
    show x.bit (o.val - 32 + 32) = x o
    rw [hback, Bits.bit_val]

theorem halves_join (b : Bits 32 × Bits 32) : halves (join b) = b := by
  refine Prod.ext ?_ ?_
  · funext o
    have hlt : o.val < 64 := by omega
    show (join b).bit o = b.1 o
    refine (dif_pos hlt).trans ((if_pos o.isLt).trans (Bits.bit_val b.1 o))
  · funext o
    have hlt : o.val + 32 < 64 := by omega
    have hge : ¬ o.val + 32 < 32 := by omega
    show (join b).bit (o.val + 32) = b.2 o
    refine (dif_pos hlt).trans ((if_neg hge).trans ?_)
    show b.2.bit (o.val + 32 - 32) = b.2 o
    rw [Nat.add_sub_cancel, Bits.bit_val]

/-- The two halves that the rounds start with. -/
def toHalves (x : Bits 64) : Bits 32 × Bits 32 := halves (initialPermutation x)

/-- The block that two halves end as. -/
def ofHalves (b : Bits 32 × Bits 32) : Bits 64 := finalPermutation (join b)

theorem ofHalves_toHalves (x : Bits 64) : ofHalves (toHalves x) = x := by
  unfold ofHalves toHalves
  rw [join_halves, finalPermutation_initial]

theorem toHalves_ofHalves (b : Bits 32 × Bits 32) : toHalves (ofHalves b) = b := by
  unfold ofHalves toHalves
  rw [initialPermutation_final, halves_join]

/-! ## Several passes, and back -/

section Passes

variable (salt : Word) (ks : List (Bits 48))

theorem toHalves_encipher (x : Bits 64) :
    toHalves (encipher salt ks x) = Feistel.network Bits.xor (roundf salt) ks (toHalves x) :=
  toHalves_ofHalves _

/-- Between two passes the permutations cancel. -/
theorem encipher_iterate (n : Nat) (x : Bits 64) :
    (encipher salt ks)^[n] x =
      ofHalves ((Feistel.network Bits.xor (roundf salt) ks)^[n] (toHalves x)) := by
  have hsemi : Function.Semiconj toHalves (encipher salt ks)
      (Feistel.network Bits.xor (roundf salt) ks) := toHalves_encipher salt ks
  rw [← (hsemi.iterate_right n).eq x, ofHalves_toHalves]

/-- Deciphering: the subkeys in reverse order, as many passes. -/
theorem encipher_reverse (n : Nat) (x : Bits 64) :
    (encipher salt ks.reverse)^[n] ((encipher salt ks)^[n] x) = x := by
  rw [encipher_iterate, encipher_iterate, toHalves_ofHalves,
    Feistel.network_reverse_iterate Bits.xor_cancel, ofHalves_toHalves]

theorem encipher_palindrome {ks : List (Bits 48)} (hks : ks.reverse = ks) (x : Bits 64) :
    encipher salt ks (encipher salt ks x) = x := by
  have h := encipher_reverse salt ks 1 x
  rw [hks] at h
  exact h

end Passes

/-! ## The complement -/

theorem expansion_bound (o : Fin 48) : expansion.getD o 0 - 1 < 32 := by
  revert o
  decide

theorem keyPerm_bound (o : Fin 56) : keyPerm.getD o 0 - 1 < 64 ∧ (keyPerm.getD o 0 - 1) % 8 ≠ 7 := by
  revert o
  decide

theorem compPerm_bound (o : Fin 48) : compPerm.getD o 0 - 1 < 56 := by
  revert o
  decide

theorem saltSwap_complement (salt : Word) (x : Bits 48) :
    saltSwap salt x.complement = (saltSwap salt x).complement := by
  funext o
  have hlt : (o.val + 24) % 48 < 48 := Nat.mod_lt _ (by decide)
  unfold saltSwap
  show (if salt.getLsbD (o.val % 24) then x.complement.bit ((o.val + 24) % 48) else !x o) =
    !(if salt.getLsbD (o.val % 24) then x.bit ((o.val + 24) % 48) else x o)
  rw [Bits.bit_complement x hlt]
  split
  · rfl
  · rfl

/-- The round function does not see that both its arguments are complemented. -/
theorem roundf_complement (salt : Word) (k : Bits 48) (x : Bits 32) :
    roundf salt k.complement x.complement = roundf salt k x := by
  unfold roundf
  rw [Bits.select_complement expansion_bound, saltSwap_complement,
    Bits.complement_xor_complement]

theorem toHalves_complement (x : Bits 64) :
    toHalves x.complement = (toHalves x).map Bits.complement Bits.complement := by
  have hip : initialPermutation x.complement = (initialPermutation x).complement :=
    Bits.select_complement (fun o => (ip_index o).1) x
  unfold toHalves
  rw [hip]
  refine Prod.ext ?_ ?_
  · funext o
    exact Bits.bit_complement _ (by omega)
  · funext o
    exact Bits.bit_complement _ (by omega)

theorem encipher_complement (salt : Word) (ks : List (Bits 48)) (n : Nat) (x : Bits 64) :
    (encipher salt (ks.map Bits.complement))^[n] x.complement =
      ((encipher salt ks)^[n] x).complement := by
  have hhalves : toHalves ((encipher salt (ks.map Bits.complement))^[n] x.complement) =
      toHalves ((encipher salt ks)^[n] x).complement := by
    rw [toHalves_complement, encipher_iterate, encipher_iterate, toHalves_ofHalves,
      toHalves_ofHalves, toHalves_complement]
    exact Feistel.network_map_iterate (roundf_complement salt) Bits.xor_complement ks n _
  rw [← ofHalves_toHalves ((encipher salt (ks.map Bits.complement))^[n] x.complement), hhalves,
    ofHalves_toHalves]

theorem rotateHalves_complement (s : Nat) (x : Bits 56) :
    rotateHalves s x.complement = (rotateHalves s x).complement := by
  funext o
  have hmod : ∀ a, a % 28 < 28 := fun a => Nat.mod_lt a (by decide)
  unfold rotateHalves
  show (if o.val < 28 then x.complement.bit ((o.val + s) % 28)
      else x.complement.bit (28 + (o.val - 28 + s) % 28)) =
    !(if o.val < 28 then x.bit ((o.val + s) % 28) else x.bit (28 + (o.val - 28 + s) % 28))
  split
  · exact Bits.bit_complement x (Nat.lt_trans (hmod _) (by decide))
  · exact Bits.bit_complement x (Nat.add_lt_add_left (hmod _) 28)

theorem subkeysFrom_complement (ss : List Nat) (cd : Bits 56) :
    subkeysFrom ss cd.complement = (subkeysFrom ss cd).map Bits.complement := by
  induction ss generalizing cd with
  | nil => rfl
  | cons s ss ih =>
    unfold subkeysFrom
    rw [rotateHalves_complement, Bits.select_complement compPerm_bound, ih]
    rfl

theorem subkeys_complement (key : Bits 64) :
    subkeys key.complement = (subkeys key).map Bits.complement := by
  unfold subkeys
  rw [Bits.select_complement fun o => (keyPerm_bound o).1, subkeysFrom_complement]

/-! ## Parity bits and weak keys -/

/-- Keys that differ in the last bits of their bytes only have the same subkeys. -/
theorem subkeys_congr {key key' : Bits 64}
    (h : ∀ p, p < 64 → p % 8 ≠ 7 → key.bit p = key'.bit p) : subkeys key = subkeys key' := by
  have hsel : (key.select keyPerm : Bits 56) = key'.select keyPerm := by
    funext o
    obtain ⟨hlt, hpar⟩ := keyPerm_bound o
    exact h _ hlt hpar
  unfold subkeys
  rw [hsel]

/-- Each half of the 56 bits consists of equal bits. -/
structure Weak (cd : Bits 56) : Prop where
  left : ∀ p, p < 28 → cd.bit p = cd.bit 0
  right : ∀ p, p < 28 → cd.bit (28 + p) = cd.bit 28

theorem rotateHalves_weak {cd : Bits 56} (h : Weak cd) (s : Nat) : rotateHalves s cd = cd := by
  funext o
  have hmod : ∀ a, a % 28 < 28 := fun a => Nat.mod_lt a (by decide)
  rw [← Bits.bit_val cd o]
  unfold rotateHalves
  split
  · next hlt => rw [h.left _ (hmod _), h.left _ hlt]
  · next hge =>
    have hsplit : o.val = 28 + (o.val - 28) := by omega
    have hlt : o.val - 28 < 28 := by omega
    rw [h.right _ (hmod _)]
    conv_rhs => rw [hsplit]
    rw [h.right _ hlt]

theorem subkeysFrom_weak {cd : Bits 56} (h : Weak cd) (ss : List Nat) :
    subkeysFrom ss cd = List.replicate ss.length (cd.select compPerm) := by
  induction ss with
  | nil => rfl
  | cons s ss ih =>
    unfold subkeysFrom
    rw [rotateHalves_weak h, ih]
    rfl

/-- With a weak key two passes cancel. -/
theorem encipher_weak (salt : Word) {key : Bits 64} (h : Weak (key.select keyPerm))
    (x : Bits 64) : encipher salt (subkeys key) (encipher salt (subkeys key) x) = x := by
  refine encipher_palindrome salt ?_ x
  unfold subkeys
  rw [subkeysFrom_weak h, List.reverse_replicate]

end SsrlApps.Des
