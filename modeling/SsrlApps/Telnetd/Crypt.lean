/-
  `__des_crypt_r` of telnetd/des.c.

  Model. Strings are lists of bytes without their NUL, which is read behind the end; the result
  is what the buffer `output` holds, with its NUL. `desCryptR` takes the memory that the context
  is allocated in, which `malloc` does not clear.

  The abstract hash is `hashBits`: 25 passes of the salted cipher over a block of zeros. It is
  written with eleven characters, six bits each; `encode` and `decode` say so for all 64 bits.

  Proved:
  * `encodeResult_eq`: the shifts and masks write these groups of six bits.
  * `decode_encode`, `encode_decode`: nothing is lost, and which strings can be read back.
  * `copyKey_eq`: which characters of the key count.
  * `desCryptR_eq`: the result, whatever the memory was.
  * `desCryptR_inj`: equal results have equal salts and hashes.
  * `hashBits_congr`, `hashBits_empty`: characters that do not count do not matter, and where
    none counts, 25 passes are one.
-/
import SsrlApps.Telnetd.DesContext
import SsrlApps.Telnetd.Pty

namespace SsrlApps.Des

open BitRoute Telnetd

/-! ## Six bits a character -/

def ascii64 : List UInt8 :=
  ascii "./0123456789ABCDEFGHIJKLMNOPQRSTUVWXYZabcdefghijklmnopqrstuvwxyz"

def asciiToBin (ch : UInt8) : Nat :=
  if 'z'.toNat < ch.toNat then 0
  else if 'a'.toNat ≤ ch.toNat then ch.toNat - 'a'.toNat + 38
  else if 'Z'.toNat < ch.toNat then 0
  else if 'A'.toNat ≤ ch.toNat then ch.toNat - 'A'.toNat + 12
  else if '9'.toNat < ch.toNat then 0
  else if '.'.toNat ≤ ch.toNat then ch.toNat - '.'.toNat
  else 0

/-- `ascii64[w & 0x3f]` -/
def ascii64At (w : Word) : UInt8 := ascii64.getD (w &&& 0x3f).toNat 0

/-- The eleven characters behind the salt. -/
def encodeResult (r0 r1 : Word) : List UInt8 :=
  let l := r0 >>> 8
  let m := (r0 <<< 16) ||| ((r1 >>> 16) &&& 0xffff)
  let n := r1 <<< 2
  [ascii64At (l >>> 18), ascii64At (l >>> 12), ascii64At (l >>> 6), ascii64At l,
    ascii64At (m >>> 18), ascii64At (m >>> 12), ascii64At (m >>> 6), ascii64At m,
    ascii64At (n >>> 12), ascii64At (n >>> 6), ascii64At n]

/-- Six bits of a block, from bit `6 * k` on; the last group is padded with zeros. -/
def groupValue (x : Bits 64) (k : Nat) : Nat :=
  (List.range 6).foldl (fun v t => 2 * v + (x.bit (6 * k + t)).toNat) 0

def encode (x : Bits 64) : List UInt8 :=
  (List.range 11).map fun k => ascii64.getD (groupValue x k) 0

def decode (s : List UInt8) : Bits 64 := fun o =>
  (asciiToBin (s.getD (o.val / 6) 0)).testBit (5 - o.val % 6)

set_option maxRecDepth 8000 in
theorem asciiToBin_ascii64 : ∀ i < 64, asciiToBin (ascii64.getD i 0) = i := by decide

set_option maxRecDepth 8000 in
theorem ascii64_all : (ascii64.all fun c => ascii64.getD (asciiToBin c) 0 == c && c != 0) = true := by
  decide

theorem ascii64_asciiToBin (c : UInt8) (hc : c ∈ ascii64) : ascii64.getD (asciiToBin c) 0 = c := by
  have hall := List.all_eq_true.mp ascii64_all c hc
  rw [Bool.and_eq_true] at hall
  exact eq_of_beq hall.1

theorem ascii64_ne_zero (c : UInt8) (hc : c ∈ ascii64) : c ≠ 0 := by
  have hall := List.all_eq_true.mp ascii64_all c hc
  rw [Bool.and_eq_true] at hall
  exact bne_iff_ne.mp hall.2

set_option maxRecDepth 8000 in
theorem ascii64_mem : ∀ i < 64, ascii64.getD i 0 ∈ ascii64 := by decide

theorem asciiToBin_lt (ch : UInt8) : asciiToBin ch < 64 := by
  have hz : 'z'.toNat = 122 := rfl
  have hZ : 'Z'.toNat = 90 := rfl
  have h9 : '9'.toNat = 57 := rfl
  have ha : 'a'.toNat = 97 := rfl
  have hA : 'A'.toNat = 65 := rfl
  have hdot : '.'.toNat = 46 := rfl
  unfold asciiToBin
  repeat' split
  all_goals omega

/-- Six bits make a number that has these bits. -/
theorem sixBits_testBit : ∀ b0 b1 b2 b3 b4 b5 : Bool, ∀ t < 6,
    (2 * (2 * (2 * (2 * (2 * (2 * 0 + b0.toNat) + b1.toNat) + b2.toNat) + b3.toNat) +
      b4.toNat) + b5.toNat).testBit (5 - t) = [b0, b1, b2, b3, b4, b5].getD t false := by
  decide

theorem groupValue_testBit (x : Bits 64) (k : Nat) {t : Nat} (ht : t < 6) :
    (groupValue x k).testBit (5 - t) = x.bit (6 * k + t) := by
  refine (sixBits_testBit _ _ _ _ _ _ t ht).trans ?_
  interval_cases t
  all_goals rfl

theorem groupValue_lt (x : Bits 64) (k : Nat) : groupValue x k < 64 := by
  have hbound : ∀ b0 b1 b2 b3 b4 b5 : Bool,
      2 * (2 * (2 * (2 * (2 * (2 * 0 + b0.toNat) + b1.toNat) + b2.toNat) + b3.toNat) +
        b4.toNat) + b5.toNat < 64 := by decide
  exact hbound _ _ _ _ _ _

theorem groupValue_of_bits {x : Bits 64} {k v : Nat} (hv : v < 64)
    (h : ∀ t < 6, x.bit (6 * k + t) = v.testBit (5 - t)) : groupValue x k = v := by
  refine Nat.eq_of_testBit_eq fun i => ?_
  by_cases hi : i < 6
  · have hback : 5 - (5 - i) = i := by omega
    have hbit := groupValue_testBit x k (t := 5 - i) (by omega)
    rw [h (5 - i) (by omega), hback] at hbit
    exact hbit
  · have hpow : 2 ^ 6 ≤ 2 ^ i := Nat.pow_le_pow_right (by decide) (Nat.not_lt.mp hi)
    rw [Nat.testBit_lt_two_pow (Nat.lt_of_lt_of_le (groupValue_lt x k) hpow),
      Nat.testBit_lt_two_pow (Nat.lt_of_lt_of_le hv hpow)]

/-! ## The result string -/

theorem ascii64At_eq (w : Word) {x : Bits 64} {k : Nat}
    (h : ∀ t < 6, x.bit (6 * k + t) = w.getLsbD (5 - t)) :
    ascii64At w = ascii64.getD (groupValue x k) 0 := by
  have hmask : ∀ i < 6, (0x3f : Word).getLsbD i = true := by decide
  have hlt : (w &&& 0x3f).toNat < 64 := by
    rw [BitVec.toNat_and]
    exact Nat.lt_of_le_of_lt Nat.and_le_right (by decide)
  have hbits : ∀ t < 6, x.bit (6 * k + t) = (w &&& 0x3f).toNat.testBit (5 - t) := by
    intro t ht
    rw [h t ht, BitVec.testBit_toNat, BitVec.getLsbD_and, hmask _ (by omega), Bool.and_true]
  unfold ascii64At
  rw [groupValue_of_bits hlt hbits]

theorem bit_pack_words (l r : Word) (p : Nat) :
    (pack 32 l r).bit p =
      if p < 32 then l.getLsbD (31 - p) else if p < 64 then r.getLsbD (63 - p) else false := by
  unfold Bits.bit
  by_cases h : p < 64
  · rw [dif_pos h, if_pos h]
    rfl
  · have h32 : ¬ p < 32 := by omega
    rw [dif_neg h, if_neg h32, if_neg h]

theorem encodeResult_eq (r0 r1 : Word) : encodeResult r0 r1 = encode (pack 32 r0 r1) := by
  have heleven : List.range 11 = [0, 1, 2, 3, 4, 5, 6, 7, 8, 9, 10] := rfl
  unfold encodeResult encode
  rw [heleven]
  simp only [List.map_cons, List.map_nil]
  congr
  all_goals
    refine ascii64At_eq _ fun t ht => ?_
    rw [bit_pack_words]
    interval_cases t
    all_goals simp

/-- Strings that can be read back: eleven characters of the alphabet, the last of which has
    four bits only. -/
structure Encoded (s : List UInt8) : Prop where
  length : s.length = 11
  alphabet : ∀ c ∈ s, c ∈ ascii64
  padded : asciiToBin (s.getD 10 0) % 4 = 0

theorem encode_getD (x : Bits 64) {k : Nat} (hk : k < 11) :
    (encode x).getD k 0 = ascii64.getD (groupValue x k) 0 := by
  have hrange : (List.range 11)[k]? = some k := List.getElem?_range hk
  unfold encode
  rw [List.getD_eq_getElem?_getD, List.getElem?_map, hrange]
  rfl

theorem asciiToBin_encode (x : Bits 64) {k : Nat} (hk : k < 11) :
    asciiToBin ((encode x).getD k 0) = groupValue x k := by
  rw [encode_getD x hk, asciiToBin_ascii64 _ (groupValue_lt x k)]

theorem decode_encode (x : Bits 64) : decode (encode x) = x := by
  funext o
  have hk : o.val / 6 < 11 := by omega
  have hsplit : 6 * (o.val / 6) + o.val % 6 = o.val := Nat.div_add_mod o.val 6
  unfold decode
  rw [asciiToBin_encode x hk, groupValue_testBit x _ (Nat.mod_lt _ (by decide)), hsplit,
    Bits.bit_val]

theorem encoded_encode (x : Bits 64) : Encoded (encode x) where
  length := by
    unfold encode
    rw [List.length_map, List.length_range]
  alphabet := by
    intro c hc
    obtain ⟨k, -, rfl⟩ := List.mem_map.mp hc
    exact ascii64_mem _ (groupValue_lt x k)
  padded := by
    have hbit : ∀ b0 b1 b2 b3 : Bool,
        (2 * (2 * (2 * (2 * (2 * (2 * 0 + b0.toNat) + b1.toNat) + b2.toNat) + b3.toNat) +
          false.toNat) + false.toNat) % 4 = 0 := by decide
    rw [asciiToBin_encode x (by decide)]
    exact hbit _ _ _ _

theorem encode_decode {s : List UInt8} (h : Encoded s) : encode (decode s) = s := by
  have hvalue : ∀ k < 11, groupValue (decode s) k = asciiToBin (s.getD k 0) := by
    intro k hk
    refine groupValue_of_bits (asciiToBin_lt _) fun t ht => ?_
    by_cases hin : 6 * k + t < 64
    · have hdiv : (6 * k + t) / 6 = k := by omega
      have hmod : (6 * k + t) % 6 = t := by omega
      refine (dif_pos hin).trans ?_
      unfold decode
      rw [hdiv, hmod]
    · -- the padding of the last character
      have hlast : k = 10 := by omega
      have hpad : ∀ v < 64, v % 4 = 0 → ∀ i < 2, v.testBit i = false := by decide
      rw [hlast, hpad _ (asciiToBin_lt _) h.padded _ (by omega), ← hlast]
      exact dif_neg hin
  refine List.ext_getElem ((encoded_encode _).length.trans h.length.symm) fun k hk hk' => ?_
  have hlt : k < 11 := h.length ▸ hk'
  have hget := encode_getD (decode s) hlt
  rw [hvalue k hlt, List.getD_eq_getElem _ _ hk, List.getD_eq_getElem _ _ hk',
    ascii64_asciiToBin _ (h.alphabet _ (List.getElem_mem hk'))] at hget
  exact hget

/-! ## The key -/

/-- The loop that copies the key into the `n` bytes left of `keybuf`: it stays at a character
    that is shifted to zero. -/
def copyKey : Nat → List UInt8 → List UInt8
  | 0, _ => []
  | n + 1, key =>
    let q := key.headD 0 <<< 1
    q :: copyKey n (if q ≠ 0 then key.tail else key)

/-- What counts of a key: seven bits of each of its first `n` characters, up to a character
    that has none. -/
def effective (n : Nat) (key : List UInt8) : List UInt8 :=
  ((key.take n).map (· &&& 0x7f)).takeWhile (· ≠ 0)

theorem shifted_eq (c : UInt8) : (c &&& 0x7f) <<< 1 = c <<< 1 := by
  refine UInt8.toNat_inj.mp ?_
  rw [UInt8.toNat_shiftLeft, UInt8.toNat_shiftLeft, UInt8.toNat_and, Nat.shiftLeft_eq,
    Nat.shiftLeft_eq]
  have hmask : c.toNat &&& 127 = c.toNat % 128 := Nat.and_two_pow_sub_one_eq_mod c.toNat 7
  show (c.toNat &&& 127) * 2 ^ 1 % 256 = c.toNat * 2 ^ 1 % 256
  omega

theorem shifted_eq_zero (c : UInt8) : c <<< 1 = 0 ↔ c &&& 0x7f = 0 := by
  have hmask : c.toNat &&& 127 = c.toNat % 128 := Nat.and_two_pow_sub_one_eq_mod c.toNat 7
  rw [← UInt8.toNat_inj, ← UInt8.toNat_inj, UInt8.toNat_shiftLeft, UInt8.toNat_and,
    Nat.shiftLeft_eq]
  show c.toNat * 2 ^ 1 % 256 = 0 ↔ c.toNat &&& 127 = 0
  omega

theorem copyKey_stuck (n : Nat) (key : List UInt8) (h : key.headD 0 <<< 1 = 0) :
    copyKey n key = List.replicate n 0 := by
  induction n with
  | zero => rfl
  | succ n ih =>
    have hstay : ¬ key.headD 0 <<< 1 ≠ 0 := fun hne => hne h
    unfold copyKey
    dsimp only
    rw [if_neg hstay, h, ih, List.replicate_succ]

/-- The key that is set: the characters that count, without their parity bits, and zeros. -/
theorem copyKey_eq (n : Nat) (key : List UInt8) :
    copyKey n key = (effective n key).map (fun c => c <<< (1 : UInt8)) ++
      List.replicate (n - (effective n key).length) 0 := by
  induction n generalizing key with
  | zero => rfl
  | succ n ih =>
    cases key with
    | nil => exact copyKey_stuck (n + 1) [] rfl
    | cons c key =>
      by_cases hc : c <<< 1 = 0
      · have hnone : effective (n + 1) (c :: key) = [] := by
          unfold effective
          rw [List.take_succ_cons, List.map_cons, (shifted_eq_zero c).mp hc]
          rfl
        rw [copyKey_stuck (n + 1) (c :: key) hc, hnone]
        rfl
      · have hkept : (c &&& 0x7f ≠ 0) := fun h => hc ((shifted_eq_zero c).mpr h)
        have hsome : effective (n + 1) (c :: key) = (c &&& 0x7f) :: effective n key := by
          unfold effective
          rw [List.take_succ_cons, List.map_cons, List.takeWhile_cons_of_pos (by simpa using hkept)]
        have hstep : copyKey (n + 1) (c :: key) = c <<< 1 :: copyKey n key := by
          show c <<< 1 :: copyKey n (if c <<< 1 ≠ 0 then key else c :: key) = _
          rw [if_pos hc]
        rw [hstep, hsome, ih, List.map_cons, shifted_eq, List.length_cons, Nat.succ_sub_succ,
          List.cons_append]

theorem copyKey_congr {n : Nat} {key key' : List UInt8} (h : effective n key = effective n key') :
    copyKey n key = copyKey n key' := by
  rw [copyKey_eq, copyKey_eq, h]

/-! ## `__des_crypt_r` -/

/-- The salt that two characters spell. -/
def settingSalt (setting : List UInt8) : Word :=
  BitVec.ofNat 32 ((asciiToBin (setting.getD 1 0) <<< 6) ||| asciiToBin (setting.getD 0 0))

/-- The second character of the output, which is no NUL in front of the end. -/
def secondChar (setting : List UInt8) : UInt8 :=
  if setting.getD 1 0 ≠ 0 then setting.getD 1 0 else setting.getD 0 0

/-- `__des_crypt_r`: what it leaves in `output`, `none` for a null return. -/
def desCryptR (mem : Context) (key setting : List UInt8) (sz : Int) : Option (List UInt8) :=
  if sz < 21 then none
  else
    let ctx := desSetkey (fun i => (copyKey 8 key).getD i 0) (desCtxInit mem)
    let ctx := setupSalt (settingSalt setting) ctx
    match doDes ctx 0 0 25 with
    | none => none
    | some (r0, r1) =>
      some (setting.getD 0 0 :: secondChar setting :: encodeResult r0 r1 ++ [0])

/-- The hash of a key with a salt: 25 passes over zeros. -/
def hashBits (key setting : List UInt8) : Bits 64 :=
  (encipher (settingSalt setting)
    (subkeys (keyBits fun i => (copyKey 8 key).getD i 0)))^[25] fun _ => false

/-- With room for the result, whatever was in the memory of the context. -/
theorem desCryptR_ok (mem : Context) (key setting : List UInt8) {sz : Int} (hsz : 21 ≤ sz) :
    desCryptR mem key setting sz =
      some (setting.getD 0 0 :: secondChar setting :: encode (hashBits key setting) ++ [0]) := by
  have hzero : pack 32 0 0 = fun _ => false := by
    funext o
    show packAt 32 0 0 o.val = false
    unfold packAt
    split
    · exact BitVec.getLsbD_zero
    · exact BitVec.getLsbD_zero
  have hcount : (25 : Int) ≠ 0 := by decide
  obtain ⟨r0, r1, hdes, hpack⟩ := doDes_after mem
    [.setkey fun i => (copyKey 8 key).getD i 0, .salt (settingSalt setting)] rfl 0 0 hcount
  have hhash : pack 32 r0 r1 = hashBits key setting := by
    rw [hpack, hzero]
    rfl
  have hcall : doDes (setupSalt (settingSalt setting)
      (desSetkey (fun i => (copyKey 8 key).getD i 0) (desCtxInit mem))) 0 0 25 =
      some (r0, r1) := hdes
  unfold desCryptR
  rw [if_neg (Int.not_lt.mpr hsz)]
  dsimp only
  rw [hcall, ← hhash, ← encodeResult_eq]

/-- The output tells everything apart: equal strings, equal salts and hashes. -/
theorem desCryptR_inj (mem mem' : Context) (key key' setting setting' : List UInt8) {sz : Int}
    (hsz : 21 ≤ sz) :
    desCryptR mem key setting sz = desCryptR mem' key' setting' sz ↔
      setting.getD 0 0 = setting'.getD 0 0 ∧ secondChar setting = secondChar setting' ∧
        hashBits key setting = hashBits key' setting' := by
  rw [desCryptR_ok _ _ _ hsz, desCryptR_ok _ _ _ hsz, Option.some_inj]
  simp only [List.cons_append, List.cons.injEq, List.append_left_inj]
  constructor
  · rintro ⟨hfirst, hsecond, hencoded⟩
    refine ⟨hfirst, hsecond, ?_⟩
    rw [← decode_encode (hashBits key setting), hencoded, decode_encode]
  · rintro ⟨hfirst, hsecond, hhash⟩
    exact ⟨hfirst, hsecond, congrArg encode hhash⟩

theorem desCryptR_inj_rtems :
    desCryptR dirtyMem (ascii "rtems") (ascii "td") 21 = desCryptR dirtyMem [] (ascii "td") 21 ↔
      (ascii "td").getD 0 0 = (ascii "td").getD 0 0 ∧
        secondChar (ascii "td") = secondChar (ascii "td") ∧
        hashBits (ascii "rtems") (ascii "td") = hashBits [] (ascii "td") :=
  desCryptR_inj dirtyMem dirtyMem _ _ _ _ (by decide)

theorem hashBits_congr {key key' : List UInt8} (h : effective 8 key = effective 8 key')
    (setting : List UInt8) : hashBits key setting = hashBits key' setting := by
  unfold hashBits
  rw [copyKey_congr h]

/-- For a key that has no characters, 25 passes are one: the zero key is weak. -/
theorem hashBits_empty {key : List UInt8} (h : effective 8 key = []) (setting : List UInt8) :
    hashBits key setting =
      encipher (settingSalt setting) (subkeys fun _ => false) fun _ => false := by
  have hzero : (fun i => (copyKey 8 key).getD i 0) = fun _ : Nat => (0 : UInt8) := by
    have hcopy : copyKey 8 key = List.replicate 8 0 := by
      rw [copyKey_eq, h]
      rfl
    funext i
    rw [hcopy, List.getD_eq_getElem?_getD, List.getElem?_replicate]
    split
    · rfl
    · rfl
  have hbits : keyBits (fun _ => 0) = fun _ => false := by
    funext o
    exact BitVec.getLsbD_zero
  have hweak : Weak (Bits.select keyPerm fun _ : Fin 64 => false) := by
    have hnone : ∀ p, (Bits.select keyPerm (fun _ : Fin 64 => false) : Bits 56).bit p = false := by
      intro p
      unfold Bits.bit Bits.select Bits.bit
      simp
    exact ⟨fun p _ => (hnone _).trans (hnone _).symm, fun p _ => (hnone _).trans (hnone _).symm⟩
  have hinv : Function.Involutive (encipher (settingSalt setting) (subkeys fun _ => false)) :=
    encipher_weak _ hweak
  unfold hashBits
  rw [hzero, hbits, hinv.iterate_odd (by decide)]

theorem hashBits_empty_highBit :
    hashBits [0x80, 0x61] (ascii "td") =
      encipher (settingSalt (ascii "td")) (subkeys fun _ => false) fun _ => false :=
  hashBits_empty (by decide) _

end SsrlApps.Des
