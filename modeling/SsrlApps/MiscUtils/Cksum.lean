/-
  The two Internet checksums: `rtems_ping_cksum` and `ip_cksum`.

  Model. A buffer is the `len` bytes of memory from `p` on; both functions read it as words
  of 16 bits in the order of the host (`load16`). `rtems_ping_cksum` adds them in 32 bits
  and adds the carries at the end; `ip_cksum` adds the carry at every step. Behind the last
  word of an odd buffer the first masks a word of memory with 0xff00, the second fills a
  word with the byte and a zero.

  The standard's sum is that of the words in network order, an odd last byte padded by a
  zero (`rfc1071`). A value in the host's order is converted by `ntohs`.

  Proved:
  * `sum_words`: the sums in the two orders of bytes are each other's, with bytes swapped.
  * `ipCksum_eq`, `rtemsPingCksum_eq`: what the two functions compute.
  * `cksumOk_iff`: they meet their purpose exactly if the host is big-endian or the length
    is even.
-/
import SsrlApps.Lib.Memory
import SsrlApps.Lib.OnesSum

namespace SsrlApps.MiscUtils

open Bytes

/-! ## Words -/

/-- The `int` that `x` becomes. -/
def wrapInt (x : Int) : Int := (x + 2 ^ 31) % 2 ^ 32 - 2 ^ 31

theorem wrapInt_eq {x : Int} (h : -2 ^ 31 ≤ x ∧ x < 2 ^ 31) : wrapInt x = x := by
  unfold wrapInt
  omega

/-- The byte order of the host. -/
inductive Endian
  | big
  | little
deriving DecidableEq

/-- The word of two bytes in memory. -/
def Endian.word : Endian → UInt8 → UInt8 → Nat
  | big, b0, b1 => b0.toNat * 256 + b1.toNat
  | little, b0, b1 => b1.toNat * 256 + b0.toNat

/-- `ntohs`, which is also `htons` -/
def Endian.ntohs : Endian → Nat → Nat
  | big, v => v
  | little, v => v % 256 * 256 + v / 256

def load16 (e : Endian) (m : Bytes) (p : Nat) : Nat := e.word (m p) (m (p + 1))

/-- The word is stored with its more significant byte first, or last. -/
def store16 (e : Endian) (m : Bytes) (p v : Nat) : Bytes :=
  m.store 2 p (e.ntohs v)

/-! ## The functions -/

/-- The two loops over the words and over the last byte; `accu` has 32 bits. -/
def rtemsPingSum (e : Endian) (m : Bytes) : Nat → Nat → Nat → Nat
  | len + 2, p, accu => rtemsPingSum e m len (p + 2) ((accu + load16 e m p) % 2 ^ 32)
  | 1, p, accu => (accu + (load16 e m p &&& 0xff00)) % 2 ^ 32
  | 0, _, accu => accu

def rtemsPingCksum (e : Endian) (m : Bytes) (p len : Nat) : Nat :=
  let accu := rtemsPingSum e m len p 0
  let accu := accu / 65536 + accu % 65536
  let accu := (accu + accu / 65536) % 2 ^ 32
  65535 - accu % 65536

def onesSum (lhs rhs : Nat) : Nat :=
  let a := lhs + rhs
  (a % 65536 + a / 65536) % 65536

/-- The loop of `ip_cksum`, with `n` words to go from the word `i` on. -/
def ipSum (e : Endian) (m : Bytes) (data : Nat) : Nat → Nat → Nat → Nat
  | 0, _, s => s
  | n + 1, i, s => ipSum e m data n (i + 1) (onesSum s (load16 e m (data + 2 * i)))

def ipCksum (e : Endian) (m : Bytes) (data len : Nat) : Nat :=
  let rem := len % 2
  let len := len / 2
  let s := ipSum e m data len 0 0
  let s := if rem ≠ 0 then onesSum s (e.word (m (data + len * 2)) 0) else s
  65535 - s

/-! ## The standard -/

/-- The words of a packet, an odd last byte padded by zero. -/
def words (e : Endian) : List UInt8 → List Nat
  | b0 :: b1 :: bs => e.word b0 b1 :: words e bs
  | [b] => [e.word b 0]
  | [] => []

/-- The one's-complement sum of a packet, in network order. -/
def networkSum (bs : List UInt8) : Nat := OnesSum.sum 65536 (words .big bs)

def rfc1071 (bs : List UInt8) : Nat := 65535 - networkSum bs

/-- What the checksums of a buffer are for. -/
structure CksumOk (e : Endian) (m : Bytes) (p len : Nat) : Prop where
  agree : rtemsPingCksum e m p len = ipCksum e m p len
  /-- Only the bytes of the buffer matter. -/
  buffer : ∀ m', AgreeOn m m' p len →
    rtemsPingCksum e m' p len = rtemsPingCksum e m p len ∧
      ipCksum e m' p len = ipCksum e m p len
  rfc : e.ntohs (rtemsPingCksum e m p len) = rfc1071 (m.slice p len)
  /-- A field of zeros that gets the result makes the sum of the packet all ones. -/
  selfVerifying : ∀ k, k % 2 = 0 → k + 2 ≤ len → m (p + k) = 0 → m (p + k + 1) = 0 →
    networkSum ((store16 e m (p + k) (rtemsPingCksum e m p len)).slice p len) = 0xffff

/-! ## The order of bytes -/

theorem word_lt (e : Endian) (b0 b1 : UInt8) : e.word b0 b1 < 65536 := by
  have h0 := b0.toNat_lt
  have h1 := b1.toNat_lt
  cases e with
  | big => simp only [Endian.word]; omega
  | little => simp only [Endian.word]; omega

theorem ntohs_word (e : Endian) (b0 b1 : UInt8) :
    e.ntohs (e.word b0 b1) = Endian.big.word b0 b1 := by
  have h0 := b0.toNat_lt
  have h1 := b1.toNat_lt
  cases e with
  | big => rfl
  | little => simp only [Endian.word, Endian.ntohs]; omega

theorem words_lt (e : Endian) (bs : List UInt8) : ∀ w ∈ words e bs, w < 65536 := by
  fun_induction words e bs with
  | case1 b0 b1 bs ih =>
    intro w hw
    rcases List.mem_cons.mp hw with rfl | hw
    · exact word_lt e b0 b1
    · exact ih w hw
  | case2 b =>
    intro w hw
    rw [List.mem_singleton.mp hw]
    exact word_lt e b 0
  | case3 =>
    intro w hw
    cases hw

/-- Swapping the bytes multiplies by 256, where 65536 counts as 1. -/
theorem ntohs_little {v : Nat} (hv : v < 65536) :
    Endian.little.ntohs v = OnesSum.rep 65536 (256 * v) := by
  have hlt : Endian.little.ntohs v < 65536 := by
    simp only [Endian.ntohs]
    omega
  refine (OnesSum.rep_unique hlt ?_ ?_).symm
  · simp only [Endian.ntohs]
    omega
  · simp only [Endian.ntohs, Nat.ModEq]
    omega

theorem little_sum (bs : List UInt8) :
    ((words .little bs).sum = 0 ↔ 256 * (words .big bs).sum = 0) ∧
      (words .little bs).sum ≡ 256 * (words .big bs).sum [MOD 65536 - 1] := by
  fun_induction words .big bs with
  | case1 b0 b1 bs ih =>
    simp only [words, List.sum_cons, Endian.word, Nat.ModEq] at ih ⊢
    omega
  | case2 b =>
    have h0 : UInt8.toNat 0 = 0 := rfl
    simp only [words, List.sum_cons, List.sum_nil, Endian.word, Nat.ModEq]
    omega
  | case3 => exact ⟨Iff.rfl, Nat.ModEq.rfl⟩

/-- The sum in the order of the host is the network's, in the order of the host. -/
theorem sum_words (e : Endian) (bs : List UInt8) :
    OnesSum.rep 65536 (words e bs).sum = e.ntohs (networkSum bs) := by
  have hnet : networkSum bs = OnesSum.rep 65536 (words .big bs).sum :=
    OnesSum.sum_eq (by decide) (words_lt .big bs)
  cases e with
  | big => exact hnet.symm
  | little =>
    obtain ⟨hzero, hmod⟩ := little_sum bs
    rw [OnesSum.rep_congr hzero hmod, ← OnesSum.rep_mul, ← hnet, ntohs_little]
    rw [hnet]
    exact OnesSum.rep_lt (by decide) _

/-! ## What the functions compute -/

/-- The sum of the words of the buffer. -/
def wordSum (e : Endian) (m : Bytes) (p len : Nat) : Nat := (words e (m.slice p len)).sum

theorem wordSum_step (e : Endian) (m : Bytes) (p len : Nat) :
    wordSum e m p (len + 2) = load16 e m p + wordSum e m (p + 2) len := rfl

theorem wordSum_odd (e : Endian) (m : Bytes) (p n : Nat) :
    wordSum e m p (2 * n + 1) = wordSum e m p (2 * n) + e.word (m (p + 2 * n)) 0 := by
  induction n generalizing p with
  | zero =>
    show e.word (m p) 0 + 0 = 0 + e.word (m p) 0
    omega
  | succ n ih =>
    have haddr : p + 2 * (n + 1) = p + 2 + 2 * n := by omega
    have hlen : 2 * (n + 1) = 2 * n + 2 := by omega
    rw [haddr, hlen, Nat.add_right_comm, wordSum_step, wordSum_step, ih]
    exact (Nat.add_assoc ..).symm

theorem load16_lt (e : Endian) (m : Bytes) (p : Nat) : load16 e m p < 65536 :=
  word_lt e _ _

theorem wordSum_le (e : Endian) (m : Bytes) (p n : Nat) :
    wordSum e m p (2 * n) ≤ 65535 * n := by
  induction n generalizing p with
  | zero => exact Nat.le_refl 0
  | succ n ih =>
    have hword := load16_lt e m p
    have htail := ih (p + 2)
    rw [Nat.mul_succ, wordSum_step]
    omega

/-- `ones_sum` adds with end-around carry. -/
theorem onesSum_rep (x : Nat) {w : Nat} (hw : w < 65536) :
    onesSum (OnesSum.rep 65536 x) w = OnesSum.rep 65536 (x + w) := by
  have hlt : OnesSum.rep 65536 x < 65536 := OnesSum.rep_lt (by decide) x
  have hcarry := OnesSum.carry_lt (B := 65536) (x := OnesSum.rep 65536 x + w) (by omega)
  rw [← OnesSum.add_rep (by decide) x hw]
  exact Nat.mod_eq_of_lt hcarry

theorem ipSum_rep (e : Endian) (m : Bytes) (data n i x : Nat) :
    ipSum e m data n i (OnesSum.rep 65536 x) =
      OnesSum.rep 65536 (x + wordSum e m (data + 2 * i) (2 * n)) := by
  induction n generalizing i x with
  | zero => rfl
  | succ n ih =>
    have haddr : data + 2 * (i + 1) = data + 2 * i + 2 := by omega
    show ipSum e m data n (i + 1) (onesSum (OnesSum.rep 65536 x) (load16 e m (data + 2 * i))) = _
    rw [onesSum_rep x (load16_lt e m _), ih, haddr, Nat.mul_succ, wordSum_step, Nat.add_assoc]

/-- `ip_cksum` is the complement of the one's-complement sum. -/
theorem ipCksum_eq (e : Endian) (m : Bytes) (p len : Nat) :
    ipCksum e m p len = 65535 - OnesSum.rep 65536 (wordSum e m p len) := by
  have hsum : ipSum e m p (len / 2) 0 0 =
      OnesSum.rep 65536 (wordSum e m p (2 * (len / 2))) := by
    have h := ipSum_rep e m p (len / 2) 0 0
    rw [Nat.zero_add] at h
    exact h
  unfold ipCksum
  dsimp only
  rw [hsum]
  rcases Nat.mod_two_eq_zero_or_one len with heven | hodd
  · have hlen : len = 2 * (len / 2) := by omega
    rw [heven, if_neg (by decide), ← hlen]
  · have hlen : len = 2 * (len / 2) + 1 := by omega
    rw [hodd, if_pos (by decide), onesSum_rep _ (word_lt e _ _), Nat.mul_comm (len / 2),
      ← wordSum_odd, ← hlen]

/-- A mask keeps the more significant byte of a word. -/
theorem and_ff00 {w : Nat} (hw : w < 65536) : w &&& 0xff00 = w / 256 * 256 := by
  have hmask : (0xff00 : Nat) = (2 ^ 8 - 1) * 2 ^ 8 := rfl
  have hdiv : (w &&& 0xff00) / 2 ^ 8 = w / 2 ^ 8 := by
    rw [Nat.and_div_two_pow]
    rw [show 0xff00 / 2 ^ 8 = 2 ^ 8 - 1 from rfl, Nat.and_two_pow_sub_one_eq_mod]
    omega
  have hmod : (w &&& 0xff00) % 2 ^ 8 = 0 := by
    rw [Nat.and_mod_two_pow]
    exact Nat.and_zero _
  omega

/-- What `rtems_ping_cksum` adds for the last byte of an odd buffer. -/
def pingTail (e : Endian) (m : Bytes) (p : Nat) : Nat := load16 e m p &&& 0xff00

theorem pingTail_big (m : Bytes) (p : Nat) : pingTail .big m p = Endian.big.word (m p) 0 := by
  have hlt := (m (p + 1)).toNat_lt
  have h0 : UInt8.toNat 0 = 0 := rfl
  unfold pingTail
  rw [and_ff00 (load16_lt _ m p)]
  simp only [load16, Endian.word]
  omega

/-- On a little-endian host the mask keeps the byte behind the buffer. -/
theorem pingTail_little (m : Bytes) (p : Nat) :
    pingTail .little m p = (m (p + 1)).toNat * 256 := by
  have hlt := (m p).toNat_lt
  unfold pingTail
  rw [and_ff00 (load16_lt _ m p)]
  simp only [load16, Endian.word]
  omega

theorem pingTail_lt (e : Endian) (m : Bytes) (p : Nat) : pingTail e m p < 65536 := by
  have hlt := load16_lt e m p
  unfold pingTail
  rw [and_ff00 hlt]
  omega

/-- The sum does not overflow 32 bits. -/
theorem rtemsPingSum_even (e : Endian) (m : Bytes) {n p accu : Nat}
    (hb : accu + 65535 * n < 2 ^ 32) :
    rtemsPingSum e m (2 * n) p accu = accu + wordSum e m p (2 * n) := by
  induction n generalizing p accu with
  | zero => rfl
  | succ n ih =>
    have hword := load16_lt e m p
    have haccu : (accu + load16 e m p) % 2 ^ 32 = accu + load16 e m p :=
      Nat.mod_eq_of_lt (by omega)
    rw [Nat.mul_succ, wordSum_step]
    show rtemsPingSum e m (2 * n) (p + 2) ((accu + load16 e m p) % 2 ^ 32) = _
    rw [haccu, ih (by omega), Nat.add_assoc]

theorem rtemsPingSum_odd (e : Endian) (m : Bytes) {n p accu : Nat}
    (hb : accu + 65535 * n + 65535 < 2 ^ 32) :
    rtemsPingSum e m (2 * n + 1) p accu =
      accu + wordSum e m p (2 * n) + pingTail e m (p + 2 * n) := by
  induction n generalizing p accu with
  | zero =>
    have htail := pingTail_lt e m p
    show (accu + pingTail e m p) % 2 ^ 32 = accu + 0 + pingTail e m p
    rw [Nat.mod_eq_of_lt (by omega), Nat.add_zero]
  | succ n ih =>
    have hword := load16_lt e m p
    have haccu : (accu + load16 e m p) % 2 ^ 32 = accu + load16 e m p :=
      Nat.mod_eq_of_lt (by omega)
    have haddr : p + 2 * (n + 1) = p + 2 + 2 * n := by omega
    have hlen : 2 * (n + 1) = 2 * n + 2 := by omega
    rw [haddr, hlen, wordSum_step]
    show rtemsPingSum e m (2 * n + 1) (p + 2) ((accu + load16 e m p) % 2 ^ 32) = _
    rw [haccu, ih (by omega), Nat.add_assoc accu]

/-- Adding the carries at the end gives the one's-complement sum. -/
theorem rtemsPingCksum_fold (e : Endian) (m : Bytes) {p len x : Nat}
    (hsum : rtemsPingSum e m len p 0 = x) (hx : x < 65536 * 65536) :
    rtemsPingCksum e m p len = 65535 - OnesSum.rep 65536 x := by
  have hdef := OnesSum.deferred_eq (B := 65536) (by decide) hx
  have hmod : OnesSum.deferred 65536 x =
      (x / 65536 + x % 65536 + (x / 65536 + x % 65536) / 65536) % 65536 := rfl
  unfold rtemsPingCksum
  dsimp only
  rw [hsum, ← hdef, hmod]
  omega

theorem rtemsPingCksum_even (e : Endian) (m : Bytes) (p : Nat) {n : Nat} (hn : n ≤ 32767) :
    rtemsPingCksum e m p (2 * n) = 65535 - OnesSum.rep 65536 (wordSum e m p (2 * n)) := by
  have hle := wordSum_le e m p n
  refine rtemsPingCksum_fold e m ?_ (by omega)
  rw [rtemsPingSum_even e m (by omega), Nat.zero_add]

theorem rtemsPingCksum_odd (e : Endian) (m : Bytes) (p : Nat) {n : Nat} (hn : n ≤ 32767) :
    rtemsPingCksum e m p (2 * n + 1) =
      65535 - OnesSum.rep 65536 (wordSum e m p (2 * n) + pingTail e m (p + 2 * n)) := by
  have hle := wordSum_le e m p n
  have htail := pingTail_lt e m (p + 2 * n)
  refine rtemsPingCksum_fold e m ?_ (by omega)
  rw [rtemsPingSum_odd e m (by omega), Nat.zero_add]

/-- The hosts and lengths on which the last byte is taken from the buffer. -/
def TailInside (e : Endian) (len : Nat) : Prop := e = .big ∨ len % 2 = 0

/-- There `rtems_ping_cksum` is the complement of the one's-complement sum. -/
theorem rtemsPingCksum_eq {e : Endian} (m : Bytes) (p : Nat) {len : Nat} (hlen : len ≤ 65535)
    (ht : TailInside e len) :
    rtemsPingCksum e m p len = 65535 - OnesSum.rep 65536 (wordSum e m p len) := by
  rcases Nat.mod_two_eq_zero_or_one len with heven | hodd
  · have hhalf : 2 * (len / 2) = len := by omega
    have h := rtemsPingCksum_even e m p (n := len / 2) (by omega)
    rw [hhalf] at h
    exact h
  · obtain rfl : e = .big := ht.resolve_right (by omega)
    have hhalf : 2 * (len / 2) + 1 = len := by omega
    have h := rtemsPingCksum_odd .big m p (n := len / 2) (by omega)
    rw [pingTail_big, ← wordSum_odd, hhalf] at h
    exact h

/-! ## The purpose of the checksums -/

theorem ntohs_complement (e : Endian) {v : Nat} (hv : v < 65536) :
    e.ntohs (65535 - v) = 65535 - e.ntohs v := by
  cases e with
  | big => rfl
  | little => simp only [Endian.ntohs]; omega

theorem ntohs_ntohs (e : Endian) {v : Nat} (hv : v < 65536) : e.ntohs (e.ntohs v) = v := by
  cases e with
  | big => rfl
  | little => simp only [Endian.ntohs]; omega

theorem ntohs_lt (e : Endian) {v : Nat} (hv : v < 65536) : e.ntohs v < 65536 := by
  cases e with
  | big => exact hv
  | little => simp only [Endian.ntohs]; omega

theorem networkSum_lt (bs : List UInt8) : networkSum bs < 65536 := by
  unfold networkSum
  rw [OnesSum.sum_eq (by decide) (words_lt .big bs)]
  exact OnesSum.rep_lt (by decide) _

theorem ipCksum_network (e : Endian) (m : Bytes) (p len : Nat) :
    e.ntohs (ipCksum e m p len) = rfc1071 (m.slice p len) := by
  have hlt := networkSum_lt (m.slice p len)
  unfold rfc1071
  rw [ipCksum_eq, wordSum, sum_words, ntohs_complement e (ntohs_lt e hlt), ntohs_ntohs e hlt]

theorem load16_big (m : Bytes) (p : Nat) : load16 .big m p = m.load 2 p := by
  simp [load16, Endian.word, load]

/-- A word of zeros that gets the value `v` adds it to the sum. -/
theorem wordSum_store {m : Bytes} {p len k v : Nat} (hv : v < 65536) (hk : k % 2 = 0)
    (hin : k + 2 ≤ len) (h0 : m (p + k) = 0) (h1 : m (p + k + 1) = 0) :
    wordSum .big (m.store 2 (p + k) v) p len = wordSum .big m p len + v := by
  obtain ⟨j, rfl⟩ : ∃ j, k = 2 * j := ⟨k / 2, by omega⟩
  clear hk
  induction j generalizing p len with
  | zero =>
    obtain ⟨n, rfl⟩ : ∃ n, len = n + 2 := ⟨len - 2, by omega⟩
    have hnew : load16 .big (m.store 2 p v) p = v := by
      rw [load16_big]
      exact load_store hv
    have hold : load16 .big m p = 0 := by
      have h0' : m p = 0 := h0
      have h1' : m (p + 1) = 0 := h1
      simp [load16, Endian.word, h0', h1']
    have hrest : (m.store 2 p v).slice (p + 2) n = m.slice (p + 2) n := by
      refine slice_congr ?_
      intro b hb _
      exact store_outside (Or.inr hb)
    have htail : wordSum .big (m.store 2 p v) (p + 2) n = wordSum .big m (p + 2) n := by
      rw [wordSum, hrest, wordSum]
    show wordSum .big (m.store 2 p v) p (n + 2) = _
    rw [wordSum_step, wordSum_step, hnew, hold, htail]
    omega
  | succ j ih =>
    obtain ⟨n, rfl⟩ : ∃ n, len = n + 2 := ⟨len - 2, by omega⟩
    have haddr : p + 2 * (j + 1) = p + 2 + 2 * j := by omega
    rw [haddr] at h0 h1
    have hfirst : load16 .big (m.store 2 (p + 2 + 2 * j) v) p = load16 .big m p := by
      unfold load16
      rw [store_outside (Or.inl (by omega)), store_outside (Or.inl (by omega))]
    have htail : wordSum .big (m.store 2 (p + 2 + 2 * j) v) (p + 2) n =
        wordSum .big m (p + 2) n + v := ih (by omega) h0 h1
    rw [haddr, wordSum_step, wordSum_step, hfirst, htail, Nat.add_assoc]

theorem wordSum_congr {m m' : Bytes} (e : Endian) {p len : Nat} (h : AgreeOn m m' p len) :
    wordSum e m' p len = wordSum e m p len := by
  rw [wordSum, slice_congr h, wordSum]

theorem ipCksum_congr {m m' : Bytes} (e : Endian) {p len : Nat} (h : AgreeOn m m' p len) :
    ipCksum e m' p len = ipCksum e m p len := by
  rw [ipCksum_eq, ipCksum_eq, wordSum_congr e h]

/-- With the checksum in its field, the sum of the packet is all ones. -/
theorem networkSum_verified {e : Endian} {m : Bytes} {p len k : Nat} (hk : k % 2 = 0)
    (hin : k + 2 ≤ len) (h0 : m (p + k) = 0) (h1 : m (p + k + 1) = 0) :
    networkSum ((store16 e m (p + k) (ipCksum e m p len)).slice p len) = 0xffff := by
  have hsum : ∀ m' : Bytes, networkSum (m'.slice p len) =
      OnesSum.rep 65536 (wordSum .big m' p len) := fun m' => (sum_words .big _).symm
  have hlt := networkSum_lt (m.slice p len)
  have hstore : store16 e m (p + k) (ipCksum e m p len) =
      m.store 2 (p + k) (65535 - networkSum (m.slice p len)) := by
    unfold store16
    rw [ipCksum_network]
    rfl
  rw [hstore, hsum, wordSum_store (by omega) hk hin h0 h1, hsum]
  exact OnesSum.rep_complement (by decide) _

/-- A byte behind an odd buffer that changes the result of `rtems_ping_cksum` on a
    little-endian host. -/
theorem rtemsPingCksum_outside (m : Bytes) (p : Nat) {len : Nat} (hlen : len ≤ 65535)
    (hodd : len % 2 = 1) : ∃ m', AgreeOn m m' p len ∧
      rtemsPingCksum .little m' p len ≠ rtemsPingCksum .little m p len := by
  obtain ⟨n, rfl⟩ : ∃ n, len = 2 * n + 1 := ⟨len / 2, by omega⟩
  have hagree : AgreeOn m (Function.update m (p + 2 * n + 1) (m (p + 2 * n + 1) + 1)) p
      (2 * n + 1) := by
    intro b _ hb
    exact Function.update_of_ne (by omega) ..
  refine ⟨_, hagree, ?_⟩
  have hsum : wordSum .little _ p (2 * n) = wordSum .little m p (2 * n) :=
    wordSum_congr .little (hagree.mono (Nat.le_refl p) (by omega))
  rw [rtemsPingCksum_odd .little _ p (by omega), rtemsPingCksum_odd .little m p (by omega), hsum,
    pingTail_little, pingTail_little, Function.update_self]
  have hb := (m (p + 2 * n + 1)).toNat_lt
  have hb' : (m (p + 2 * n + 1) + 1).toNat = ((m (p + 2 * n + 1)).toNat + 1) % 256 := by
    rw [UInt8.toNat_add]
    rfl
  rw [hb']
  have hne := OnesSum.rep_inj (B := 65536)
    (x := wordSum .little m p (2 * n) + ((m (p + 2 * n + 1)).toNat + 1) % 256 * 256)
    (y := wordSum .little m p (2 * n) + (m (p + 2 * n + 1)).toNat * 256)
    (by omega) (by omega) (by omega)
  have hx := OnesSum.rep_lt (B := 65536) (by decide)
    (wordSum .little m p (2 * n) + ((m (p + 2 * n + 1)).toNat + 1) % 256 * 256)
  have hy := OnesSum.rep_lt (B := 65536) (by decide)
    (wordSum .little m p (2 * n) + (m (p + 2 * n + 1)).toNat * 256)
  omega

/-- **The two checksums agree, depend on the buffer only, are the standard's and verify
    themselves exactly if the host is big-endian or the length is even.** On a little-endian
    host `rtems_ping_cksum` takes the last byte of an odd buffer from behind it. -/
theorem cksumOk_iff (e : Endian) (m : Bytes) (p : Nat) {len : Nat} (hlen : len ≤ 65535) :
    CksumOk e m p len ↔ TailInside e len := by
  constructor
  · intro hok
    by_contra ht
    obtain ⟨hbig, hodd⟩ := not_or.mp ht
    have hlittle : e = .little := by
      cases e with
      | big => exact absurd rfl hbig
      | little => rfl
    subst hlittle
    obtain ⟨m', hagree, hne⟩ := rtemsPingCksum_outside m p hlen (by omega)
    exact hne (hok.buffer m' hagree).1
  · intro ht
    have hsame : ∀ m' : Bytes, rtemsPingCksum e m' p len = ipCksum e m' p len := by
      intro m'
      rw [rtemsPingCksum_eq m' p hlen ht, ipCksum_eq]
    refine ⟨hsame m, ?_, ?_, ?_⟩
    · intro m' hagree
      rw [hsame, hsame]
      exact ⟨ipCksum_congr e hagree, ipCksum_congr e hagree⟩
    · rw [hsame]
      exact ipCksum_network e m p len
    · intro k hk hin h0 h1
      rw [hsame]
      exact networkSum_verified hk hin h0 h1

/-- The byte 1 and, behind it, the byte 0x80. -/
def oneByte : Bytes := fun a => if a = 0 then 1 else 0x80

/-- On a little-endian host the checksum of the one byte 1 is that of the word 0x8000. -/
theorem cksum_oneByte :
    rtemsPingCksum .little oneByte 0 1 = 0x7fff ∧ ipCksum .little oneByte 0 1 = 0xfffe ∧
      ¬ ∀ e m p len, len ≤ 65535 → CksumOk e m p len := by
  have hping : rtemsPingCksum .little oneByte 0 1 = 0x7fff := by decide
  have hip : ipCksum .little oneByte 0 1 = 0xfffe := by decide
  refine ⟨hping, hip, ?_⟩
  intro h
  have hagree := (h .little oneByte 0 1 (by decide)).agree
  rw [hping, hip] at hagree
  exact absurd hagree (by decide)

/-- On a big-endian host it is that of the byte. -/
theorem cksumOk_iff_oneByte : CksumOk .big oneByte 0 1 :=
  (cksumOk_iff .big oneByte 0 (by decide)).mpr (Or.inl rfl)

end SsrlApps.MiscUtils
