/-
  `getn`: the number scanner of the stand-alone memory tool.

  Model. The scan is what of the stream has not been passed; its first byte is `*pc`, which
  is -1 at the end. A plain `int` is a word of 32 bits, as which `*pn` wraps.

  `IsLiteral` is the grammar of the unsigned literals, with the value of each. `getn` should
  take the longest one that the stream begins with behind its blanks (`ScansOk`).

  Proved:
  * `digitLoop_eq`: the loop takes all the digits there are, and has their value.
  * `getn_hex`, `getn_octal`, `getn_decimal`, `getn_other`: what `getn` does for each way
    a number begins.
  * `scansOk_iff`: `getn` does what it should exactly if the number is not a '0' in front of
    something that is neither an octal digit nor the rest of a hexadecimal number. A lone
    '0' is not accepted, and "08" is read as a decimal number.
-/
import SsrlApps.MiscUtils.Mm

namespace SsrlApps.MiscUtils

/-! ## The source -/

/-- `*pc`: the byte that is next, or -1 at the end of the stream. -/
def peek : List UInt8 → Int
  | [] => -1
  | c :: _ => c.toNat

/-- `*pc = getchar()` -/
def getchar (s : List UInt8) : List UInt8 := s.tail

/-- `toupper` of an `int`, which may be -1. -/
def toupperInt (c : Int) : Int := if 0x61 ≤ c ∧ c ≤ 0x7a then c - 0x20 else c

/-- The digit that `pc` is in `base`, or -1. -/
def digitOf (pc : Int) (base : Nat) : Int :=
  let rval := pc - 0x30
  if 0 ≤ rval ∧ rval ≤ 7 then rval
  else if 8 ≤ rval ∧ rval ≤ 9 then
    if base ≤ 8 then -1 else rval
  else if 16 = base then
    let rval := toupperInt pc - 0x41
    if 0 ≤ rval ∧ rval ≤ 5 then rval + 10 else -1
  else -1

/-- `valdig(pc, base)`: the digit, which is passed if it is one. -/
def valdig (s : List UInt8) (base : Nat) : Int × List UInt8 :=
  let rval := digitOf (peek s) base
  (rval, if 0 ≤ rval then getchar s else s)

theorem not_a_digit : ¬ (0 : Int) ≤ -1 := by decide

theorem digitOf_eof (base : Nat) : digitOf (-1) base = -1 := by
  simp [digitOf, toupperInt]

/-- A digit that is passed shortens the stream. -/
theorem valdig_length {s : List UInt8} {base : Nat} (h : 0 ≤ (valdig s base).1) :
    (valdig s base).2.length < s.length := by
  cases s with
  | nil =>
    have heof : (valdig [] base).1 = -1 := digitOf_eof base
    rw [heof] at h
    exact absurd h (by decide)
  | cons c s =>
    have hdig : 0 ≤ digitOf (peek (c :: s)) base := h
    unfold valdig
    dsimp only
    rw [if_pos hdig]
    exact Nat.lt_succ_self s.length

/-- `do { *pn = (*pn) * base + dig; } while ((dig = valdig(pc, base)) >= 0);` -/
def digitLoop (base : Nat) (pn : BitVec 32) (dig : Int) (s : List UInt8) :
    BitVec 32 × List UInt8 :=
  let pn := pn * BitVec.ofNat 32 base + BitVec.ofInt 32 dig
  let r := valdig s base
  if 0 ≤ r.1 then digitLoop base pn r.1 r.2 else (pn, r.2)
termination_by s.length
decreasing_by exact valdig_length ‹_›

/-- `' '==*pc || '\t' == *pc` -/
def isBlank (c : UInt8) : Bool := c == 0x20 || c == 0x09

def skipBlanks : List UInt8 → List UInt8
  | [] => []
  | c :: s => if isBlank c then skipBlanks s else c :: s

structure GetnResult where
  rval : Int
  pn : BitVec 32
  rest : List UInt8
deriving DecidableEq

/-- The base of a number that begins with a digit, and where its digits begin. -/
def getnBase (s : List UInt8) : Nat × List UInt8 :=
  if peek s = 0x30 then
    let s := getchar s
    if peek s = 0x78 ∨ peek s = 0x58 then (16, getchar s)
    else if 0x30 ≤ peek s ∧ peek s ≤ 0x37 then (8, s)
    else (10, s)
  else (10, s)

/-- The digits of the number: `return 0` if there is one. -/
def getnDigits (base : Nat) (s : List UInt8) : GetnResult :=
  let r := valdig s base
  if 0 ≤ r.1 then
    let q := digitLoop base 0 r.1 r.2
    ⟨0, q.1, q.2⟩
  else ⟨-1, 0, r.2⟩

/-- `getn(&n, &c)`, with `c` at the head of the stream. -/
def getn (s : List UInt8) : GetnResult :=
  let s := skipBlanks s
  if 0x30 ≤ peek s ∧ peek s ≤ 0x39 then
    let b := getnBase s
    getnDigits b.1 b.2
  else ⟨-1, 0, s⟩

/-! ## The grammar -/

/-- The value of a text of digits. -/
def positional (base : Nat) (text : List UInt8) : Nat :=
  (text.filterMap digitValue).foldl (fun n d => n * base + d) 0

/-- An unsigned literal, and its value. -/
inductive IsLiteral : List UInt8 → Nat → Prop
  | hex {x : UInt8} {ds : List UInt8} (hx : x = 0x78 ∨ x = 0x58) (hne : ds ≠ [])
      (hds : ds.all (isDigit 16)) : IsLiteral (0x30 :: x :: ds) (positional 16 ds)
  | octal {ds : List UInt8} (hds : ds.all (isDigit 8)) :
      IsLiteral (0x30 :: ds) (positional 8 ds)
  | decimal {d : UInt8} {ds : List UInt8} (hd : d ≠ 0x30)
      (hds : (d :: ds).all (isDigit 10)) : IsLiteral (d :: ds) (positional 10 (d :: ds))

/-- The longest literal that `s` begins with. -/
structure Longest (s text : List UInt8) (value : Nat) : Prop where
  literal : IsLiteral text value
  isPrefix : text <+: s
  longest : ∀ text' value', IsLiteral text' value' → text' <+: s → text'.length ≤ text.length

/-- The scanner accepts exactly its grammar. -/
structure ScansOk (s : List UInt8) : Prop where
  accepts : (getn s).rval = 0 ↔
    ∃ text value, IsLiteral text value ∧ text <+: s.dropWhile isBlank
  longest : (getn s).rval = 0 → ∃ text value, Longest (s.dropWhile isBlank) text value ∧
    (getn s).pn = BitVec.ofNat 32 value ∧
    (getn s).rest = (s.dropWhile isBlank).drop text.length
  rejects : (getn s).rval = 0 ∨ (getn s).rval = -1

/-- A '0' in front of something that neither goes on as an octal nor as a hexadecimal
    number. -/
def LoneZero : List UInt8 → Prop
  | 0x30 :: s => ¬ (∃ d, s.head? = some d ∧ isDigit 8 d = true) ∧
      ¬ ∃ x d t, s = x :: d :: t ∧ (x = 0x78 ∨ x = 0x58) ∧ isDigit 16 d = true
  | _ => False

/-! ## Digits -/

theorem digitValue_toNat (c : UInt8) : digitValue c =
    if 0x30 ≤ c.toNat ∧ c.toNat ≤ 0x39 then some (c.toNat - 0x30)
    else if 0x41 ≤ c.toNat ∧ c.toNat ≤ 0x5a then some (c.toNat - 0x41 + 10)
    else if 0x61 ≤ c.toNat ∧ c.toNat ≤ 0x7a then some (c.toNat - 0x61 + 10)
    else none := by
  unfold digitValue
  simp only [UInt8.le_iff_toNat_le]
  rfl

/-- The bases that `getn` scans in. -/
def ScanBase (base : Nat) : Prop := base = 8 ∨ base = 10 ∨ base = 16

theorem digitOf_digit {base d : Nat} (hbase : ScanBase base) {c : UInt8}
    (hd : digitValue c = some d) (hlt : d < base) : digitOf c.toNat base = d := by
  rw [digitValue_toNat] at hd
  unfold digitOf toupperInt ScanBase at *
  grind

theorem digitOf_large {base d : Nat} (hbase : ScanBase base) {c : UInt8}
    (hd : digitValue c = some d) (hle : base ≤ d) : digitOf c.toNat base = -1 := by
  rw [digitValue_toNat] at hd
  unfold digitOf toupperInt ScanBase at *
  grind

theorem digitOf_none (base : Nat) {c : UInt8} (hd : digitValue c = none) :
    digitOf c.toNat base = -1 := by
  rw [digitValue_toNat] at hd
  unfold digitOf toupperInt
  grind

/-- `valdig` passes a digit of the base, and has its value. -/
theorem valdig_digit {base : Nat} (hbase : ScanBase base) {c : UInt8}
    (hc : isDigit base c = true) (s : List UInt8) :
    ∃ d, digitValue c = some d ∧ valdig (c :: s) base = ((d : Int), s) := by
  unfold isDigit at hc
  cases hd : digitValue c with
  | none =>
    rw [hd] at hc
    cases hc
  | some d =>
    rw [hd] at hc
    have hdig : digitOf (peek (c :: s)) base = d := digitOf_digit hbase hd (of_decide_eq_true hc)
    refine ⟨d, rfl, ?_⟩
    unfold valdig
    dsimp only
    rw [hdig, if_pos (Int.natCast_nonneg d)]
    rfl

/-- In front of anything else it stays where it is. -/
theorem valdig_other {base : Nat} (hbase : ScanBase base) {s : List UInt8}
    (hs : ∀ c, s.head? = some c → isDigit base c = false) : valdig s base = (-1, s) := by
  have hdig : digitOf (peek s) base = -1 := by
    cases s with
    | nil => exact digitOf_eof base
    | cons c s =>
      have hc := hs c rfl
      unfold isDigit at hc
      cases hd : digitValue c with
      | none => exact digitOf_none base hd
      | some d =>
        rw [hd] at hc
        exact digitOf_large hbase hd (Nat.le_of_not_lt (of_decide_eq_false hc))
  unfold valdig
  dsimp only
  rw [hdig, if_neg not_a_digit]

/-! ## The loop -/

theorem word_digit (base n d : Nat) :
    BitVec.ofNat 32 n * BitVec.ofNat 32 base + BitVec.ofInt 32 d =
      BitVec.ofNat 32 (n * base + d) := by
  rw [BitVec.ofInt_natCast, BitVec.ofNat_add, BitVec.ofNat_mul]

theorem digits_digit {base d : Nat} {c : UInt8} (hc : isDigit base c = true)
    (hd : digitValue c = some d) (s : List UInt8) :
    digits base (c :: s) = d :: digits base s := by
  unfold digits
  rw [List.takeWhile_cons_of_pos hc, List.filterMap_cons_some hd]

/-- The loop takes all the digits there are, and adds their value to what it has. -/
theorem digitLoop_eq {base : Nat} (hbase : ScanBase base) (s : List UInt8) (n d : Nat) :
    digitLoop base (BitVec.ofNat 32 n) d s =
      (BitVec.ofNat 32 ((digits base s).foldl (fun n d => n * base + d) (n * base + d)),
        s.dropWhile (isDigit base)) := by
  induction s generalizing n d with
  | nil =>
    have hstop : valdig [] base = (-1, []) := valdig_other hbase (fun c hc => nomatch hc)
    rw [digitLoop, hstop, word_digit, if_neg not_a_digit]
    rfl
  | cons c s ih =>
    rw [digitLoop, word_digit]
    cases hc : isDigit base c with
    | true =>
      obtain ⟨e, he, hval⟩ := valdig_digit hbase hc s
      rw [hval, if_pos (Int.natCast_nonneg e), ih (n * base + d) e, digits_digit hc he,
        List.dropWhile_cons_of_pos hc]
      rfl
    | false =>
      have hne : ¬ isDigit base c = true := by
        rw [hc]
        decide
      have hstop : valdig (c :: s) base = (-1, c :: s) := by
        refine valdig_other hbase ?_
        rintro b ⟨⟩
        exact hc
      have hdigits : digits base (c :: s) = [] := by
        unfold digits
        rw [List.takeWhile_cons_of_neg hne]
        rfl
      rw [hstop, if_neg not_a_digit, hdigits, List.dropWhile_cons_of_neg hne]
      rfl

/-- The digits are all taken, if there is one. -/
theorem getnDigits_digit {base : Nat} (hbase : ScanBase base) {c : UInt8}
    (hc : isDigit base c = true) (s : List UInt8) :
    getnDigits base (c :: s) =
      ⟨0, BitVec.ofNat 32 (positional base ((c :: s).takeWhile (isDigit base))),
        (c :: s).dropWhile (isDigit base)⟩ := by
  obtain ⟨d, hd, hval⟩ := valdig_digit hbase hc s
  have hvalue : positional base ((c :: s).takeWhile (isDigit base)) =
      (digits base s).foldl (fun n d => n * base + d) (0 * base + d) := by
    show (digits base (c :: s)).foldl (fun n d => n * base + d) 0 = _
    rw [digits_digit hc hd]
    rfl
  have hloop := digitLoop_eq hbase s 0 d
  unfold getnDigits
  dsimp only
  rw [hval, if_pos (Int.natCast_nonneg d), hvalue, List.dropWhile_cons_of_pos hc]
  exact congrArg (fun q => GetnResult.mk 0 q.1 q.2) hloop

theorem getnDigits_other {base : Nat} (hbase : ScanBase base) {s : List UInt8}
    (hs : ∀ c, s.head? = some c → isDigit base c = false) :
    getnDigits base s = ⟨-1, 0, s⟩ := by
  unfold getnDigits
  dsimp only
  rw [valdig_other hbase hs, if_neg not_a_digit]

/-! ## The ways a number begins -/

theorem skipBlanks_eq (s : List UInt8) : skipBlanks s = s.dropWhile isBlank := by
  induction s with
  | nil => rfl
  | cons c s ih =>
    unfold skipBlanks
    cases hc : isBlank c with
    | true => rw [if_pos rfl, List.dropWhile_cons_of_pos hc, ih]
    | false => rw [if_neg (by decide), List.dropWhile_cons_of_neg (by rw [hc]; decide)]

theorem peek_cons (c : UInt8) (s : List UInt8) : peek (c :: s) = c.toNat := rfl

theorem peek_eq {c : UInt8} {s : List UInt8} (n : UInt8) :
    peek (c :: s) = n.toNat ↔ c = n := by
  rw [peek_cons, Int.natCast_inj, UInt8.toNat_inj]

theorem isDigit_iff {c : UInt8} {base : Nat} (hbase : base ≤ 10) :
    isDigit base c = true ↔ 0x30 ≤ c.toNat ∧ c.toNat < 0x30 + base := by
  unfold isDigit
  rw [digitValue_toNat]
  grind

/-- `'0'<=*pc && '9'>=*pc` -/
theorem peek_digit (c : UInt8) (s : List UInt8) :
    0x30 ≤ peek (c :: s) ∧ peek (c :: s) ≤ 0x39 ↔ isDigit 10 c = true := by
  rw [isDigit_iff (Nat.le_refl 10), peek_cons]
  omega

/-- `'0' <= *pc && '7' >= *pc` -/
theorem peek_octal (c : UInt8) (s : List UInt8) :
    0x30 ≤ peek (c :: s) ∧ peek (c :: s) ≤ 0x37 ↔ isDigit 8 c = true := by
  rw [isDigit_iff (by decide), peek_cons]
  omega

variable {s t : List UInt8}

theorem getn_digit {c : UInt8} (hs : s.dropWhile isBlank = c :: t)
    (hc : isDigit 10 c = true) :
    getn s = getnDigits (getnBase (c :: t)).1 (getnBase (c :: t)).2 := by
  unfold getn
  dsimp only
  rw [skipBlanks_eq, hs, if_pos ((peek_digit c t).mpr hc)]

/-- The base is told by the byte behind the '0'. -/
theorem getnBase_zero (s : List UInt8) : getnBase (0x30 :: s) =
    if peek s = 0x78 ∨ peek s = 0x58 then (16, s.tail)
    else if 0x30 ≤ peek s ∧ peek s ≤ 0x37 then (8, s)
    else (10, s) := rfl

/-- The number begins with "0x" and a hexadecimal digit. -/
theorem getn_hex {x d : UInt8} (hs : s.dropWhile isBlank = 0x30 :: x :: d :: t)
    (hx : x = 0x78 ∨ x = 0x58) : getn s = getnDigits 16 (d :: t) := by
  rw [getn_digit hs (by decide)]
  rcases hx with rfl | rfl <;> rfl

/-- It begins with '0' and an octal digit. -/
theorem getn_octal {d : UInt8} (hs : s.dropWhile isBlank = 0x30 :: d :: t)
    (hd : isDigit 8 d = true) : getn s = getnDigits 8 (d :: t) := by
  have hrange := (isDigit_iff (by decide)).mp hd
  have hx : ¬ (peek (d :: t) = 0x78 ∨ peek (d :: t) = 0x58) := by
    rw [peek_cons]
    omega
  have hbase : getnBase (0x30 :: d :: t) = (8, d :: t) := by
    rw [getnBase_zero, if_neg hx, if_pos ((peek_octal d t).mpr hd)]
  rw [getn_digit hs (by decide), hbase]

/-- It begins with another digit. -/
theorem getn_decimal {d : UInt8} (hs : s.dropWhile isBlank = d :: t) (hne : d ≠ 0x30)
    (hd : isDigit 10 d = true) : getn s = getnDigits 10 (d :: t) := by
  have hzero : ¬ peek (d :: t) = 0x30 := fun h => hne ((peek_eq 0x30).mp h)
  have hbase : getnBase (d :: t) = (10, d :: t) := by
    unfold getnBase
    rw [if_neg hzero]
  rw [getn_digit hs hd, hbase]

/-- There is no digit. -/
theorem getn_other (hs : ∀ c, (s.dropWhile isBlank).head? = some c → isDigit 10 c = false) :
    getn s = ⟨-1, 0, s.dropWhile isBlank⟩ := by
  have hpeek : ¬ (0x30 ≤ peek (s.dropWhile isBlank) ∧ peek (s.dropWhile isBlank) ≤ 0x39) := by
    cases hu : s.dropWhile isBlank with
    | nil =>
      show ¬ ((0x30 : Int) ≤ -1 ∧ (-1 : Int) ≤ 0x39)
      decide
    | cons c u =>
      rw [peek_digit, hs c (by rw [hu]; rfl)]
      decide
  unfold getn
  dsimp only
  rw [skipBlanks_eq, if_neg hpeek]

/-- It is a lone '0': it is refused, or the byte behind it is passed as well. -/
theorem getn_loneZero (hs : s.dropWhile isBlank = 0x30 :: t) (hlone : LoneZero (0x30 :: t)) :
    (getn s).rval = -1 ∨ (getn s).rest.length < t.length := by
  obtain ⟨hoct, hhex⟩ := hlone
  rw [getn_digit hs (by decide)]
  cases t with
  | nil =>
    left
    decide
  | cons c u =>
    by_cases hx : c = 0x78 ∨ c = 0x58
    · left
      have hbase : getnBase (0x30 :: c :: u) = (16, u) := by
        rcases hx with rfl | rfl <;> rfl
      have hdig : ∀ d, u.head? = some d → isDigit 16 d = false := by
        intro d hd
        cases u with
        | nil => cases hd
        | cons e u =>
          cases hd
          exact Bool.eq_false_iff.mpr fun hyes => hhex ⟨c, d, u, rfl, hx, hyes⟩
      rw [hbase, getnDigits_other (Or.inr (Or.inr rfl)) hdig]
    · have hpeekx : ¬ (peek (c :: u) = 0x78 ∨ peek (c :: u) = 0x58) :=
        fun h => hx (h.imp (peek_eq 0x78).mp (peek_eq 0x58).mp)
      have hpeek8 : ¬ (0x30 ≤ peek (c :: u) ∧ peek (c :: u) ≤ 0x37) := by
        rw [peek_octal]
        exact fun h => hoct ⟨c, rfl, h⟩
      have hbase : getnBase (0x30 :: c :: u) = (10, c :: u) := by
        rw [getnBase_zero, if_neg hpeekx, if_neg hpeek8]
      rw [hbase]
      cases hc : isDigit 10 c with
      | true =>
        right
        rw [getnDigits_digit (Or.inr (Or.inl rfl)) hc]
        show ((c :: u).dropWhile (isDigit 10)).length < (c :: u).length
        rw [List.dropWhile_cons_of_pos hc]
        exact Nat.lt_succ_of_le (List.dropWhile_suffix _).length_le
      | false =>
        left
        rw [getnDigits_other (Or.inr (Or.inl rfl)) (by rintro b ⟨⟩; exact hc)]

/-! ## The literals that a stream begins with -/

/-- Digits in front of `s` are among those that `s` begins with. -/
theorem prefix_takeWhile {p : UInt8 → Bool} {text s : List UInt8} (hall : text.all p)
    (hpre : text <+: s) : text.length ≤ (s.takeWhile p).length := by
  obtain ⟨u, rfl⟩ := hpre
  rw [List.takeWhile_append_of_pos (List.all_eq_true.mp hall), List.length_append]
  exact Nat.le_add_right _ _

theorem drop_takeWhile (p : UInt8 → Bool) (s : List UInt8) :
    s.drop (s.takeWhile p).length = s.dropWhile p := by
  conv_lhs =>
    arg 2
    rw [← List.takeWhile_append_dropWhile (p := p) (l := s)]
  exact List.drop_left

theorem prefix_head {c d : UInt8} {text s : List UInt8} (h : c :: text <+: d :: s) : c = d :=
  (List.cons_prefix_cons.mp h).1

theorem prefix_tail {c d : UInt8} {text s : List UInt8} (h : c :: text <+: d :: s) :
    text <+: s := (List.cons_prefix_cons.mp h).2

/-- An octal literal in front of "0x" is the '0'. -/
theorem octal_stops {ds u : List UInt8} (hds : ds.all (isDigit 8)) (hpre : ds <+: u)
    (hu : ∀ c, u.head? = some c → isDigit 8 c = false) : ds = [] := by
  cases ds with
  | nil => rfl
  | cons c ds =>
    obtain ⟨v, rfl⟩ := hpre
    have hc := List.all_eq_true.mp hds c List.mem_cons_self
    rw [hu c rfl] at hc
    cases hc

theorem longest_hex {x d : UInt8} (hx : x = 0x78 ∨ x = 0x58) (hd : isDigit 16 d = true)
    (t : List UInt8) :
    Longest (0x30 :: x :: d :: t) (0x30 :: x :: (d :: t).takeWhile (isDigit 16))
      (positional 16 ((d :: t).takeWhile (isDigit 16))) where
  literal := .hex hx (by rw [List.takeWhile_cons_of_pos hd]; exact List.cons_ne_nil _ _)
    List.all_takeWhile
  isPrefix := List.cons_prefix_cons.mpr ⟨rfl, List.cons_prefix_cons.mpr
    ⟨rfl, List.takeWhile_prefix _⟩⟩
  longest := by
    intro text value hlit hpre
    cases hlit with
    | hex hx' hne hds =>
      have hlen := prefix_takeWhile hds (prefix_tail (prefix_tail hpre))
      exact Nat.succ_le_succ (Nat.succ_le_succ hlen)
    | octal hds =>
      have hstop : ∀ c, (x :: d :: t).head? = some c → isDigit 8 c = false := by
        rintro c ⟨⟩
        rcases hx with rfl | rfl <;> rfl
      rw [octal_stops hds (prefix_tail hpre) hstop]
      exact Nat.succ_le_succ (Nat.zero_le _)
    | decimal hne hds => exact absurd (prefix_head hpre) hne

theorem longest_octal {d : UInt8} (hd : isDigit 8 d = true) (t : List UInt8) :
    Longest (0x30 :: d :: t) (0x30 :: (d :: t).takeWhile (isDigit 8))
      (positional 8 ((d :: t).takeWhile (isDigit 8))) where
  literal := .octal List.all_takeWhile
  isPrefix := List.cons_prefix_cons.mpr ⟨rfl, List.takeWhile_prefix _⟩
  longest := by
    intro text value hlit hpre
    cases hlit with
    | hex hx hne hds =>
      have hxd := prefix_head (prefix_tail hpre)
      rw [← hxd] at hd
      rcases hx with rfl | rfl <;> cases hd
    | octal hds => exact Nat.succ_le_succ (prefix_takeWhile hds (prefix_tail hpre))
    | decimal hne hds => exact absurd (prefix_head hpre) hne

theorem longest_decimal {d : UInt8} (hne : d ≠ 0x30) (hd : isDigit 10 d = true)
    (t : List UInt8) :
    Longest (d :: t) ((d :: t).takeWhile (isDigit 10))
      (positional 10 ((d :: t).takeWhile (isDigit 10))) where
  literal := by
    have hall : ((d :: t).takeWhile (isDigit 10)).all (isDigit 10) := List.all_takeWhile
    rw [List.takeWhile_cons_of_pos hd] at hall ⊢
    exact .decimal hne hall
  isPrefix := List.takeWhile_prefix _
  longest := by
    intro text value hlit hpre
    cases hlit with
    | hex hx hne' hds => exact absurd (prefix_head hpre).symm hne
    | octal hds => exact absurd (prefix_head hpre).symm hne
    | decimal hne' hds => exact prefix_takeWhile hds hpre

/-- Every literal begins with a decimal digit. -/
theorem literal_head {text : List UInt8} {value : Nat} (h : IsLiteral text value) :
    ∃ c u, text = c :: u ∧ isDigit 10 c = true := by
  cases h with
  | hex hx hne hds => exact ⟨_, _, rfl, by decide⟩
  | octal hds => exact ⟨_, _, rfl, by decide⟩
  | decimal hne hds => exact ⟨_, _, rfl, List.all_eq_true.mp hds _ List.mem_cons_self⟩

/-- In front of a lone '0' there is no other literal. -/
theorem literal_loneZero {text : List UInt8} {value : Nat} (h : IsLiteral text value)
    (hpre : text <+: 0x30 :: t) (hlone : LoneZero (0x30 :: t)) : text.length = 1 := by
  obtain ⟨hoct, hhex⟩ := hlone
  cases h with
  | @hex x ds hx hne hds =>
    cases ds with
    | nil => exact absurd rfl hne
    | cons d ds =>
      obtain ⟨v, rfl⟩ := prefix_tail hpre
      exact absurd ⟨x, d, ds ++ v, rfl, hx, List.all_eq_true.mp hds d List.mem_cons_self⟩ hhex
  | octal hds =>
    have hstop : ∀ c, t.head? = some c → isDigit 8 c = false :=
      fun c hc => Bool.eq_false_iff.mpr fun hyes => hoct ⟨c, hc, hyes⟩
    rw [octal_stops hds (prefix_tail hpre) hstop]
    rfl
  | decimal hne hds => exact absurd (prefix_head hpre) hne

/-! ## The scanner -/

theorem scansOk_longest {text : List UInt8} {value : Nat}
    (hl : Longest (s.dropWhile isBlank) text value)
    (hget : getn s = ⟨0, BitVec.ofNat 32 value, (s.dropWhile isBlank).drop text.length⟩) :
    ScansOk s where
  accepts := by
    rw [hget]
    exact ⟨fun _ => ⟨text, value, hl.literal, hl.isPrefix⟩, fun _ => rfl⟩
  longest := by
    intro _
    rw [hget]
    exact ⟨text, value, hl, rfl, rfl⟩
  rejects := Or.inl (by rw [hget])

theorem scansOk_hex {x d : UInt8} (hs : s.dropWhile isBlank = 0x30 :: x :: d :: t)
    (hx : x = 0x78 ∨ x = 0x58) (hd : isDigit 16 d = true) : ScansOk s := by
  have hl := longest_hex hx hd t
  rw [← hs] at hl
  refine scansOk_longest hl ?_
  rw [getn_hex hs hx, getnDigits_digit (Or.inr (Or.inr rfl)) hd, hs, ← drop_takeWhile]
  rfl

theorem scansOk_octal {d : UInt8} (hs : s.dropWhile isBlank = 0x30 :: d :: t)
    (hd : isDigit 8 d = true) : ScansOk s := by
  have hl := longest_octal hd t
  rw [← hs] at hl
  refine scansOk_longest hl ?_
  rw [getn_octal hs hd, getnDigits_digit (Or.inl rfl) hd, hs, ← drop_takeWhile]
  rfl

theorem scansOk_decimal {d : UInt8} (hs : s.dropWhile isBlank = d :: t) (hne : d ≠ 0x30)
    (hd : isDigit 10 d = true) : ScansOk s := by
  have hl := longest_decimal hne hd t
  rw [← hs] at hl
  refine scansOk_longest hl ?_
  rw [getn_decimal hs hne hd, getnDigits_digit (Or.inr (Or.inl rfl)) hd, hs, ← drop_takeWhile]

/-- Where there is no digit, there is no literal. -/
theorem scansOk_other
    (hs : ∀ c, (s.dropWhile isBlank).head? = some c → isDigit 10 c = false) : ScansOk s := by
  have hneg : ¬ (-1 : Int) = 0 := by decide
  have hget := getn_other hs
  refine ⟨?_, ?_, Or.inr (by rw [hget])⟩
  · rw [hget]
    refine ⟨fun h => absurd h hneg, ?_⟩
    rintro ⟨text, value, hlit, hpre⟩
    obtain ⟨c, u, rfl, hc⟩ := literal_head hlit
    obtain ⟨v, hv⟩ := hpre
    rw [hs c (by rw [← hv]; rfl)] at hc
    cases hc
  · rw [hget]
    exact fun h => absurd h hneg

/-- A lone '0' is a literal that `getn` misses. -/
theorem not_scansOk (hlone : LoneZero (s.dropWhile isBlank)) : ¬ ScansOk s := by
  intro hok
  cases hs : s.dropWhile isBlank with
  | nil =>
    rw [hs] at hlone
    exact hlone
  | cons c t =>
    obtain rfl : c = 0x30 := by
      rw [hs] at hlone
      unfold LoneZero at hlone
      split at hlone
      · exact (List.cons.inj ‹_›).1
      · exact hlone.elim
    rw [hs] at hlone
    have hzero : IsLiteral [0x30] (positional 8 []) := .octal rfl
    have hacc : (getn s).rval = 0 := hok.accepts.mpr
      ⟨_, _, hzero, by rw [hs]; exact ⟨t, rfl⟩⟩
    obtain ⟨text, value, hl, -, hrest⟩ := hok.longest hacc
    have hpre := hl.isPrefix
    rw [hs] at hpre hrest
    rw [literal_loneZero hl.literal hpre hlone] at hrest
    rcases getn_loneZero hs hlone with hneg | hlt
    · rw [hacc] at hneg
      cases hneg
    · rw [hrest] at hlt
      exact absurd hlt (Nat.lt_irrefl _)

/-- **`getn` takes exactly the longest literal behind the blanks, and refuses what is
    none, if and only if there is no lone '0'**: a '0' with neither an octal digit nor the
    rest of a hexadecimal number behind it. -/
theorem scansOk_iff (s : List UInt8) : ScansOk s ↔ ¬ LoneZero (s.dropWhile isBlank) := by
  refine ⟨fun hok hlone => not_scansOk hlone hok, fun hlone => ?_⟩
  by_cases hdigit : ∃ c t, s.dropWhile isBlank = c :: t ∧ isDigit 10 c = true
  · obtain ⟨c, t, hs, hc⟩ := hdigit
    by_cases hzero : c = 0x30
    · subst hzero
      rw [hs] at hlone
      rcases Classical.not_and_iff_not_or_not.mp hlone with hoct | hhex
      · obtain ⟨d, hd, hdig⟩ := not_not.mp hoct
        cases t with
        | nil => cases hd
        | cons e u =>
          cases hd
          exact scansOk_octal hs hdig
      · obtain ⟨x, d, u, rfl, hx, hdig⟩ := not_not.mp hhex
        exact scansOk_hex hs hx hdig
    · exact scansOk_decimal hs hzero hc
  · refine scansOk_other fun c hc => Bool.eq_false_iff.mpr fun hyes => hdigit ?_
    obtain ⟨t, ht⟩ := List.head?_eq_some_iff.mp hc
    exact ⟨c, t, ht, hyes⟩

/-- "0" at the end of a line is refused. -/
theorem lone_zero_refused :
    (getn [0x20, 0x30, newline]).rval = -1 ∧ ¬ ScansOk [0x20, 0x30, newline] := by
  refine ⟨by decide, not_scansOk ⟨?_, ?_⟩⟩
  · rintro ⟨d, ⟨⟩, hd⟩
    cases hd
  · rintro ⟨x, d, t, hs, -, -⟩
    cases hs

end SsrlApps.MiscUtils
