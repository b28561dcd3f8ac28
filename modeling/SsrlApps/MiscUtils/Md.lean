/-
  `md`: a dump of memory, as words and as characters.

  Model. Addresses and pointers have 32 bits, an `int` wraps around at 32 bits; what is
  printed is a list of characters. The loop runs with fuel, `none` says that it has not
  ended yet. `stateAt` is what the loop has after some words: all but the last of the lines
  begun are complete, for the characters of a line are printed when the next one begins.

  `DumpOk` is the layout of the dump of `n` bytes, line by line.

  Proved:
  * `mdBody_stateAt`: one turn of the loop adds a word, and first completes the line before
    it if the word begins one.
  * `mdLoop_run`: the loop ends with all the words.
  * `md_layout_iff`: the dump has the layout exactly if it ends below the last address. The
    pointer behind the very last byte is 0, and the characters of the last line are missing.
-/
import SsrlApps.MiscUtils.Mm

namespace SsrlApps.MiscUtils

open Bytes

/-! ## The source -/

/-- `isprint`, in the C locale. -/
def isPrint (c : UInt8) : Bool := 0x20 ≤ c && c ≤ 0x7e

/-- `isprint(c) ? c : '.'` -/
def shownChar (c : UInt8) : Char := if isPrint c then Char.ofNat c.toNat else '.'

/-- A number in `w` hexadecimal digits, as "%0wx" prints one below `16 ^ w`. -/
def hex : Nat → Nat → List Char
  | 0, _ => []
  | w + 1, v => hex w (v / 16) ++ [Nat.digitChar (v % 16)]

theorem toNat_succ {p stop : BitVec 32} (h : p < stop) : (p + 1).toNat = p.toNat + 1 := by
  have hlt : p.toNat < stop.toNat := h
  have htop := stop.isLt
  rw [BitVec.toNat_add]
  show (p.toNat + 1) % 2 ^ 32 = p.toNat + 1
  omega

/-- The loop of `dumpchars`: what it prints, and where it leaves `*pstr`. -/
def dumpcharsLoop (m : Bytes) (pstr stop : BitVec 32) : List Char × BitVec 32 :=
  if pstr < stop then
    let r := dumpcharsLoop m (pstr + 1) stop
    (shownChar (m pstr.toNat) :: r.1, r.2)
  else ([], pstr)
termination_by stop.toNat - pstr.toNat
decreasing_by
  have hlt : pstr.toNat < stop.toNat := ‹pstr < stop›
  rw [toNat_succ ‹pstr < stop›]
  omega

def dumpval (e : Endian) (m : Bytes) (w : Width) (address : BitVec 32) : List Char :=
  hex (2 * w.bytes) (readWord e m w address)

structure MdState where
  i : Int
  address : BitVec 32
  oadd : BitVec 32
  out : List Char

/-- `dumpchars(&oadd, (unsigned char*)address)` -/
def dumpchars (m : Bytes) (st : MdState) : MdState :=
  let r := dumpcharsLoop m st.oadd st.address
  { st with oadd := r.2, out := st.out ++ ([' ', ' '] ++ r.1) }

/-- "0x%08x:" -/
def lineHead (address : BitVec 32) : List Char := ['0', 'x'] ++ hex 8 address.toNat ++ [':']

/-- `if ( i%16 == 0 )`: a line begins, and the line before it is completed. -/
def beginLine (m : Bytes) (st : MdState) : MdState :=
  if st.i.tmod 16 = 0 then
    let st := if st.i ≠ 0 then dumpchars m st else st
    { st with out := st.out ++ '\n' :: lineHead st.address }
  else st

def mdBody (e : Endian) (m : Bytes) (w : Width) (st : MdState) : MdState :=
  let st := beginLine m st
  { st with
    i := wrapInt (st.i + w.bytes)
    address := st.address + BitVec.ofNat 32 w.bytes
    out := st.out ++ ([' ', ' '] ++ dumpval e m w st.address) }

def mdLoop (e : Endian) (m : Bytes) (w : Width) (count : Int) : Nat → MdState → Option MdState
  | 0, _ => none
  | fuel + 1, st =>
    if st.i < count then mdLoop e m w count fuel (mdBody e m w st) else some st

/-- `(((i+15)/16)*16 - i)/size * (2 + 2*size)` -/
def padWidth (i : Int) (w : Width) : Int :=
  (wrapInt ((wrapInt (i + 15)).tdiv 16 * 16 - i)).tdiv w.bytes * (2 + 2 * w.bytes)

/-- What comes behind the loop. -/
def mdEnd (m : Bytes) (w : Width) (count : Int) (st : MdState) : List Char :=
  let st :=
    if 0 < count then
      dumpchars m { st with out := st.out ++ List.replicate (padWidth st.i w).natAbs ' ' }
    else st
  st.out ++ ['\n']

/-- `md(address, count, size)`: the value that is returned, and what is printed. -/
def md (e : Endian) (fuel : Nat) (m : Bytes) (address : BitVec 32) (count size : Int) :
    Option (Int × List Char) :=
  let w := Width.ofSize size
  (mdLoop e m w count fuel ⟨0, address, address, []⟩).map fun st => (0, mdEnd m w count st)

/-! ## The layout -/

/-- The words that make `count` bytes, rounded up. -/
def wordCount (count : Int) (w : Width) : Nat := (count.toNat + w.bytes - 1) / w.bytes

/-- `count`, rounded up to whole words. -/
def dumpSize (count : Int) (w : Width) : Nat := wordCount count w * w.bytes

/-- `k` words from `a` on, each behind two blanks. -/
def wordColumn (e : Endian) (m : Bytes) (w : Width) (a : BitVec 32) (k : Nat) : List Char :=
  (List.range k).flatMap fun j =>
    [' ', ' '] ++ dumpval e m w (a + BitVec.ofNat 32 (j * w.bytes))

/-- The characters of `n` bytes from `a` on. -/
def charColumn (m : Bytes) (a n : Nat) : List Char := (m.slice a n).map shownChar

structure MdLine where
  head : List Char
  words : List Char
  padding : List Char
  chars : List Char

/-- What stands in front of the characters. -/
def MdLine.left (l : MdLine) : List Char := l.head ++ l.words ++ l.padding

def MdLine.text (l : MdLine) : List Char := l.left ++ ([' ', ' '] ++ l.chars)

/-- The bytes of line `k` in a dump of `n`. -/
def lineSpan (n k : Nat) : Nat := min 16 (n - 16 * k)

/-- The width of what stands in front of the characters, the same for each line. -/
def leftWidth (w : Width) : Nat := 11 + 16 / w.bytes * (2 + 2 * w.bytes)

/-- Line `k` of the dump of the `n` bytes from `a` on. -/
structure IsLine (e : Endian) (m : Bytes) (w : Width) (a : BitVec 32) (n k : Nat)
    (l : MdLine) : Prop where
  head : l.head = lineHead (a + BitVec.ofNat 32 (16 * k))
  words : l.words =
    wordColumn e m w (a + BitVec.ofNat 32 (16 * k)) (lineSpan n k / w.bytes)
  blank : ∀ c ∈ l.padding, c = ' '
  width : l.left.length = leftWidth w
  chars : l.chars = charColumn m (a.toNat + 16 * k) (lineSpan n k)

/-- The lines of the dump: all of their words together are the words of the `n` bytes, and
    so are their characters. -/
structure MdLayout (e : Endian) (m : Bytes) (w : Width) (a : BitVec 32) (n : Nat)
    (lines : List MdLine) : Prop where
  count : lines.length = (n + 15) / 16
  line : ∀ k l, lines[k]? = some l → IsLine e m w a n k l
  words : lines.flatMap MdLine.words = wordColumn e m w a (n / w.bytes)
  chars : lines.flatMap MdLine.chars = charColumn m a.toNat n

/-- The lines as they are printed. -/
def printed (lines : List MdLine) : List Char :=
  lines.flatMap (fun l => '\n' :: l.text) ++ ['\n']

/-- `md` ends, and prints the dump. -/
def DumpOk (e : Endian) (m : Bytes) (address : BitVec 32) (count size : Int) : Prop :=
  ∃ fuel lines, md e fuel m address count size = some (0, printed lines) ∧
    MdLayout e m (Width.ofSize size) address (dumpSize count (Width.ofSize size)) lines

/-! ## Characters -/

/-- The characters from one pointer up to another. -/
theorem dumpcharsLoop_eq {p stop : BitVec 32} {n : Nat} (h : p.toNat + n = stop.toNat)
    (m : Bytes) : dumpcharsLoop m p stop = (charColumn m p.toNat n, stop) := by
  induction n generalizing p with
  | zero =>
    have heq : p = stop := BitVec.eq_of_toNat_eq h
    rw [dumpcharsLoop, if_neg (by rw [heq]; exact Nat.lt_irrefl stop.toNat), heq]
    rfl
  | succ n ih =>
    have hlt : p < stop := by
      show p.toNat < stop.toNat
      omega
    have hnext := toNat_succ hlt
    rw [dumpcharsLoop, if_pos hlt, ih (by omega), hnext]
    rfl

/-- A pointer that wrapped around is behind nothing. -/
theorem dumpcharsLoop_wrapped (m : Bytes) (p : BitVec 32) : dumpcharsLoop m p 0 = ([], p) := by
  have hlt : ¬ p < 0 := by
    show ¬ p.toNat < 0
    omega
  rw [dumpcharsLoop, if_neg hlt]

theorem hex_length (w v : Nat) : (hex w v).length = w := by
  induction w generalizing v with
  | zero => rfl
  | succ w ih =>
    show (hex w (v / 16) ++ [_]).length = w + 1
    rw [List.length_append, ih]
    rfl

theorem lineHead_length (a : BitVec 32) : (lineHead a).length = 11 := by
  unfold lineHead
  rw [List.length_append, List.length_append, hex_length]
  rfl

theorem charColumn_add (m : Bytes) (a n k : Nat) :
    charColumn m a (n + k) = charColumn m a n ++ charColumn m (a + n) k := by
  unfold charColumn
  rw [slice_add, List.map_append]

theorem charColumn_length (m : Bytes) (a n : Nat) : (charColumn m a n).length = n := by
  induction n generalizing a with
  | zero => rfl
  | succ n ih => exact congrArg Nat.succ (ih (a + 1))

/-! ## Words -/

variable {e : Endian} {m : Bytes} {w : Width}

theorem wordColumn_succ (a : BitVec 32) (k : Nat) :
    wordColumn e m w a (k + 1) = wordColumn e m w a k ++
      ([' ', ' '] ++ dumpval e m w (a + BitVec.ofNat 32 (k * w.bytes))) := by
  unfold wordColumn
  rw [List.range_succ, List.flatMap_append, List.flatMap_singleton]

theorem ofNat_add_assoc (a : BitVec 32) (x y : Nat) :
    a + BitVec.ofNat 32 x + BitVec.ofNat 32 y = a + BitVec.ofNat 32 (x + y) := by
  rw [BitVec.add_assoc, BitVec.ofNat_add]

theorem wordColumn_add (a : BitVec 32) (j k : Nat) :
    wordColumn e m w a (j + k) = wordColumn e m w a j ++
      wordColumn e m w (a + BitVec.ofNat 32 (j * w.bytes)) k := by
  induction k with
  | zero => exact (List.append_nil _).symm
  | succ k ih =>
    rw [← Nat.add_assoc, wordColumn_succ, ih, wordColumn_succ, List.append_assoc,
      ofNat_add_assoc, Nat.add_mul]

theorem wordColumn_length (a : BitVec 32) (k : Nat) :
    (wordColumn e m w a k).length = k * (2 + 2 * w.bytes) := by
  induction k with
  | zero => exact (Nat.zero_mul _).symm
  | succ k ih =>
    rw [wordColumn_succ, List.length_append, List.length_append, ih,
      Nat.succ_mul k]
    show _ + (2 + (hex _ _).length) = _
    rw [hex_length]

/-! ## The states of the loop -/

/-- The words of a line. -/
def Width.perLine (w : Width) : Nat := 16 / w.bytes

theorem toNat_offset {a : BitVec 32} {n : Nat} (h : a.toNat + n < 2 ^ 32) :
    (a + BitVec.ofNat 32 n).toNat = a.toNat + n := by
  rw [BitVec.toNat_add, BitVec.toNat_ofNat, Nat.add_mod_mod]
  exact Nat.mod_eq_of_lt h

/-- The first `f` lines, with their characters. -/
def completeLines (e : Endian) (m : Bytes) (w : Width) (a : BitVec 32) (f : Nat) : List Char :=
  (List.range f).flatMap fun k =>
    '\n' :: (lineHead (a + BitVec.ofNat 32 (16 * k)) ++
      wordColumn e m w (a + BitVec.ofNat 32 (16 * k)) w.perLine ++
      ([' ', ' '] ++ charColumn m (a.toNat + 16 * k) 16))

/-- Behind `f` complete lines, the words up to word `j` are printed. -/
def openState (e : Endian) (m : Bytes) (w : Width) (a : BitVec 32) (f j : Nat) : MdState where
  i := ((j * w.bytes : Nat) : Int)
  address := a + BitVec.ofNat 32 (j * w.bytes)
  oadd := a + BitVec.ofNat 32 (16 * f)
  out := completeLines e m w a f ++ '\n' :: (lineHead (a + BitVec.ofNat 32 (16 * f)) ++
    wordColumn e m w (a + BitVec.ofNat 32 (16 * f)) (j - f * w.perLine))

/-- The state behind `j` words: the line of the last one is open. -/
def stateAt (e : Endian) (m : Bytes) (w : Width) (a : BitVec 32) : Nat → MdState
  | 0 => ⟨0, a, a, []⟩
  | j + 1 => openState e m w a (j / w.perLine) (j + 1)

/-- A line begins behind a multiple of the words of a line. -/
theorem line_begins (w : Width) (j : Nat) : j * w.bytes % 16 = 0 ↔ j % w.perLine = 0 := by
  cases w <;> simp only [Width.perLine, Width.bytes] <;> omega

/-- The line before it is then whole. -/
theorem line_whole (w : Width) {j : Nat} (h : (j + 1) % w.perLine = 0) :
    (j + 1) * w.bytes = 16 * (j / w.perLine + 1) ∧
      (j + 1) / w.perLine = j / w.perLine + 1 ∧
      j + 1 - j / w.perLine * w.perLine = w.perLine ∧
      j + 1 - (j / w.perLine + 1) * w.perLine = 0 := by
  cases w <;> simp only [Width.perLine, Width.bytes] at h ⊢ <;> omega

theorem line_goes_on (w : Width) {j : Nat} (h : (j + 1) % w.perLine ≠ 0) :
    (j + 1) / w.perLine = j / w.perLine := by
  cases w <;> simp only [Width.perLine, Width.bytes] at h ⊢ <;> omega

/-- The next word is on the open line. -/
theorem line_word (w : Width) (j : Nat) :
    j + 1 - j / w.perLine * w.perLine = j - j / w.perLine * w.perLine + 1 ∧
      16 * (j / w.perLine) + (j - j / w.perLine * w.perLine) * w.bytes = j * w.bytes := by
  cases w <;> simp only [Width.perLine, Width.bytes] <;> omega

theorem completeLines_succ (a : BitVec 32) (f : Nat) :
    completeLines e m w a (f + 1) = completeLines e m w a f ++
      '\n' :: (lineHead (a + BitVec.ofNat 32 (16 * f)) ++
        wordColumn e m w (a + BitVec.ofNat 32 (16 * f)) w.perLine ++
        ([' ', ' '] ++ charColumn m (a.toNat + 16 * f) 16)) := by
  unfold completeLines
  rw [List.range_succ, List.flatMap_append, List.flatMap_singleton]

theorem tmod_natCast (n : Nat) : (n : Int).tmod 16 = 0 ↔ n % 16 = 0 := by
  rw [Int.tmod_eq_emod_of_nonneg (Int.natCast_nonneg n)]
  omega

/-- The characters of `n` bytes are printed, up to the address. -/
theorem dumpchars_eq {st : MdState} {n : Nat} (h : st.oadd.toNat + n = st.address.toNat) :
    dumpchars m st = { st with
      oadd := st.address
      out := st.out ++ ([' ', ' '] ++ charColumn m st.oadd.toNat n) } := by
  unfold dumpchars
  rw [dumpcharsLoop_eq h]

/-- Where a line begins, the one before it is completed. -/
theorem beginLine_stateAt {a : BitVec 32} {j : Nat} (htop : a.toNat + j * w.bytes < 2 ^ 32) :
    beginLine m (stateAt e m w a j) = openState e m w a (j / w.perLine) j := by
  cases j with
  | zero =>
    have hi : (stateAt e m w a 0).i.tmod 16 = 0 := rfl
    have hfirst : ¬ (stateAt e m w a 0).i ≠ 0 := fun h => h rfl
    unfold beginLine
    rw [if_pos hi]
    dsimp only
    rw [if_neg hfirst]
    simp [stateAt, openState, completeLines, wordColumn]
  | succ j =>
    unfold beginLine
    by_cases hline : (j + 1) % w.perLine = 0
    · obtain ⟨hbytes, hdiv, hwords, hnone⟩ := line_whole w hline
      have hi : (stateAt e m w a (j + 1)).i.tmod 16 = 0 :=
        (tmod_natCast _).mpr ((line_begins w (j + 1)).mpr hline)
      have hne : (stateAt e m w a (j + 1)).i ≠ 0 := by
        have hpos : (j + 1) * w.bytes ≠ 0 := by
          rw [hbytes]
          exact Nat.succ_ne_zero _
        exact Int.natCast_ne_zero.mpr hpos
      have hstart : (a + BitVec.ofNat 32 (16 * (j / w.perLine))).toNat =
          a.toNat + 16 * (j / w.perLine) := toNat_offset (by omega)
      have hwhole : (stateAt e m w a (j + 1)).oadd.toNat + 16 =
          (stateAt e m w a (j + 1)).address.toNat := by
        show (a + BitVec.ofNat 32 (16 * (j / w.perLine))).toNat + 16 =
          (a + BitVec.ofNat 32 ((j + 1) * w.bytes)).toNat
        rw [hstart, toNat_offset htop]
        omega
      rw [if_pos hi]
      dsimp only
      rw [if_pos hne, hdiv, dumpchars_eq hwhole]
      unfold stateAt openState
      dsimp only
      rw [hbytes, hwords, hnone, hstart, completeLines_succ]
      simp [wordColumn]
    · have hi : ¬ (stateAt e m w a (j + 1)).i.tmod 16 = 0 := fun h =>
        hline ((line_begins w (j + 1)).mp ((tmod_natCast _).mp h))
      rw [if_neg hi, line_goes_on w hline]
      rfl

/-- One turn of the loop: a word more. -/
theorem mdBody_stateAt {a : BitVec 32} {j : Nat} (htop : a.toNat + j * w.bytes < 2 ^ 32)
    (hint : (j + 1) * w.bytes < 2 ^ 31) :
    mdBody e m w (stateAt e m w a j) = stateAt e m w a (j + 1) := by
  obtain ⟨hwords, hbytes⟩ := line_word w j
  have hsucc : j * w.bytes + w.bytes = (j + 1) * w.bytes := (Nat.succ_mul j w.bytes).symm
  have hi : wrapInt (((j * w.bytes : Nat) : Int) + (w.bytes : Int)) =
      (((j + 1) * w.bytes : Nat) : Int) := by
    rw [← Int.natCast_add, hsucc]
    exact wrapInt_eq (by omega)
  unfold mdBody
  rw [beginLine_stateAt htop]
  unfold stateAt openState
  dsimp only
  rw [hi, ofNat_add_assoc, hsucc, hwords, wordColumn_succ, ofNat_add_assoc, hbytes]
  simp

theorem mdLoop_run {a : BitVec 32} {count : Int} {words : Nat}
    (hcount : ∀ j, ((j * w.bytes : Nat) : Int) < count ↔ j < words)
    (htop : a.toNat + words * w.bytes ≤ 2 ^ 32) (hint : words * w.bytes < 2 ^ 31)
    {j r : Nat} (hr : j + r = words) :
    mdLoop e m w count (r + 1) (stateAt e m w a j) = some (stateAt e m w a words) := by
  have hi : ∀ j, (stateAt e m w a j).i = ((j * w.bytes : Nat) : Int) := by
    intro j
    cases j with
    | zero => rw [Nat.zero_mul]; rfl
    | succ j => rfl
  have hpos : 0 < w.bytes := by
    cases w <;> decide
  induction r generalizing j with
  | zero =>
    obtain rfl : j = words := hr
    unfold mdLoop
    rw [hi, if_neg (fun h => Nat.lt_irrefl _ ((hcount j).mp h))]
  | succ r ih =>
    have hmul : (j + 1) * w.bytes ≤ words * w.bytes := Nat.mul_le_mul_right _ (by omega)
    have hsucc : (j + 1) * w.bytes = j * w.bytes + w.bytes := Nat.succ_mul j w.bytes
    unfold mdLoop
    rw [hi, if_pos ((hcount j).mpr (by omega)), mdBody_stateAt (by omega) (by omega)]
    exact ih (by omega)

/-! ## The lines -/

/-- Line `k`, with `n` bytes on it. -/
def lineAt (e : Endian) (m : Bytes) (w : Width) (a : BitVec 32) (n k : Nat) : MdLine where
  head := lineHead (a + BitVec.ofNat 32 (16 * k))
  words := wordColumn e m w (a + BitVec.ofNat 32 (16 * k)) (n / w.bytes)
  padding := List.replicate ((16 - n) / w.bytes * (2 + 2 * w.bytes)) ' '
  chars := charColumn m (a.toNat + 16 * k) n

def dumpLines (e : Endian) (m : Bytes) (w : Width) (a : BitVec 32) (n : Nat) : List MdLine :=
  (List.range ((n + 15) / 16)).map fun k => lineAt e m w a (lineSpan n k) k

/-- `j + 1` words make lines of 16 bytes, and a last line that is not empty. -/
theorem lines_of_words (w : Width) (j : Nat) :
    ((j + 1) * w.bytes + 15) / 16 = j / w.perLine + 1 ∧
      16 * (j / w.perLine) < (j + 1) * w.bytes ∧
      lineSpan ((j + 1) * w.bytes) (j / w.perLine) =
        (j + 1) * w.bytes - 16 * (j / w.perLine) ∧
      ((j + 1) * w.bytes - 16 * (j / w.perLine)) / w.bytes = j + 1 - j / w.perLine * w.perLine ∧
      j / w.perLine * w.perLine ≤ j + 1 := by
  unfold lineSpan
  cases w <;> simp only [Width.perLine, Width.bytes] <;> omega

theorem lineSpan_whole (w : Width) {j k : Nat} (hk : k < j / w.perLine) :
    lineSpan ((j + 1) * w.bytes) k = 16 := by
  unfold lineSpan
  cases w <;> simp only [Width.perLine, Width.bytes] at hk ⊢ <;> omega

/-- All lines but the last are whole. -/
theorem dumpLines_eq (a : BitVec 32) (j : Nat) :
    dumpLines e m w a ((j + 1) * w.bytes) =
      (List.range (j / w.perLine)).map (lineAt e m w a 16) ++
        [lineAt e m w a ((j + 1) * w.bytes - 16 * (j / w.perLine)) (j / w.perLine)] := by
  obtain ⟨hcount, -, hlast, -, -⟩ := lines_of_words w j
  unfold dumpLines
  rw [hcount, List.range_succ, List.map_append, List.map_singleton, hlast]
  congr 1
  refine List.map_congr_left fun k hk => ?_
  rw [lineSpan_whole w (List.mem_range.mp hk)]

/-- The words of whole lines, one after the other. -/
theorem wordColumn_lines (a : BitVec 32) (f : Nat) :
    (List.range f).flatMap (fun k =>
        wordColumn e m w (a + BitVec.ofNat 32 (16 * k)) (16 / w.bytes)) =
      wordColumn e m w a (f * w.perLine) := by
  have hper : w.perLine * w.bytes = 16 := by
    cases w <;> rfl
  induction f with
  | zero =>
    rw [Nat.zero_mul]
    rfl
  | succ f ih =>
    rw [List.range_succ, List.flatMap_append, List.flatMap_singleton, ih,
      Nat.succ_mul f w.perLine, wordColumn_add, Nat.mul_assoc, hper, Nat.mul_comm f 16]
    rfl

/-- The characters of whole lines, one after the other. -/
theorem charColumn_lines (a f : Nat) :
    (List.range f).flatMap (fun k => charColumn m (a + 16 * k) 16) =
      charColumn m a (16 * f) := by
  induction f with
  | zero => rfl
  | succ f ih =>
    rw [List.range_succ, List.flatMap_append, List.flatMap_singleton, ih, Nat.mul_succ,
      charColumn_add]

/-- Words and blanks together have the same width on each line. -/
theorem left_length (a : BitVec 32) {n : Nat} (hn : n ≤ 16) (hdvd : w.bytes ∣ n) (k : Nat) :
    (lineAt e m w a n k).left.length = leftWidth w := by
  have hsum : n / w.bytes * (2 + 2 * w.bytes) + (16 - n) / w.bytes * (2 + 2 * w.bytes) =
      16 / w.bytes * (2 + 2 * w.bytes) := by
    cases w <;> simp only [Width.bytes] at hdvd ⊢ <;> omega
  unfold MdLine.left leftWidth lineAt
  rw [List.length_append, List.length_append, lineHead_length, wordColumn_length,
    List.length_replicate]
  omega

theorem lineSpan_dvd (w : Width) (j k : Nat) : w.bytes ∣ lineSpan (j * w.bytes) k := by
  unfold lineSpan
  cases w <;> simp only [Width.bytes] <;> omega

/-- The lines are the dump. -/
theorem dump_dumpLines (a : BitVec 32) (j : Nat) :
    MdLayout e m w a ((j + 1) * w.bytes) (dumpLines e m w a ((j + 1) * w.bytes)) where
  count := by
    unfold dumpLines
    rw [List.length_map, List.length_range]
  line := by
    intro k l hl
    unfold dumpLines at hl
    rw [List.getElem?_map, Option.map_eq_some_iff] at hl
    obtain ⟨i, hi, rfl⟩ := hl
    obtain ⟨hlt, rfl⟩ := List.getElem?_eq_some_iff.mp hi
    rw [List.getElem_range]
    have hspan : lineSpan ((j + 1) * w.bytes) k ≤ 16 := Nat.min_le_left _ _
    exact ⟨rfl, rfl, fun c hc => List.eq_of_mem_replicate hc,
      left_length a hspan (lineSpan_dvd w (j + 1) k) k, rfl⟩
  words := by
    obtain ⟨-, -, -, hrest, hle⟩ := lines_of_words w j
    have hpos : 0 < w.bytes := by
      cases w <;> decide
    have hper : w.perLine * w.bytes = 16 := by
      cases w <;> rfl
    rw [dumpLines_eq, List.flatMap_append, List.flatMap_map, List.flatMap_singleton,
      Nat.mul_div_cancel _ hpos]
    show (List.range (j / w.perLine)).flatMap (fun k =>
        wordColumn e m w (a + BitVec.ofNat 32 (16 * k)) (16 / w.bytes)) ++
      wordColumn e m w (a + BitVec.ofNat 32 (16 * (j / w.perLine)))
        (((j + 1) * w.bytes - 16 * (j / w.perLine)) / w.bytes) = _
    have hsplit : j + 1 = j / w.perLine * w.perLine +
        (j + 1 - j / w.perLine * w.perLine) := (Nat.add_sub_cancel' hle).symm
    conv_rhs => rw [hsplit]
    rw [wordColumn_lines, wordColumn_add, hrest, Nat.mul_assoc, hper, Nat.mul_comm _ 16]
  chars := by
    obtain ⟨-, hlt, -, -, -⟩ := lines_of_words w j
    rw [dumpLines_eq, List.flatMap_append, List.flatMap_map, List.flatMap_singleton]
    show (List.range (j / w.perLine)).flatMap (fun k =>
        charColumn m (a.toNat + 16 * k) 16) ++
      charColumn m (a.toNat + 16 * (j / w.perLine))
        ((j + 1) * w.bytes - 16 * (j / w.perLine)) = _
    rw [charColumn_lines, ← charColumn_add, Nat.add_sub_cancel' (Nat.le_of_lt hlt)]

/-! ## The end of the dump -/

/-- What the last line is padded with. -/
theorem padWidth_eq (w : Width) {j : Nat} (hint : (j + 1) * w.bytes ≤ 2 ^ 31 - 16) :
    (padWidth (((j + 1) * w.bytes : Nat) : Int) w).natAbs =
      (16 - ((j + 1) * w.bytes - 16 * (j / w.perLine))) / w.bytes * (2 + 2 * w.bytes) := by
  have hup : (wrapInt ((((j + 1) * w.bytes : Nat) : Int) + 15)).tdiv 16 =
      ((((j + 1) * w.bytes : Nat) : Int) + 15) / 16 := by
    rw [wrapInt_eq (by omega), Int.tdiv_eq_ediv_of_nonneg (by omega)]
  unfold padWidth
  rw [hup, wrapInt_eq (by omega), Int.tdiv_eq_ediv_of_nonneg (by omega)]
  cases w <;> simp only [Width.perLine, Width.bytes] at hint ⊢ <;> omega

theorem printed_dumpLines (a : BitVec 32) (j : Nat) :
    printed (dumpLines e m w a ((j + 1) * w.bytes)) =
      completeLines e m w a (j / w.perLine) ++ '\n' ::
        (lineAt e m w a ((j + 1) * w.bytes - 16 * (j / w.perLine)) (j / w.perLine)).text ++
        ['\n'] := by
  unfold printed
  rw [dumpLines_eq, List.flatMap_append, List.flatMap_map, List.flatMap_singleton]
  unfold completeLines
  congr 2
  simp [MdLine.text, MdLine.left, lineAt, Width.perLine]

/-- What is printed when the last pointer did not wrap around. -/
theorem mdEnd_below {a : BitVec 32} {j : Nat} {count : Int} (hcount : 0 < count)
    (hint : (j + 1) * w.bytes ≤ 2 ^ 31 - 16) (htop : a.toNat + (j + 1) * w.bytes < 2 ^ 32) :
    mdEnd m w count (stateAt e m w a (j + 1)) =
      printed (dumpLines e m w a ((j + 1) * w.bytes)) := by
  obtain ⟨-, hlt, -, hrest, -⟩ := lines_of_words w j
  have hstart : (a + BitVec.ofNat 32 (16 * (j / w.perLine))).toNat =
      a.toNat + 16 * (j / w.perLine) := toNat_offset (by omega)
  have hspan : (a + BitVec.ofNat 32 (16 * (j / w.perLine))).toNat +
      ((j + 1) * w.bytes - 16 * (j / w.perLine)) =
        (a + BitVec.ofNat 32 ((j + 1) * w.bytes)).toNat := by
    rw [hstart, toNat_offset htop]
    omega
  unfold mdEnd
  rw [if_pos hcount, printed_dumpLines]
  unfold stateAt openState
  dsimp only
  rw [dumpchars_eq hspan, padWidth_eq w hint, hstart]
  simp [MdLine.text, MdLine.left, lineAt, hrest]

/-- When it did, the characters of the last line are missing. -/
theorem mdEnd_top {a : BitVec 32} {j : Nat} {count : Int} (hcount : 0 < count)
    (hint : (j + 1) * w.bytes ≤ 2 ^ 31 - 16) (htop : a.toNat + (j + 1) * w.bytes = 2 ^ 32) :
    (mdEnd m w count (stateAt e m w a (j + 1))).length +
        ((j + 1) * w.bytes - 16 * (j / w.perLine)) =
      (printed (dumpLines e m w a ((j + 1) * w.bytes))).length := by
  obtain ⟨-, hlt, -, hrest, -⟩ := lines_of_words w j
  have hwrap : a + BitVec.ofNat 32 ((j + 1) * w.bytes) = 0 := by
    apply BitVec.eq_of_toNat_eq
    rw [BitVec.toNat_add, BitVec.toNat_ofNat, Nat.add_mod_mod, htop]
    rfl
  unfold mdEnd
  rw [if_pos hcount, printed_dumpLines]
  unfold stateAt openState dumpchars
  dsimp only
  rw [hwrap, dumpcharsLoop_wrapped, padWidth_eq w hint]
  simp [MdLine.text, MdLine.left, lineAt, hrest, charColumn_length]
  omega

/-- The layout fixes the length of what is printed. -/
theorem printed_length {lines : List MdLine}
    (hwidth : ∀ l ∈ lines, l.left.length = leftWidth w) :
    (printed lines).length =
      lines.length * (leftWidth w + 3) + (lines.flatMap MdLine.chars).length + 1 := by
  induction lines with
  | nil => rw [List.length_nil, Nat.zero_mul]; rfl
  | cons l lines ih =>
    have htail := ih fun x hx => hwidth x (List.mem_cons_of_mem l hx)
    have htext : l.text.length = leftWidth w + 2 + l.chars.length := by
      unfold MdLine.text
      rw [List.length_append, hwidth l List.mem_cons_self, List.length_append]
      exact (Nat.add_assoc _ _ _).symm
    have hcons : printed (l :: lines) = '\n' :: l.text ++ printed lines := by
      unfold printed
      rw [List.flatMap_cons, List.append_assoc]
    rw [hcons, List.length_append, htail, List.length_cons, htext, List.flatMap_cons,
      List.length_append, List.length_cons, Nat.succ_mul lines.length]
    omega

theorem dump_length {a : BitVec 32} {n : Nat} {lines : List MdLine}
    (h : MdLayout e m w a n lines) :
    (printed lines).length = (n + 15) / 16 * (leftWidth w + 3) + n + 1 := by
  have hwidth : ∀ l ∈ lines, l.left.length = leftWidth w := by
    intro l hl
    obtain ⟨k, hk⟩ := List.getElem?_of_mem hl
    exact (h.line k l hk).width
  rw [printed_length hwidth, h.count, h.chars, charColumn_length]

theorem mdLoop_det {count : Int} {fuel fuel' : Nat} {st r r' : MdState}
    (h : mdLoop e m w count fuel st = some r) (h' : mdLoop e m w count fuel' st = some r') :
    r = r' := by
  induction fuel generalizing fuel' st with
  | zero => cases h
  | succ fuel ih =>
    cases fuel' with
    | zero => cases h'
    | succ fuel' =>
      unfold mdLoop at h h'
      split at h
      · rw [if_pos ‹_›] at h'
        exact ih h h'
      · rw [if_neg ‹_›] at h'
        exact (Option.some.inj h).symm.trans (Option.some.inj h')

/-- The words of a dump that is not empty, and how far they reach. -/
theorem wordCount_facts {count : Int} (hcount : 0 < count) (hmax : count ≤ 2 ^ 31 - 1 - 16)
    (w : Width) :
    ∃ j, wordCount count w = j + 1 ∧ (j + 1) * w.bytes ≤ 2 ^ 31 - 16 ∧
      ∀ i, ((i * w.bytes : Nat) : Int) < count ↔ i < j + 1 := by
  have hpos : 0 < wordCount count w := by
    unfold wordCount
    cases w <;> simp only [Width.bytes] <;> omega
  obtain ⟨j, hj⟩ := Nat.exists_eq_succ_of_ne_zero (Nat.ne_of_gt hpos)
  refine ⟨j, hj, ?_, fun i => ?_⟩
  · rw [← Nat.succ_eq_add_one, ← hj]
    unfold wordCount
    cases w <;> simp only [Width.bytes] <;> omega
  · rw [← Nat.succ_eq_add_one, ← hj]
    unfold wordCount
    cases w <;> simp only [Width.bytes] <;> omega

/-- The run of `md`, whatever its fuel. -/
theorem md_run {address : BitVec 32} {count size : Int} (hcount : 0 < count)
    (hmax : count ≤ 2 ^ 31 - 1 - 16)
    (htop : address.toNat + dumpSize count (Width.ofSize size) ≤ 2 ^ 32) :
    ∃ j, dumpSize count (Width.ofSize size) = (j + 1) * (Width.ofSize size).bytes ∧
      (j + 1) * (Width.ofSize size).bytes ≤ 2 ^ 31 - 16 ∧
      md e (j + 2) m address count size = some (0, mdEnd m (Width.ofSize size) count
        (stateAt e m (Width.ofSize size) address (j + 1))) ∧
      ∀ fuel r, md e fuel m address count size = some r →
        r.2 = mdEnd m (Width.ofSize size) count
          (stateAt e m (Width.ofSize size) address (j + 1)) := by
  obtain ⟨j, hwords, hint, hless⟩ := wordCount_facts hcount hmax (Width.ofSize size)
  have hsize : dumpSize count (Width.ofSize size) = (j + 1) * (Width.ofSize size).bytes := by
    unfold dumpSize
    rw [hwords]
  have hrun : mdLoop e m (Width.ofSize size) count (j + 2) ⟨0, address, address, []⟩ =
      some (stateAt e m (Width.ofSize size) address (j + 1)) :=
    mdLoop_run hless (by rw [← hsize]; exact htop) (by omega) (Nat.zero_add (j + 1))
  refine ⟨j, hsize, hint, ?_, fun fuel r hmd => ?_⟩
  · unfold md
    dsimp only
    rw [hrun]
    rfl
  · obtain ⟨st, hst, rfl⟩ := Option.map_eq_some_iff.mp hmd
    rw [mdLoop_det hst hrun]

theorem dumpOk_below {address : BitVec 32} {count size : Int} (hcount : 0 < count)
    (hmax : count ≤ 2 ^ 31 - 1 - 16)
    (hbelow : address.toNat + dumpSize count (Width.ofSize size) < 2 ^ 32) :
    DumpOk e m address count size := by
  obtain ⟨j, hsize, hint, hmd, -⟩ := md_run hcount hmax (Nat.le_of_lt hbelow)
  unfold DumpOk
  rw [hsize] at hbelow ⊢
  rw [mdEnd_below hcount hint hbelow] at hmd
  exact ⟨j + 2, _, hmd, dump_dumpLines address j⟩

/-- What is missing at the top shows in the length of what is printed. -/
theorem not_dumpOk_top {address : BitVec 32} {count size : Int} (hcount : 0 < count)
    (hmax : count ≤ 2 ^ 31 - 1 - 16)
    (htop : address.toNat + dumpSize count (Width.ofSize size) = 2 ^ 32) :
    ¬ DumpOk e m address count size := by
  rintro ⟨fuel, lines, hmd, hdump⟩
  obtain ⟨j, hsize, hint, -, hall⟩ := md_run hcount hmax (Nat.le_of_eq htop)
  have hout : printed lines = _ := hall fuel _ hmd
  rw [hsize] at htop hdump
  have hmissing := mdEnd_top (e := e) (m := m) hcount hint htop
  rw [dump_length (dump_dumpLines address j), ← dump_length hdump, hout] at hmissing
  obtain ⟨-, hlt, -⟩ := lines_of_words (Width.ofSize size) j
  omega

/-- **The dump has its layout exactly if it ends below the last address**: there are as many
    lines as there are bytes for, each with its address, its words, and behind them, always
    at the same place, the characters of the same bytes. Where the dump ends with the last
    byte that there is, the characters of the last line are missing. -/
theorem md_layout_iff (e : Endian) (m : Bytes) (address : BitVec 32) (count size : Int)
    (hcount : 0 < count) (hmax : count ≤ 2 ^ 31 - 1 - 16)
    (htop : address.toNat + dumpSize count (Width.ofSize size) ≤ 2 ^ 32) :
    DumpOk e m address count size ↔
      address.toNat + dumpSize count (Width.ofSize size) < 2 ^ 32 := by
  constructor
  · intro hok
    refine Nat.lt_of_le_of_ne htop fun heq => ?_
    exact not_dumpOk_top hcount hmax heq hok
  · exact dumpOk_below hcount hmax

/-- Five bytes from 0x1000 on, in halfwords. -/
theorem md_layout_halves : DumpOk .big (fun _ => 0x41) 0x1000 5 2 :=
  (md_layout_iff .big (fun _ => 0x41) 0x1000 5 2 (by decide) (by decide) (by decide)).mpr
    (by decide)

/-- The last 16 bytes that there are. -/
theorem md_last_line :
    (0xfffffff0 : BitVec 32).toNat + dumpSize 16 (Width.ofSize 4) ≤ 2 ^ 32 ∧
      ¬ DumpOk .big (fun _ => 0x41) 0xfffffff0 16 4 :=
  ⟨by decide, not_dumpOk_top (by decide) (by decide) (by decide)⟩

end SsrlApps.MiscUtils
