/-
  Where the window size of an open slot comes from.

  Model. A scanner (`Scan`) follows the bytes that an open slot reads, without looking at
  the slot: it knows the mode, and the payload of the subnegotiation that was opened last,
  up to the SE behind it. An IAC IAC in a payload is one byte 255. The slot is read from,
  resized by TIOCSWINSZ and given attributes in any order, from its opening on.

  `handleSB` looks neither at `sb_ind` nor at whether a subnegotiation is open: at every SE
  it takes what is in `sb_buf`. `Fed` is when that is the payload that the SE closes.

  Proved:
  * `stored_step`: what is in `sb_buf` up to `sb_ind` is the open payload, less its 255s.
  * `size_by_naws`: where every SE that would change the size is `Fed`, the size is only
    changed by a complete NAWS subnegotiation, to what its payload says.
  * `size_by_stray_se`: an SE that closes nothing changes the size.
-/
import Mathlib.Data.List.GetD
import SsrlApps.Telnetd.Modes
import SsrlApps.Telnetd.Subneg

namespace SsrlApps.Telnetd

/-! ## The scanner -/

structure Scan where
  mode : Mode
  payload : Option (List UInt8)

/-- The slot was opened, and nothing read. -/
def Scan.start : Scan := ⟨.idle, none⟩

/-- The byte is read behind an IAC. -/
def Scan.Escaped (s : Scan) : Prop := s.mode = .iac ∨ s.mode = .sbEsc

instance (s : Scan) : Decidable s.Escaped := inferInstanceAs (Decidable (_ ∨ _))

/-- The payload behind a byte. -/
def Scan.collect (s : Scan) (value : UInt8) : Option (List UInt8) :=
  if s.Escaped ∧ value = iacSb then some []
  else if s.Escaped ∧ value = iacSe then none
  else if s.mode = .sb ∧ value ≠ iacEsc ∨ s.mode = .sbEsc ∧ value = iacEsc then
    s.payload.map (· ++ [value])
  else s.payload

def Scan.next (s : Scan) : SlotEvent → Scan
  | .read (.byte value) => ⟨s.mode.next value, s.collect value⟩
  | _ => s

/-- An open slot beside its scanner. -/
def scanned : Guarded (Pty × Scan) SlotEvent where
  guard _ _ := True
  step s e := (slotAct s.1 e, s.2.next e)

theorem scanned_legal (s : Pty × Scan) (es : List SlotEvent) : scanned.Legal s es := by
  induction es generalizing s with
  | nil => trivial
  | cons e es ih => exact ⟨trivial, ih _⟩

/-! ## The law -/

/-- The bytes of a payload that are stored. -/
def stored (payload : List UInt8) : List UInt8 := payload.filter (· ≠ iacEsc)

/-- The size that five bytes of a buffer carry. -/
def sizeOf5 (b : Nat → UInt8) : Nat × Nat :=
  (((b 1).toNat <<< 8) + (b 2).toNat, ((b 3).toNat <<< 8) + (b 4).toNat)

/-- The size that a payload carries. -/
def nawsSize (payload : List UInt8) : Nat × Nat := sizeOf5 fun i => (stored payload).getD i 0

def size (p : Pty) : Nat × Nat := (p.width, p.height)

/-- A read that changes the size reads the SE behind a NAWS payload that is complete, and
    the new size is given by the payload alone. -/
def ByNaws (f : List UInt8 → Nat × Nat) (s : Pty × Scan) : SlotEvent → Prop
  | .read r =>
    size (readPty s.1 r).1 ≠ size s.1 →
      r = .byte iacSe ∧ s.2.Escaped ∧ ∃ payload, s.2.payload = some payload ∧
        payload.head? = some 31 ∧ 5 ≤ payload.length ∧
        size (readPty s.1 r).1 = f payload
  | _ => True

/-- An SE that finds another size in `sb_buf` closes a subnegotiation that has filled five
    bytes of it. A payload that starts with 255 is not there from its start on. -/
def Fed (s : Pty × Scan) (e : SlotEvent) : Prop :=
  e = .read (.byte iacSe) → s.2.Escaped → sbOption s.1 = 31 → bufSize s.1 ≠ size s.1 →
    5 ≤ s.1.sbInd ∧ ∃ payload, s.2.payload = some payload ∧ payload.head? ≠ some iacEsc

/-! ## What a read does to the buffer and the size -/

variable {p : Pty} {m : Mode}

structure SameBuf (p q : Pty) : Prop where
  sbBuf : p.sbBuf = q.sbBuf
  sbInd : p.sbInd = q.sbInd
  size : size p = size q

theorem handleSB_buf (p : Pty) :
    (handleSB p).sbBuf = p.sbBuf ∧ (handleSB p).sbInd = p.sbInd ∧
      size (handleSB p) = if p.sbBuf[0] = 31 then bufSize p else size p := by
  unfold handleSB
  split
  · exact ⟨rfl, rfl, rfl⟩
  · exact ⟨rfl, rfl, rfl⟩

/-- Behind an IAC, an SB empties the buffer and an SE takes the size from it. -/
theorem readIac_buf (p : Pty) (omod : UInt32) (value : UInt8) :
    (readIac p omod value).1.sbBuf = p.sbBuf ∧
      (readIac p omod value).1.sbInd = (if value = iacSb then 0 else p.sbInd) ∧
      size (readIac p omod value).1 =
        if value = iacSe ∧ p.sbBuf[0] = 31 then bufSize p else size p := by
  unfold readIac
  by_cases hesc : value = iacEsc
  · subst hesc
    exact ⟨rfl, rfl, rfl⟩
  rw [if_neg hesc]
  by_cases hv : IsVerb value
  · rw [if_pos hv]
    rcases hv with rfl | rfl | rfl | rfl <;> exact ⟨rfl, rfl, rfl⟩
  rw [if_neg hv]
  by_cases hsb : value = iacSb
  · subst hsb
    exact ⟨rfl, rfl, rfl⟩
  rw [if_neg hsb]
  by_cases hse : value = iacSe
  · subst hse
    obtain ⟨hbuf, hind, hsize⟩ := handleSB_buf p
    rw [if_pos rfl]
    refine ⟨hbuf, hind, ?_⟩
    simp only [true_and]
    exact hsize
  · rw [if_neg hse, if_neg hsb, if_neg fun h => hse h.1]
    exact ⟨rfl, rfl, rfl⟩

/-- Behind an IAC, inside a subnegotiation or not. -/
theorem readPty_escaped (h : InMode p m) (hm : m = .iac ∨ m = .sbEsc) (value : UInt8) :
    (readPty p (.byte value)).1.sbBuf = p.sbBuf ∧
      (readPty p (.byte value)).1.sbInd = (if value = iacSb then 0 else p.sbInd) ∧
      size (readPty p (.byte value)).1 =
        if value = iacSe ∧ p.sbBuf[0] = 31 then bufSize p else size p := by
  rcases hm with rfl | rfl
  · rw [readPty_iac p h]
    exact readIac_buf { p with iacMode := 0 } _ value
  · rw [readPty_sbEsc p h]
    exact readIac_buf { p with iacMode := 0 } _ value

theorem readPty_sbIac_same (h : InMode p .sb) : SameBuf (readPty p (.byte iacEsc)).1 p := by
  rw [readPty_sbIac p h]
  exact ⟨rfl, rfl, rfl⟩

/-- Outside of subnegotiations and commands the buffer and the size are left alone. -/
theorem readPty_elsewhere (h : InMode p m) (hm : ¬(m = .iac ∨ m = .sbEsc)) (hsb : m ≠ .sb)
    (value : UInt8) : SameBuf (readPty p (.byte value)).1 p := by
  have hverb : ∀ {verb : UInt8}, IsVerb verb → p.iacMode = verb.toUInt32 →
      SameBuf (readPty p (.byte value)).1 p := by
    intro verb hv hmode
    obtain ⟨sys, hread⟩ := readPty_verb p hv hmode value
    rw [hread]
    exact ⟨rfl, rfl, rfl⟩
  cases m with
  | idle =>
    rw [readPty_idle p h]
    unfold readData
    split <;> exact ⟨rfl, rfl, rfl⟩
  | iac => exact absurd (Or.inl rfl) hm
  | sb => exact absurd rfl hsb
  | sbEsc => exact absurd (Or.inr rfl) hm
  | will => exact hverb (Or.inr (Or.inr (Or.inr rfl))) h
  | wont => exact hverb (Or.inr (Or.inr (Or.inl rfl))) h
  | doing => exact hverb (Or.inr (Or.inl rfl)) h
  | dont => exact hverb (Or.inl rfl) h

/-! ## What is in the buffer -/

/-- `sb_buf` holds `bs`, as far as there is room. -/
structure InBuf (p : Pty) (bs : List UInt8) : Prop where
  sbInd : p.sbInd = min sbMax bs.length
  sbBuf : ∀ i (hi : i < sbMax), i < bs.length → p.sbBuf[i] = bs.getD i 0

theorem inBuf_same {q : Pty} {bs : List UInt8} (h : SameBuf p q) (hq : InBuf q bs) :
    InBuf p bs := by
  refine ⟨h.sbInd.trans hq.sbInd, ?_⟩
  rw [h.sbBuf]
  exact hq.sbBuf

theorem inBuf_store {bs : List UInt8} (h : InBuf p bs) (b : UInt8) :
    InBuf (sbStore p b) (bs ++ [b]) := by
  have hind := h.sbInd
  have hlen : (bs ++ [b]).length = bs.length + 1 := List.length_append
  unfold sbStore
  split
  · next hroom =>
    refine ⟨?_, ?_⟩
    · show p.sbInd + 1 = _
      omega
    · intro i hi hlt
      show (p.sbBuf.set p.sbInd b hroom)[i] = _
      rw [Vector.getElem_set]
      split
      · next heq =>
        subst heq
        have hend : p.sbInd = bs.length := by omega
        simp [hend, List.getD_eq_getElem?_getD]
      · next hne =>
        have hbs : i < bs.length := by omega
        rw [h.sbBuf i hi hbs, List.getD_append _ _ _ _ hbs]
  · next hfull =>
    refine ⟨?_, ?_⟩
    · show p.sbInd = _
      omega
    · intro i hi hlt
      have hbs : i < bs.length := by omega
      rw [h.sbBuf i hi hbs, List.getD_append _ _ _ _ hbs]

theorem stored_append (payload : List UInt8) (b : UInt8) :
    stored (payload ++ [b]) = if b = iacEsc then stored payload else stored payload ++ [b] := by
  unfold stored
  rw [List.filter_append]
  split
  · next h => simp [h]
  · next h => simp [h]

/-- What the scanner knows of the slot. -/
structure Follows (s : Pty × Scan) : Prop where
  mode : InMode s.1 s.2.mode
  holds : ∀ payload, s.2.payload = some payload → InBuf s.1 (stored payload)

theorem follows_start (pty : Pty) (tty : Tty) : Follows (openPty pty tty, Scan.start) :=
  ⟨rfl, fun _ h => nomatch h⟩

/-- The buffer behind a byte holds the payload behind it. -/
theorem stored_step {s : Pty × Scan} (h : Follows s) (value : UInt8) (payload : List UInt8)
    (hp : s.2.collect value = some payload) :
    InBuf (readPty s.1 (.byte value)).1 (stored payload) := by
  unfold Scan.collect at hp
  by_cases hesc : s.2.Escaped
  · obtain ⟨hbuf, hind, -⟩ := readPty_escaped h.mode hesc value
    by_cases hsb : value = iacSb
    · rw [if_pos ⟨hesc, hsb⟩] at hp
      cases hp
      rw [if_pos hsb] at hind
      exact ⟨hind, fun i _ hi => absurd hi (Nat.not_lt_zero i)⟩
    rw [if_neg fun h => hsb h.2] at hp
    rw [if_neg hsb] at hind
    by_cases hse : value = iacSe
    · rw [if_pos ⟨hesc, hse⟩] at hp
      cases hp
    rw [if_neg fun h => hse h.2] at hp
    have hkeep : ∀ bs, InBuf s.1 bs → InBuf (readPty s.1 (.byte value)).1 bs :=
      fun bs hbs => ⟨hind.trans hbs.sbInd, by rw [hbuf]; exact hbs.sbBuf⟩
    split at hp
    · next hdata =>
      -- a doubled IAC: it belongs to the payload, but it is not stored
      obtain ⟨before, hbefore, rfl⟩ := Option.map_eq_some_iff.mp hp
      have hiac : value = iacEsc := by
        rcases hdata with ⟨hsb, -⟩ | ⟨-, hiac⟩
        · rcases hesc with he | he <;> rw [he] at hsb <;> cases hsb
        · exact hiac
      rw [stored_append, if_pos hiac]
      exact hkeep _ (h.holds before hbefore)
    · exact hkeep _ (h.holds payload hp)
  · rw [if_neg fun h => hesc h.1, if_neg fun h => hesc h.1] at hp
    by_cases hsb : s.2.mode = .sb
    · have hmode : InMode s.1 .sb := hsb ▸ h.mode
      by_cases hiac : value = iacEsc
      · subst hiac
        rw [if_neg fun h => h.elim (fun h => h.2 rfl) fun h => hesc (Or.inr h.1)] at hp
        exact inBuf_same (readPty_sbIac_same hmode) (h.holds payload hp)
      · rw [if_pos (Or.inl ⟨hsb, hiac⟩)] at hp
        obtain ⟨before, hbefore, rfl⟩ := Option.map_eq_some_iff.mp hp
        rw [stored_append, if_neg hiac, readPty_sbByte s.1 hmode hiac]
        exact inBuf_store (h.holds before hbefore) value
    · rw [if_neg fun h => h.elim (fun h => hsb h.1) fun h => hesc (Or.inr h.1)] at hp
      exact inBuf_same (readPty_elsewhere h.mode hesc hsb value) (h.holds payload hp)

theorem follows_step {s : Pty × Scan} (h : Follows s) (e : SlotEvent) :
    Follows (scanned.step s e) := by
  cases e with
  | read r =>
    cases r with
    | timeout => exact h
    | eof =>
      have hsame : SameBuf (readPty s.1 .eof).1 s.1 := by
        unfold readPty
        cases s.1.ttyp <;> exact ⟨rfl, rfl, rfl⟩
      have hmode : (readPty s.1 .eof).1.iacMode = s.1.iacMode := by
        unfold readPty
        cases s.1.ttyp <;> rfl
      exact ⟨hmode.trans h.mode, fun payload hp => inBuf_same hsame (h.holds payload hp)⟩
    | byte value => exact ⟨(readPty_mode h.mode value).1, stored_step h value⟩
  | resize wp =>
    exact ⟨h.mode, fun payload hp => ⟨(h.holds payload hp).1, (h.holds payload hp).2⟩⟩
  | attributes cflag =>
    exact ⟨h.mode, fun payload hp => ⟨(h.holds payload hp).1, (h.holds payload hp).2⟩⟩

/-! ## The size -/

theorem readPty_eof_size (p : Pty) : size (readPty p .eof).1 = size p := by
  unfold readPty
  cases p.ttyp <;> rfl

/-- Only an SE behind an IAC changes the size, to what is in the buffer. -/
theorem size_change (h : InMode p m) {value : UInt8}
    (hne : size (readPty p (.byte value)).1 ≠ size p) :
    (m = .iac ∨ m = .sbEsc) ∧ value = iacSe ∧ p.sbBuf[0] = 31 ∧
      size (readPty p (.byte value)).1 = bufSize p := by
  by_cases hesc : m = .iac ∨ m = .sbEsc
  · obtain ⟨-, -, hsize⟩ := readPty_escaped h hesc value
    split at hsize
    · next hse => exact ⟨hesc, hse.1, hse.2, hsize⟩
    · exact absurd hsize hne
  · refine absurd ?_ hne
    by_cases hsb : m = .sb
    · subst hsb
      by_cases hiac : value = iacEsc
      · subst hiac
        exact (readPty_sbIac_same h).size
      · rw [readPty_sbByte p h hiac]
        show size (sbStore p value) = size p
        unfold sbStore
        split <;> rfl
    · exact (readPty_elsewhere h hesc hsb value).size

/-- Five bytes of a payload in the buffer are the size that the payload carries. -/
theorem bufSize_eq {payload : List UInt8} (h : InBuf p (stored payload)) (h5 : 5 ≤ p.sbInd) :
    bufSize p = nawsSize payload := by
  have hind := h.sbInd
  have hlen : 5 ≤ (stored payload).length := by
    have hle := Nat.min_le_right sbMax (stored payload).length
    omega
  have h1 := h.sbBuf 1 (by decide) (by omega)
  have h2 := h.sbBuf 2 (by decide) (by omega)
  have h3 := h.sbBuf 3 (by decide) (by omega)
  have h4 := h.sbBuf 4 (by decide) (by omega)
  unfold bufSize nawsSize sizeOf5
  rw [h1, h2, h3, h4]

theorem stored_length_le (payload : List UInt8) : (stored payload).length ≤ payload.length :=
  List.length_filter_le _ _

/-- A payload that starts with a byte other than 255 starts with the first byte stored. -/
theorem head_of_buf {payload : List UInt8} (h : InBuf p (stored payload)) (h5 : 5 ≤ p.sbInd)
    (hesc : payload.head? ≠ some iacEsc) : payload.head? = some p.sbBuf[0] := by
  have hind := h.sbInd
  have hlen : 0 < (stored payload).length := by
    have hle := Nat.min_le_right sbMax (stored payload).length
    omega
  rw [h.sbBuf 0 (by decide) hlen]
  cases payload with
  | nil => exact absurd hlen (Nat.lt_irrefl 0)
  | cons b bs =>
    have hb : b ≠ iacEsc := fun hb => hesc (congrArg some hb)
    have hstored : stored (b :: bs) = b :: stored bs :=
      List.filter_cons_of_pos (decide_eq_true hb)
    rw [hstored]
    rfl

theorem byNaws_of_fed {s : Pty × Scan} (h : Follows s) {e : SlotEvent} (hfed : Fed s e) :
    ByNaws nawsSize s e := by
  cases e with
  | resize wp => trivial
  | attributes cflag => trivial
  | read r =>
    intro hne
    cases r with
    | timeout => exact absurd rfl hne
    | eof => exact absurd (readPty_eof_size s.1) hne
    | byte value =>
      obtain ⟨hesc, hse, h31, hsize⟩ := size_change h.mode hne
      subst hse
      rw [hsize] at hne
      obtain ⟨h5, payload, hpayload, hstart⟩ := hfed rfl hesc h31 hne
      have hbuf := h.holds payload hpayload
      have hhead : payload.head? = some 31 := by
        rw [head_of_buf hbuf h5 hstart, h31]
      have hlong : 5 ≤ payload.length := by
        have hind := hbuf.sbInd
        have hle := Nat.min_le_right sbMax (stored payload).length
        have hstored := stored_length_le payload
        omega
      exact ⟨rfl, hesc, payload, hpayload, hhead, hlong, hsize.trans (bufSize_eq hbuf h5)⟩

/-- Where every SE that would change the size is fed, only complete NAWS subnegotiations
    change it, to what their payload says. -/
theorem size_by_naws (pty : Pty) (tty : Tty) {es : List SlotEvent}
    (hfed : scanned.Always Fed (openPty pty tty, Scan.start) es) :
    scanned.Always (ByNaws nawsSize) (openPty pty tty, Scan.start) es := by
  refine (Guarded.always_of (I := Follows) ?_ (follows_start pty tty) (scanned_legal _ es) hfed).1
  intro s e hs _ he
  exact ⟨byNaws_of_fed hs he, follows_step hs e⟩

/-- Reads, one for each byte. -/
def reads (bs : List UInt8) : List SlotEvent := (bytes bs).map .read

/-- The peer says 80 x 24, an ioctl 132 x 50. -/
def resized : List SlotEvent := reads (subneg (naws 80 24)) ++ [.resize ⟨50, 132⟩]

theorem resized_fed : scanned.Always Fed (openPty zeroPty ⟨0, 0, 4⟩, Scan.start) resized := by
  refine ⟨?_, ?_, ?_, ?_, ?_, ?_, ?_, ?_, ?_, ?_, trivial⟩
  case refine_9 => exact fun _ _ _ _ => ⟨by decide, _, rfl, by decide⟩
  all_goals exact fun h => nomatch h

theorem size_by_naws_resized :
    scanned.Always (ByNaws nawsSize) (openPty zeroPty ⟨0, 0, 4⟩, Scan.start) resized :=
  size_by_naws zeroPty ⟨0, 0, 4⟩ resized_fed

/-- Behind that, an IAC SE that closes nothing makes the window 80 x 24 again. -/
theorem size_by_stray_se :
    ¬∃ f : List UInt8 → Nat × Nat, ∀ pty tty es,
      scanned.Always (ByNaws f) (openPty pty tty, Scan.start) es := by
  rintro ⟨f, hf⟩
  have hrun := hf zeroPty ⟨0, 0, 4⟩ (resized ++ reads [iacEsc] ++ reads [iacSe])
  have hlast := (Guarded.always_append.mp hrun).2.1
  obtain ⟨-, -, payload, hpayload, -⟩ := hlast (by decide)
  exact nomatch hpayload

/-- A payload without 255s says what the peer put into it. -/
theorem nawsSize_naws {width height : Nat} (hw : width < 65536) (hh : height < 65536)
    (hiac : iacEsc ∉ naws width height) : nawsSize (naws width height) = (width, height) := by
  have hall : stored (naws width height) = naws width height := by
    refine List.filter_eq_self.mpr fun b hb => ?_
    refine decide_eq_true fun h => ?_
    exact hiac (h ▸ hb)
  unfold nawsSize
  rw [hall]
  show ((width / 256).toUInt8.toNat <<< 8 + width.toUInt8.toNat,
    (height / 256).toUInt8.toNat <<< 8 + height.toUInt8.toNat) = (width, height)
  rw [nawsWord width hw, nawsWord height hh]

end SsrlApps.Telnetd
