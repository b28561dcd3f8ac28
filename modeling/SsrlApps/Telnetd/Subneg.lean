/-
  Telnet subnegotiations: IAC SB, a payload in which every 255 is doubled, IAC SE.

  `SubnegAbsorbed` is what the decoder owes such a stream: no character reaches the
  terminal, `last_cr` is left alone, the mode is 0 again, and a NAWS payload sets the
  window to exactly the size it carries.

  The doubled IAC inside a payload shares its branch with plain data: `read_pty` restores
  the subnegotiation mode there, but it still returns the byte, and does not store it.
  `read_subneg` says what the terminal gets for any payload (its 255 bytes), and
  `subnegAbsorbed_iff` that this is the only thing that goes wrong: the stream is absorbed
  exactly when the payload has no byte 255.
-/
import SsrlApps.Telnetd.Nvt

namespace SsrlApps.Telnetd

open Transducer

/-- A payload byte on the wire. -/
def escapeByte (b : UInt8) : List UInt8 := if b = iacEsc then [iacEsc, iacEsc] else [b]

/-- A payload on the wire. -/
def escape (payload : List UInt8) : List UInt8 := payload.flatMap escapeByte

/-- A whole subnegotiation on the wire. -/
def subneg (payload : List UInt8) : List UInt8 :=
  [iacEsc, iacSb] ++ escape payload ++ [iacEsc, iacSe]

/-- The NAWS payload: option 31, then width and height, high byte first. -/
def naws (width height : Nat) : List UInt8 :=
  [31, (width / 256).toUInt8, width.toUInt8, (height / 256).toUInt8, height.toUInt8]

/-- The return values of `read_pty`. -/
def returns (pty : Pty) (rs : List ReadResult) : List Int :=
  (emits readPty pty rs).map Reply.ret

def SubnegAbsorbed (pty : Pty) (payload : List UInt8) : Prop :=
  let rs := bytes (subneg payload)
  (∀ r ∈ returns pty rs, r < 0) ∧
  (after readPty pty rs).lastCr = pty.lastCr ∧
  (after readPty pty rs).iacMode = 0 ∧
  ∀ width height, width < 65536 → height < 65536 → payload = naws width height →
    (after readPty pty rs).width = width ∧ (after readPty pty rs).height = height

/-! ## What reaches the terminal -/

theorem returns_neg_iff (pty : Pty) (rs : List ReadResult) :
    (∀ r ∈ returns pty rs, r < 0) ↔ delivered pty rs = [] := by
  unfold returns delivered
  rw [List.filterMap_eq_nil_iff]
  constructor
  · intro h r hr
    have hneg := h r.ret (List.mem_map_of_mem hr)
    exact if_neg (by omega)
  · intro h r hr
    obtain ⟨reply, hmem, rfl⟩ := List.mem_map.mp hr
    have hvis := h reply hmem
    by_cases hpos : 0 ≤ reply.ret
    · rw [Reply.visible, if_pos hpos] at hvis
      cases hvis
    · omega

theorem delivered_append (pty : Pty) (rs qs : List ReadResult) :
    delivered pty (rs ++ qs) = delivered pty rs ++ delivered (after readPty pty rs) qs := by
  unfold delivered
  rw [emits_append, List.filterMap_append]

/-- Inside a subnegotiation, with a given `last_cr`. -/
def InSb (lastCr : Bool) (pty : Pty) : Prop :=
  pty.iacMode = iacSb.toUInt32 ∧ pty.lastCr = lastCr

/-- `sb_buf[sb_ind++] = value`, as far as there is room. -/
def sbStore (pty : Pty) (value : UInt8) : Pty :=
  if h : pty.sbInd < sbMax then
    { pty with sbBuf := pty.sbBuf.set pty.sbInd value h, sbInd := pty.sbInd + 1 }
  else pty

theorem sbStore_mode (pty : Pty) (value : UInt8) : (sbStore pty value).iacMode = pty.iacMode := by
  unfold sbStore
  split <;> rfl

theorem sbStore_lastCr (pty : Pty) (value : UInt8) : (sbStore pty value).lastCr = pty.lastCr := by
  unfold sbStore
  split <;> rfl

theorem readPty_sbByte (pty : Pty) (h : pty.iacMode = iacSb.toUInt32) {b : UInt8}
    (hb : b ≠ iacEsc) : readPty pty (.byte b) = (sbStore pty b, ⟨-1, []⟩) := by
  rw [readPty_sb pty h, readSb, if_neg hb, sbStore]
  have hpty : { pty with iacMode := iacSb.toUInt32 } = pty := by rw [← h]
  dsimp only
  split
  · rw [← h]
  · rw [hpty]

theorem readPty_sbIac (pty : Pty) (h : pty.iacMode = iacSb.toUInt32) :
    readPty pty (.byte iacEsc) = ({ pty with iacMode := sbEscMode }, ⟨-1, []⟩) := by
  rw [readPty_sb pty h]
  rfl

/-- The second IAC of a doubled one: back to the subnegotiation, but 255 is returned. -/
theorem readPty_sbIacIac (pty : Pty) (h : pty.iacMode = sbEscMode) :
    readPty pty (.byte iacEsc) =
      ({ pty with iacMode := iacSb.toUInt32 }, ⟨iacEsc.toNat, []⟩) := by
  rw [readPty_sbEsc pty h, readIac, if_pos rfl, sbEscMode_shift]

theorem readPty_sbIacSe (pty : Pty) (h : pty.iacMode = sbEscMode) :
    readPty pty (.byte iacSe) = (handleSB { pty with iacMode := 0 }, ⟨-101, []⟩) := by
  rw [readPty_sbEsc pty h]
  rfl

/-- One payload byte keeps the subnegotiation going; the terminal gets it if it is 255. -/
theorem readEscaped (lastCr : Bool) (pty : Pty) (b : UInt8) (hp : InSb lastCr pty) :
    InSb lastCr (after readPty pty (bytes (escapeByte b))) ∧
      (emits readPty pty (bytes (escapeByte b))).filterMap Reply.visible =
        chars (if b = iacEsc then [iacEsc] else []) := by
  obtain ⟨hm, hc⟩ := hp
  by_cases hb : b = iacEsc
  · have h2 := readPty_sbIacIac { pty with iacMode := sbEscMode } rfl
    simp only [escapeByte, if_pos hb, bytes, List.map_cons, List.map_nil, after_cons, after_nil,
      emits_cons, emits_nil, readPty_sbIac pty hm, h2]
    exact ⟨⟨rfl, hc⟩, rfl⟩
  · simp only [escapeByte, if_neg hb, bytes, List.map_cons, List.map_nil, after_cons, after_nil,
      emits_cons, emits_nil, readPty_sbByte pty hm hb]
    refine ⟨⟨?_, ?_⟩, rfl⟩
    · rw [sbStore_mode, hm]
    · rw [sbStore_lastCr, hc]

theorem bytes_escape (payload : List UInt8) :
    bytes (escape payload) = payload.flatMap fun b => bytes (escapeByte b) :=
  List.map_flatMap

theorem escaped_flatMap (payload : List UInt8) :
    payload.flatMap (fun b => chars (if b = iacEsc then [iacEsc] else [])) =
      chars (payload.filter (· = iacEsc)) := by
  induction payload with
  | nil => rfl
  | cons b bs ih =>
    rw [List.flatMap_cons, ih]
    by_cases hb : b = iacEsc
    · rw [if_pos hb, List.filter_cons_of_pos (by simpa using hb), hb]; rfl
    · rw [if_neg hb, List.filter_cons_of_neg (by simpa using hb)]; rfl

/-- The slot behind IAC SB. -/
theorem after_open (pty : Pty) (hm : pty.iacMode = 0) :
    after readPty pty (bytes [iacEsc, iacSb]) =
      { pty with iacMode := iacSb.toUInt32, sbInd := 0 } ∧
    delivered pty (bytes [iacEsc, iacSb]) = [] := by
  have h2 := readPty_iac { pty with iacMode := iacEsc.toUInt32 } rfl iacSb
  simp only [bytes, delivered, List.map_cons, List.map_nil, after_cons, after_nil, emits_cons,
    emits_nil, readPty_iacEsc pty hm, h2]
  exact ⟨rfl, rfl⟩

/-- The slot behind the closing IAC SE. -/
theorem after_close (pty : Pty) (hm : pty.iacMode = iacSb.toUInt32) :
    after readPty pty (bytes [iacEsc, iacSe]) = handleSB { pty with iacMode := 0 } ∧
    delivered pty (bytes [iacEsc, iacSe]) = [] := by
  have h2 := readPty_sbIacSe { pty with iacMode := sbEscMode } rfl
  simp only [bytes, delivered, List.map_cons, List.map_nil, after_cons, after_nil, emits_cons,
    emits_nil, readPty_sbIac pty hm, h2]
  exact ⟨trivial, rfl⟩

theorem bytes_append (as bs : List UInt8) : bytes (as ++ bs) = bytes as ++ bytes bs :=
  List.map_append

/-- The whole stream, for any payload: what is delivered, and the state it ends in. -/
theorem read_subneg (pty : Pty) (hm : pty.iacMode = 0) (payload : List UInt8) :
    let opened := { pty with iacMode := iacSb.toUInt32, sbInd := 0 }
    let body := after readPty opened (bytes (escape payload))
    InSb pty.lastCr body ∧
      after readPty pty (bytes (subneg payload)) = handleSB { body with iacMode := 0 } ∧
      delivered pty (bytes (subneg payload)) = chars (payload.filter (· = iacEsc)) := by
  intro opened body
  obtain ⟨hopen, hopen'⟩ := after_open pty hm
  have hin : InSb pty.lastCr opened := ⟨rfl, rfl⟩
  obtain ⟨hbody, hbody'⟩ := emits_tokens (readEscaped pty.lastCr) hin payload
  rw [← bytes_escape] at hbody hbody'
  obtain ⟨hclose, hclose'⟩ := after_close body hbody.1
  refine ⟨hbody, ?_, ?_⟩
  · rw [subneg, bytes_append, bytes_append, after_append, after_append, hopen]
    exact hclose
  · have hdel : delivered opened (bytes (escape payload)) =
        chars (payload.filter (· = iacEsc)) := hbody'.trans (escaped_flatMap payload)
    rw [subneg, bytes_append, bytes_append, delivered_append, delivered_append, after_append,
      hopen, hopen', hdel, hclose', List.nil_append, List.append_nil]

/-! ## Collecting the payload -/

/-- A payload without 255 is stored byte for byte, up to `SB_MAX`. -/
theorem after_payload (pty : Pty) (hm : pty.iacMode = iacSb.toUInt32) (payload : List UInt8)
    (hesc : iacEsc ∉ payload) :
    after readPty pty (bytes (escape payload)) = payload.foldl sbStore pty := by
  induction payload generalizing pty with
  | nil => rfl
  | cons b bs ih =>
    rw [List.mem_cons, not_or] at hesc
    have hb : b ≠ iacEsc := fun h => hesc.1 h.symm
    have hcons : escape (b :: bs) = b :: escape bs := by
      rw [escape, List.flatMap_cons, escapeByte, if_neg hb]; rfl
    rw [hcons, bytes, List.map_cons, after_cons, readPty_sbByte pty hm hb, List.foldl_cons]
    exact ih _ (by rw [sbStore_mode, hm]) hesc.2

theorem nawsWord (n : Nat) (hn : n < 65536) :
    ((n / 256).toUInt8.toNat <<< 8) + n.toUInt8.toNat = n := by
  have h1 : (n / 256).toUInt8.toNat = n / 256 := by
    rw [Nat.toUInt8, UInt8.toNat_ofNat']
    omega
  have h2 : n.toUInt8.toNat = n % 256 := by
    rw [Nat.toUInt8, UInt8.toNat_ofNat']
  rw [h1, h2, Nat.shiftLeft_eq]
  omega

/-- Storing bytes from `sb_ind` on, when all of them fit. -/
theorem foldl_sbStore (payload : List UInt8) (pty : Pty)
    (hfit : pty.sbInd + payload.length ≤ sbMax) (j : Nat) (hj : j < sbMax) :
    (payload.foldl sbStore pty).sbBuf[j] =
      if h : pty.sbInd ≤ j ∧ j < pty.sbInd + payload.length
      then payload[j - pty.sbInd] else pty.sbBuf[j] := by
  induction payload generalizing pty with
  | nil =>
    rw [dif_neg (by simp only [List.length_nil]; omega)]
    rfl
  | cons b bs ih =>
    simp only [List.length_cons] at hfit
    have hlt : pty.sbInd < sbMax := by omega
    have hstore : sbStore pty b =
        { pty with sbBuf := pty.sbBuf.set pty.sbInd b hlt, sbInd := pty.sbInd + 1 } :=
      dif_pos hlt
    rw [List.foldl_cons, hstore, ih _ (by dsimp only; omega)]
    dsimp only
    rcases Nat.lt_trichotomy j pty.sbInd with h | h | h
    · rw [dif_neg (by omega), dif_neg (by omega), Vector.getElem_set_ne _ _ (by omega)]
    · subst h
      rw [dif_neg (by omega), dif_pos (by simp only [List.length_cons]; omega),
        Vector.getElem_set_self]
      simp
    · by_cases hin : j < pty.sbInd + (bs.length + 1)
      · have hsub : j - pty.sbInd = j - (pty.sbInd + 1) + 1 := by omega
        rw [dif_pos (by omega), dif_pos (by simp only [List.length_cons]; omega)]
        simp only [hsub, List.getElem_cons_succ]
      · rw [dif_neg (by omega), dif_neg (by simp only [List.length_cons]; omega),
          Vector.getElem_set_ne _ _ (by omega)]

/-- Collecting a NAWS payload from an empty buffer and closing it sets the window size. -/
theorem handleSB_naws (pty : Pty) (hind : pty.sbInd = 0) (width height : Nat)
    (hw : width < 65536) (hh : height < 65536) (mode : UInt32) :
    let body := (naws width height).foldl sbStore pty
    (handleSB { body with iacMode := mode }).width = width ∧
      (handleSB { body with iacMode := mode }).height = height := by
  intro body
  have hfit : pty.sbInd + (naws width height).length ≤ sbMax := by
    rw [hind]
    show 0 + 5 ≤ 16
    decide
  have hbuf : ∀ j, (hj : j < (naws width height).length) → (hj' : j < sbMax) →
      body.sbBuf[j] = (naws width height)[j] := by
    intro j hj hj'
    have h := foldl_sbStore (naws width height) pty hfit j hj'
    simpa only [hind, Nat.zero_add, Nat.zero_le, hj, and_self, dite_true, Nat.sub_zero] using h
  have hnaws : handleSB { body with iacMode := mode } =
      { body with
        iacMode := mode
        width := ((width / 256).toUInt8.toNat <<< 8) + width.toUInt8.toNat
        height := ((height / 256).toUInt8.toNat <<< 8) + height.toUInt8.toNat } := by
    have h0 : body.sbBuf[0] = 31 := hbuf 0 (by simp [naws]) (by decide)
    have h1 : body.sbBuf[1] = (width / 256).toUInt8 := hbuf 1 (by simp [naws]) (by decide)
    have h2 : body.sbBuf[2] = width.toUInt8 := hbuf 2 (by simp [naws]) (by decide)
    have h3 : body.sbBuf[3] = (height / 256).toUInt8 := hbuf 3 (by simp [naws]) (by decide)
    have h4 : body.sbBuf[4] = height.toUInt8 := hbuf 4 (by simp [naws]) (by decide)
    rw [handleSB]
    dsimp only
    rw [if_pos h0, h1, h2, h3, h4]
  rw [hnaws]
  exact ⟨nawsWord width hw, nawsWord height hh⟩

theorem handleSB_iacMode (pty : Pty) : (handleSB pty).iacMode = pty.iacMode := by
  unfold handleSB
  split <;> rfl

theorem handleSB_lastCr (pty : Pty) : (handleSB pty).lastCr = pty.lastCr := by
  unfold handleSB
  split <;> rfl

/-! ## When a subnegotiation is absorbed -/

/-- **Subnegotiations.** From mode 0, the stream of a payload is absorbed (and its window
    size decoded) exactly when the payload has no byte 255. -/
theorem subnegAbsorbed_iff (pty : Pty) (hm : pty.iacMode = 0) (payload : List UInt8) :
    SubnegAbsorbed pty payload ↔ iacEsc ∉ payload := by
  obtain ⟨⟨hmode, hcr⟩, hafter, hdel⟩ := read_subneg pty hm payload
  unfold SubnegAbsorbed
  dsimp only
  rw [returns_neg_iff, hdel, hafter, handleSB_iacMode, handleSB_lastCr]
  constructor
  · rintro ⟨hnone, -⟩ hmem
    have hin : iacEsc ∈ payload.filter (· = iacEsc) := by simpa using hmem
    rw [chars, List.map_eq_nil_iff] at hnone
    rw [hnone] at hin
    cases hin
  · intro hesc
    have hnone : payload.filter (· = iacEsc) = [] := by
      rw [List.filter_eq_nil_iff]
      intro b hb h
      exact hesc (of_decide_eq_true h ▸ hb)
    refine ⟨by rw [hnone]; rfl, hcr, rfl, ?_⟩
    intro width height hw hh hpay
    rw [after_payload { pty with iacMode := iacSb.toUInt32, sbInd := 0 } rfl payload hesc, hpay]
    exact handleSB_naws _ rfl width height hw hh 0

theorem subnegAbsorbed_iff_80x24 :
    SubnegAbsorbed zeroPty (naws 80 24) ↔ iacEsc ∉ naws 80 24 :=
  subnegAbsorbed_iff zeroPty rfl (naws 80 24)

/-- A peer whose window is 255 columns wide: a character 255 reaches the terminal. -/
theorem subneg_width255 :
    ¬ ∀ (pty : Pty) (payload : List UInt8), pty.iacMode = 0 → SubnegAbsorbed pty payload := by
  intro h
  have hneg := (h zeroPty (naws 255 24) rfl).1 255 (by decide)
  exact absurd hneg (by decide)

end SsrlApps.Telnetd
