/-
  `read_pty` undoes the NVT encoding of RFC 854's network virtual terminal.

  A stream is a list of `Token`s: plain bytes, CR NUL, CR LF, a doubled IAC, a one-byte
  command, a negotiation. The side conditions of the grammar (which byte may be plain
  data, which may be a command) are fields of the token, so an ill-formed token cannot be
  written. `Token.encode` is what the peer sends, `Token.meaning` what the terminal gets.

  Proved:
  * `readToken`: from mode 0 with no CR pending, one token delivers its meaning and leads
    back there. This is the only place where the cases of the decoder are looked at.
  * `delivered_tokens`: any stream, with any number of read timeouts anywhere in it.
  * `meaning_nvtEncode`: the encoder of the sending side is inverted by `meaning`.
  * `readPty_nvt`: the two together, with silent commands anywhere between the tokens.
-/
import SsrlApps.Lib.Machine
import SsrlApps.Telnetd.Pty

namespace SsrlApps.Telnetd

open Transducer

/-- A command byte that stands alone behind an IAC. -/
def IsCommand (c : UInt8) : Prop :=
  c ≠ iacEsc ∧ c ≠ iacSb ∧ c ≠ iacSe ∧ ¬ IsVerb c

instance : DecidablePred IsCommand := fun _ => inferInstanceAs (Decidable (_ ∧ _))

inductive Token where
  | data (b : UInt8) (h : b ≠ cr ∧ b ≠ iacEsc)
  | crNul
  | crLf
  | iacIac
  | command (c : UInt8) (h : IsCommand c)
  | negotiate (verb : UInt8) (h : IsVerb verb) (option : UInt8)

/-- The bytes on the wire. -/
def Token.encode : Token → List UInt8
  | .data b _ => [b]
  | .crNul => [cr, 0]
  | .crLf => [cr, lf]
  | .iacIac => [iacEsc, iacEsc]
  | .command c _ => [iacEsc, c]
  | .negotiate verb _ option => [iacEsc, verb, option]

/-- The characters the terminal gets: EL is Ctrl-C, EC is backspace. -/
def Token.meaning : Token → List UInt8
  | .data b _ => [b]
  | .crNul => [cr]
  | .crLf => [cr, lf]
  | .iacIac => [iacEsc]
  | .command c _ => if c = iacEl then [3] else if c = iacEc then [8] else []
  | .negotiate _ _ _ => []

/-- The return values that reach the terminal: the non-negative ones. -/
def Reply.visible (r : Reply) : Option Int := if 0 ≤ r.ret then some r.ret else none

/-- The non-negative return values of `read_pty` on the reads `rs`, in order. -/
def delivered (pty : Pty) (rs : List ReadResult) : List Int :=
  (emits readPty pty rs).filterMap Reply.visible

def chars (bs : List UInt8) : List Int := bs.map fun b => (b.toNat : Int)

def bytes (bs : List UInt8) : List ReadResult := bs.map .byte

/-- Mode 0 with no CR pending. -/
def AtRest (pty : Pty) : Prop := pty.iacMode = 0 ∧ pty.lastCr = false

/-! ## One token -/

theorem visible_byte (b : UInt8) (sys : List SysCall) :
    Reply.visible ⟨b.toNat, sys⟩ = some (b.toNat : Int) :=
  if_pos (Int.natCast_nonneg _)

theorem readData_ne_esc {pty : Pty} {b : UInt8} (hb : b ≠ iacEsc) :
    readData pty b = ({ pty with lastCr := b == cr },
      ⟨if b = 0 ∧ pty.lastCr = true then -1 else b.toNat, []⟩) :=
  if_neg hb

/-- An IAC outside a subnegotiation is absorbed, whatever comes behind it. -/
theorem readPty_iacEsc (pty : Pty) (h : pty.iacMode = 0) :
    readPty pty (.byte iacEsc) = ({ pty with iacMode := iacEsc.toUInt32 }, ⟨-1, []⟩) := by
  rw [readPty_idle pty h]
  rfl

theorem readIac_command {pty : Pty} {omod : UInt32} {c : UInt8} (hc : IsCommand c) :
    readIac pty omod c = (pty, iacCommand pty c) := by
  obtain ⟨h1, h2, h3, h4⟩ := hc
  rw [readIac, if_neg h1, if_neg h4, if_neg h2, if_neg h3]

theorem visible_iacCommand (pty : Pty) (c : UInt8) :
    (iacCommand pty c).visible =
      if c = iacEl then some 3 else if c = iacEc then some 8 else none := by
  unfold iacCommand
  by_cases hga : c = iacGa
  · subst hga; rfl
  by_cases hel : c = iacEl
  · subst hel; rfl
  by_cases hec : c = iacEc
  · subst hec; rfl
  simp only [if_neg hga, if_neg hel, if_neg hec]
  repeat' split
  all_goals rfl

/-- A plain byte in mode 0, with the two cases of a pending CR. -/
theorem readPty_plain (pty : Pty) (h : pty.iacMode = 0) {b : UInt8} (hb : b ≠ iacEsc) :
    readPty pty (.byte b) = ({ pty with iacMode := 0, lastCr := b == cr },
      ⟨if b = 0 ∧ pty.lastCr = true then -1 else b.toNat, []⟩) := by
  rw [readPty_idle pty h, readData_ne_esc hb]

/-- One token, from rest: it delivers its meaning and the decoder is at rest again. -/
theorem readToken (pty : Pty) (t : Token) (hp : AtRest pty) :
    AtRest (after readPty pty (bytes t.encode)) ∧
      delivered pty (bytes t.encode) = chars t.meaning := by
  have hm := hp.1
  cases t with
  | data b hb =>
    have hne : (b == cr) = false := by simpa using hb.1
    simp only [Token.encode, Token.meaning, bytes, chars, delivered, List.map_cons,
      List.map_nil, after_cons, after_nil, emits_cons, emits_nil, readPty_plain pty hm hb.2, hp.2]
    exact ⟨⟨rfl, hne⟩, by simp [visible_byte]⟩
  | crNul =>
    -- the CR is delivered and remembered, the NUL is the one byte it swallows
    have h1 := readPty_plain pty hm (b := cr) (by decide)
    have h2 := readPty_plain { pty with iacMode := 0, lastCr := true } rfl
      (b := 0) (by decide)
    simp only [Token.encode, Token.meaning, bytes, chars, delivered, List.map_cons,
      List.map_nil, after_cons, after_nil, emits_cons, emits_nil, h1, BEq.rfl, h2]
    exact ⟨⟨rfl, rfl⟩, rfl⟩
  | crLf =>
    have h1 := readPty_plain pty hm (b := cr) (by decide)
    have h2 := readPty_plain { pty with iacMode := 0, lastCr := true } rfl
      (b := lf) (by decide)
    simp only [Token.encode, Token.meaning, bytes, chars, delivered, List.map_cons,
      List.map_nil, after_cons, after_nil, emits_cons, emits_nil, h1, BEq.rfl, h2]
    exact ⟨⟨rfl, rfl⟩, rfl⟩
  | iacIac =>
    have h2 := readPty_iac { pty with iacMode := iacEsc.toUInt32 } rfl iacEsc
    simp only [Token.encode, Token.meaning, bytes, chars, delivered, List.map_cons,
      List.map_nil, after_cons, after_nil, emits_cons, emits_nil, readPty_iacEsc pty hm, h2]
    exact ⟨⟨rfl, hp.2⟩, rfl⟩
  | command c hc =>
    have h2 := readPty_iac { pty with iacMode := iacEsc.toUInt32 } rfl c
    rw [readIac_command hc] at h2
    simp only [Token.encode, Token.meaning, bytes, chars, delivered, List.map_cons,
      List.map_nil, after_cons, after_nil, emits_cons, emits_nil, readPty_iacEsc pty hm, h2]
    refine ⟨⟨rfl, hp.2⟩, ?_⟩
    rw [List.filterMap_cons, List.filterMap_cons, visible_iacCommand]
    repeat' split
    all_goals simp_all [Reply.visible]
  | negotiate verb hv option =>
    have h2 := readPty_iac { pty with iacMode := iacEsc.toUInt32 } rfl verb
    have h2' : readIac { pty with iacMode := 0 } iacEsc.toUInt32 verb =
        ({ pty with iacMode := verb.toUInt32 }, ⟨-1, []⟩) := by
      have hne : verb ≠ iacEsc := by rintro rfl; exact absurd hv (by decide)
      rw [readIac, if_neg hne, if_pos hv]
    obtain ⟨sys, h3⟩ := readPty_verb { pty with iacMode := verb.toUInt32 } hv rfl option
    simp only [Token.encode, Token.meaning, bytes, chars, delivered, List.map_cons,
      List.map_nil, after_cons, after_nil, emits_cons, emits_nil, readPty_iacEsc pty hm, h2, h2',
      h3]
    exact ⟨⟨rfl, hp.2⟩, rfl⟩

/-! ## Streams -/

/-- A read timeout; it changes nothing and delivers nothing. -/
def ReadResult.isTimeout (r : ReadResult) : Bool := r == .timeout

def ReadResult.byte? : ReadResult → Option UInt8
  | .byte b => some b
  | _ => none

/-- Reads without end of file are their bytes with timeouts between them. -/
theorem filter_timeouts {rs : List ReadResult} (heof : ReadResult.eof ∉ rs) :
    rs.filter (fun r => !r.isTimeout) = bytes (rs.filterMap ReadResult.byte?) := by
  induction rs with
  | nil => rfl
  | cons r rs ih =>
    rw [List.mem_cons, not_or] at heof
    have ih := ih heof.2
    cases r with
    | timeout => exact ih
    | eof => exact absurd rfl heof.1
    | byte b =>
      have hkeep : (!(ReadResult.byte b).isTimeout) = true := rfl
      rw [List.filter_cons, if_pos hkeep, ih]
      rfl

theorem bytes_flatMap (ts : List Token) :
    bytes (ts.flatMap Token.encode) = ts.flatMap fun t => bytes t.encode :=
  List.map_flatMap

theorem chars_flatMap (ts : List Token) :
    chars (ts.flatMap Token.meaning) = ts.flatMap fun t => chars t.meaning :=
  List.map_flatMap

/-- Any stream of tokens, read with any timeouts between its bytes. -/
theorem delivered_tokens (pty : Pty) (hp : AtRest pty) (ts : List Token)
    (rs : List ReadResult) (heof : ReadResult.eof ∉ rs)
    (hrs : rs.filterMap ReadResult.byte? = ts.flatMap Token.encode) :
    AtRest (after readPty pty rs) ∧
      delivered pty rs = chars (ts.flatMap Token.meaning) := by
  have hidle : ∀ (s : Pty) (r : ReadResult), r.isTimeout = true →
      (readPty s r).1 = s ∧ (readPty s r).2.visible = none := by
    intro s r hr
    cases r with
    | timeout => exact ⟨rfl, rfl⟩
    | eof => exact absurd hr (by decide)
    | byte b => cases hr
  have htok : ∀ (s : Pty) (t : Token), AtRest s →
      AtRest (after readPty s (bytes t.encode)) ∧
        (emits readPty s (bytes t.encode)).filterMap Reply.visible = chars t.meaning :=
    readToken
  obtain ⟨hafter, hemits⟩ := emits_idle hidle pty rs
  obtain ⟨hrest, hmean⟩ := emits_tokens htok hp ts
  rw [filter_timeouts heof, hrs, bytes_flatMap] at hafter hemits
  refine ⟨?_, ?_⟩
  · rw [hafter]; exact hrest
  · rw [delivered, hemits, hmean, chars_flatMap]

/-! ## The sending side -/

/-- The encoder: IAC is doubled, a CR that no LF follows is sent as CR NUL. -/
def nvtEncode : List UInt8 → List Token
  | [] => []
  | [b] => [nvtToken b]
  | b :: c :: bs =>
    if b = cr ∧ c = lf then .crLf :: nvtEncode bs else nvtToken b :: nvtEncode (c :: bs)
where
  /-- The token of a byte that is not the CR of a CR LF. -/
  nvtToken (b : UInt8) : Token :=
    if hcr : b = cr then .crNul
    else if hesc : b = iacEsc then .iacIac
    else .data b ⟨hcr, hesc⟩

theorem meaning_nvtToken (b : UInt8) : (nvtEncode.nvtToken b).meaning = [b] := by
  unfold nvtEncode.nvtToken
  split
  · next h => rw [h]; rfl
  · split
    · next h => rw [h]; rfl
    · rfl

theorem meaning_nvtEncode (d : List UInt8) : (nvtEncode d).flatMap Token.meaning = d := by
  induction d using nvtEncode.induct with
  | case1 => rfl
  | case2 b => rw [nvtEncode, List.flatMap_cons, meaning_nvtToken]; rfl
  | case3 b c bs h ih =>
    rw [nvtEncode, if_pos h, List.flatMap_cons, ih, h.1, h.2]
    rfl
  | case4 b c bs h ih =>
    rw [nvtEncode, if_neg h, List.flatMap_cons, meaning_nvtToken, ih]
    rfl

/-- Tokens the terminal never sees: negotiations, and commands other than EL and EC. -/
def Token.isSilent (t : Token) : Bool := t.meaning.isEmpty

theorem flatMap_filter_silent (ts : List Token) :
    (ts.filter fun t => !t.isSilent).flatMap Token.meaning = ts.flatMap Token.meaning := by
  induction ts with
  | nil => rfl
  | cons t ts ih =>
    by_cases ht : t.isSilent = true
    · have hnil : t.meaning = [] := List.isEmpty_iff.mp ht
      simp only [List.filter_cons, ht, List.flatMap_cons, hnil, List.nil_append]
      exact ih
    · have hf : t.isSilent = false := by simpa using ht
      simp only [List.filter_cons, hf, List.flatMap_cons, Bool.not_false, if_true, ih]

/-- **The decoder inverts the NVT encoding.**

    Fed any token stream from rest, with any number of read timeouts between the bytes,
    `read_pty` returns the meanings of the tokens in order and ends in mode 0. Hence, if
    the stream is the encoding of `d` with silent tokens put in anywhere, it returns `d`. -/
theorem readPty_nvt (pty : Pty) (hm : pty.iacMode = 0) (hc : pty.lastCr = false)
    (ts : List Token) (rs : List ReadResult) (heof : ReadResult.eof ∉ rs)
    (hrs : rs.filterMap ReadResult.byte? = ts.flatMap Token.encode) :
    delivered pty rs = chars (ts.flatMap Token.meaning) ∧
      (after readPty pty rs).iacMode = 0 ∧
      ∀ d, (ts.filter fun t => !t.isSilent) = nvtEncode d → delivered pty rs = chars d := by
  obtain ⟨hrest, hdel⟩ := delivered_tokens pty ⟨hm, hc⟩ ts rs heof hrs
  refine ⟨hdel, hrest.1, ?_⟩
  intro d hd
  rw [hdel, ← flatMap_filter_silent, hd, meaning_nvtEncode]

theorem readPty_nvt_crNul : delivered zeroPty
    [.byte iacEsc, .timeout, .byte iacEsc, .byte cr, .timeout, .byte 0] = chars [255, 13] :=
  (readPty_nvt zeroPty rfl rfl [.iacIac, .crNul] _ (by decide) rfl).1

end SsrlApps.Telnetd
