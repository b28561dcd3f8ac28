/-
  The parser state of a slot, over everything that is read from its opening on.

  Model. The reads of a session are results of `read` on its socket, in any order: bytes,
  time-outs, ends of file. `ParserState` is what holds of `sb_ind` and `iac_mode` between two
  reads. `ReadSound` says of one read where it stores and what it returns; `Delivers` lists
  the occasions on which a character may be returned.

  Proved:
  * `sbInd_read`, `readSound`: one read.
  * `interrupted`: whenever a slot is behind an IAC, that IAC came in mode 0 or inside a
    subnegotiation, and the shift to the right gives that mode back.
  * `parserState_run`: all of it, for any reads behind `ptyPollInitialize`.
-/
import SsrlApps.Telnetd.Modes
import Mathlib.Data.List.Induction

namespace SsrlApps.Telnetd

open Transducer

/-! ## The state -/

/-- The values of `iac_mode`. -/
def modeWords : List UInt32 :=
  [0, iacEsc.toUInt32, iacSb.toUInt32, (iacSb.toUInt32 <<< 8) ||| iacEsc.toUInt32,
    iacWill.toUInt32, iacWont.toUInt32, iacDo.toUInt32, iacDont.toUInt32]

structure ParserState (p : Pty) : Prop where
  sbInd : p.sbInd ≤ sbMax
  mode : p.iacMode ∈ modeWords
  /-- What is shifted left is the mode of a subnegotiation, and nothing above it. -/
  shift : p.iacMode &&& 0xff = iacSb.toUInt32 → p.iacMode = iacSb.toUInt32

/-- Behind an IAC, on its own or inside a subnegotiation. -/
def BehindIac (p : Pty) : Prop := p.iacMode = iacEsc.toUInt32 ∨ p.iacMode = sbEscMode

/-- The occasions on which `read_pty` may return a character. -/
inductive Delivers (p : Pty) : ReadResult → UInt8 → Prop
  | data {value : UInt8} (hidle : p.iacMode = 0) (hne : value ≠ iacEsc) :
    Delivers p (.byte value) value
  | iacIac (h : BehindIac p) : Delivers p (.byte iacEsc) iacEsc
  | el (h : BehindIac p) : Delivers p (.byte iacEl) 3
  | ec (h : BehindIac p) : Delivers p (.byte iacEc) 8
  | eof {tty : Tty} (h : p.ttyp = some tty) : Delivers p .eof tty.veof

/-- One read stores inside the buffer, if it does, and returns a character on one of these
    occasions, or a negative number. -/
structure ReadSound (p : Pty) (r : ReadResult) : Prop where
  store : (readPty p r).1.sbBuf = p.sbBuf ∨ ∃ (h : p.sbInd < sbMax) (value : UInt8),
    r = .byte value ∧ (readPty p r).1.sbBuf = p.sbBuf.set p.sbInd value h
  ret : (readPty p r).2.ret < 0 ∨ ∃ b : UInt8, (readPty p r).2.ret = b.toNat ∧ Delivers p r b

/-- The reads end with an IAC, which came in mode 0 or inside a subnegotiation, and with no
    byte behind it. -/
structure EndsInIac (pty : Pty) (rs pre waits : List ReadResult) : Prop where
  reads : rs = pre ++ .byte iacEsc :: waits
  waits : ∀ r ∈ waits, ∀ value, r ≠ .byte value
  mode : (after readPty pty pre).iacMode = 0 ∨ (after readPty pty pre).iacMode = iacSb.toUInt32

/-! ## The modes -/

variable {p : Pty} {m : Mode}

theorem mode_words (m : Mode) : m.word ∈ modeWords := by
  cases m <;> decide

theorem mode_shift (m : Mode) (h : m.word &&& 0xff = iacSb.toUInt32) :
    m.word = iacSb.toUInt32 := by
  revert h
  cases m <;> decide

theorem word_behind {m : Mode} (h : m.word = iacEsc.toUInt32 ∨ m.word = sbEscMode) :
    m = .iac ∨ m = .sbEsc := by
  revert h
  cases m <;> decide

theorem command_not_iac (value : UInt8) :
    Mode.command value ≠ .iac ∧ Mode.command value ≠ .sbEsc := by
  unfold Mode.command
  repeat' split
  all_goals decide

/-- Only an IAC leads behind an IAC, in mode 0 or inside a subnegotiation. -/
theorem next_behind {value : UInt8} (h : m.next value = .iac ∨ m.next value = .sbEsc) :
    value = iacEsc ∧ (m.word = 0 ∨ m.word = iacSb.toUInt32) ∧
      (m.next value).word >>> 8 = m.word := by
  cases m with
  | idle =>
    by_cases hv : value = iacEsc
    · subst hv
      decide
    · simp [Mode.next, hv] at h
  | sb =>
    by_cases hv : value = iacEsc
    · subst hv
      decide
    · simp [Mode.next, hv] at h
  | iac =>
    have hno := command_not_iac value
    by_cases hv : value = iacEsc
    · simp [Mode.next, hv] at h
    · simp [Mode.next, hv, hno] at h
  | sbEsc =>
    have hno := command_not_iac value
    by_cases hv : value = iacEsc
    · simp [Mode.next, hv] at h
    · simp [Mode.next, hv, hno] at h
  | will => simp [Mode.next] at h
  | wont => simp [Mode.next] at h
  | doing => simp [Mode.next] at h
  | dont => simp [Mode.next] at h

/-- Without a byte the mode stays. -/
theorem readPty_quiet (p : Pty) {r : ReadResult} (hr : ∀ value, r ≠ .byte value) :
    (readPty p r).1.iacMode = p.iacMode := by
  cases r with
  | timeout => rfl
  | eof =>
    unfold readPty
    cases p.ttyp <;> rfl
  | byte value => exact absurd rfl (hr value)

/-- The second IAC of a pair shifts the mode to the right. -/
theorem readPty_restores (h : BehindIac p) :
    (readPty p (.byte iacEsc)).1.iacMode = p.iacMode >>> 8 := by
  rcases h with h | h
  · rw [readPty_iac p h, h]
    rfl
  · rw [readPty_sbEsc p h, h]
    rfl

/-! ## The buffer -/

theorem handleSB_buffer (p : Pty) : (handleSB p).sbBuf = p.sbBuf ∧ (handleSB p).sbInd = p.sbInd := by
  unfold handleSB
  split <;> exact ⟨rfl, rfl⟩

theorem readIac_buffer (p : Pty) (omod : UInt32) (value : UInt8) :
    (readIac p omod value).1.sbBuf = p.sbBuf ∧ (readIac p omod value).1.sbInd ≤ p.sbInd := by
  unfold readIac
  split
  · exact ⟨rfl, Nat.le_refl _⟩
  · split
    · exact ⟨rfl, Nat.le_refl _⟩
    · split
      · exact ⟨rfl, Nat.zero_le _⟩
      · split
        · exact ⟨(handleSB_buffer p).1, Nat.le_of_eq (handleSB_buffer p).2⟩
        · exact ⟨rfl, Nat.le_refl _⟩

theorem readData_buffer (p : Pty) (value : UInt8) :
    (readData p value).1.sbBuf = p.sbBuf ∧ (readData p value).1.sbInd ≤ p.sbInd := by
  unfold readData
  split <;> exact ⟨rfl, Nat.le_refl _⟩

/-- `sb_buf` keeps its contents and `sb_ind` does not grow, or a byte is stored at `sb_ind`,
    below `SB_MAX`, and `sb_ind` grows by one. -/
theorem readPty_buffer (p : Pty) (r : ReadResult) :
    ((readPty p r).1.sbBuf = p.sbBuf ∧ (readPty p r).1.sbInd ≤ p.sbInd) ∨
      ∃ (h : p.sbInd < sbMax) (value : UInt8), r = .byte value ∧
        (readPty p r).1.sbBuf = p.sbBuf.set p.sbInd value h ∧
        (readPty p r).1.sbInd = p.sbInd + 1 := by
  cases r with
  | timeout => exact Or.inl ⟨rfl, Nat.le_refl _⟩
  | eof =>
    unfold readPty
    cases p.ttyp <;> exact Or.inl ⟨rfl, Nat.le_refl _⟩
  | byte value =>
    unfold readPty
    dsimp only
    split
    · exact Or.inl (readIac_buffer { p with iacMode := 0 } _ value)
    · split
      · -- inside a subnegotiation
        unfold readSb
        split
        · exact Or.inl ⟨rfl, Nat.le_refl _⟩
        · split
          · next hroom => exact Or.inr ⟨hroom, value, rfl, rfl, rfl⟩
          · exact Or.inl ⟨rfl, Nat.le_refl _⟩
      · -- the four verbs, and plain data
        repeat' split
        all_goals first
          | exact Or.inl ⟨rfl, Nat.le_refl _⟩
          | exact Or.inl (readData_buffer { p with iacMode := 0 } value)

/-! ## What is returned -/

theorem minus_one_neg : (-1 : Int) < 0 := by decide

theorem iacCommand_ret (p : Pty) (value : UInt8) : (iacCommand p value).ret < 0 ∨
    (value = iacEl ∧ (iacCommand p value).ret = 3) ∨
      (value = iacEc ∧ (iacCommand p value).ret = 8) := by
  by_cases hel : value = iacEl
  · subst hel
    exact Or.inr (Or.inl ⟨rfl, rfl⟩)
  · by_cases hec : value = iacEc
    · subst hec
      exact Or.inr (Or.inr ⟨rfl, rfl⟩)
    · refine Or.inl ?_
      unfold iacCommand
      rw [if_neg hel, if_neg hec]
      have hdmark : (-2 : Int) < 0 := by decide
      have heor : (-102 : Int) < 0 := by decide
      repeat' split
      all_goals first | exact minus_one_neg | exact hdmark | exact heor

theorem readIac_ret (hp : BehindIac p) (q : Pty) (omod : UInt32) (value : UInt8) :
    (readIac q omod value).2.ret < 0 ∨ ∃ b : UInt8,
      (readIac q omod value).2.ret = b.toNat ∧ Delivers p (.byte value) b := by
  unfold readIac
  split
  · next hesc =>
    subst hesc
    exact Or.inr ⟨iacEsc, rfl, .iacIac hp⟩
  · have hsb : (-100 : Int) < 0 := by decide
    have hse : (-101 : Int) < 0 := by decide
    split
    · exact Or.inl minus_one_neg
    · split
      · exact Or.inl hsb
      · split
        · exact Or.inl hse
        · rcases iacCommand_ret q value with hneg | ⟨rfl, hret⟩ | ⟨rfl, hret⟩
          · exact Or.inl hneg
          · exact Or.inr ⟨3, hret, .el hp⟩
          · exact Or.inr ⟨8, hret, .ec hp⟩

theorem readPty_ret (hm : InMode p m) (r : ReadResult) : (readPty p r).2.ret < 0 ∨
    ∃ b : UInt8, (readPty p r).2.ret = b.toNat ∧ Delivers p r b := by
  cases r with
  | timeout => exact Or.inl minus_one_neg
  | eof =>
    unfold readPty
    cases htty : p.ttyp with
    | none => exact Or.inl minus_one_neg
    | some tty => exact Or.inr ⟨tty.veof, rfl, .eof htty⟩
  | byte value =>
    have hverb : ∀ verb, IsVerb verb → p.iacMode = verb.toUInt32 →
        (readPty p (.byte value)).2.ret < 0 := by
      intro verb hv hmode
      obtain ⟨sys, hread⟩ := readPty_verb p hv hmode value
      rw [hread]
      exact minus_one_neg
    cases m with
    | idle =>
      rw [readPty_idle p hm]
      unfold readData
      split
      · exact Or.inl minus_one_neg
      · next hne =>
        dsimp only
        split
        · exact Or.inl minus_one_neg
        · exact Or.inr ⟨value, rfl, .data hm hne⟩
    | iac =>
      rw [readPty_iac p hm]
      exact readIac_ret (Or.inl hm) _ _ value
    | sb =>
      rw [readPty_sb p hm]
      unfold readSb
      repeat' split
      all_goals exact Or.inl minus_one_neg
    | sbEsc =>
      rw [readPty_sbEsc p hm]
      exact readIac_ret (Or.inr hm) _ _ value
    | will => exact Or.inl (hverb iacWill (by decide) hm)
    | wont => exact Or.inl (hverb iacWont (by decide) hm)
    | doing => exact Or.inl (hverb iacDo (by decide) hm)
    | dont => exact Or.inl (hverb iacDont (by decide) hm)

/-! ## One read -/

theorem parserState_mode (hm : InMode p m) (hind : p.sbInd ≤ sbMax) : ParserState p where
  sbInd := hind
  mode := by
    rw [hm]
    exact mode_words m
  shift := by
    rw [hm]
    exact mode_shift m

/-- `sb_ind` stays within the buffer. -/
theorem sbInd_read (h : p.sbInd ≤ sbMax) (r : ReadResult) : (readPty p r).1.sbInd ≤ sbMax := by
  rcases readPty_buffer p r with ⟨-, hle⟩ | ⟨hlt, value, -, -, hsucc⟩
  · exact Nat.le_trans hle h
  · rw [hsucc]
    exact hlt

theorem readSound (hm : InMode p m) (r : ReadResult) : ReadSound p r where
  store := by
    rcases readPty_buffer p r with ⟨hsame, -⟩ | ⟨hlt, value, hr, hset, -⟩
    · exact Or.inl hsame
    · exact Or.inr ⟨hlt, value, hr, hset⟩
  ret := readPty_ret hm r

/-! ## Runs -/

theorem after_snoc (pty : Pty) (rs : List ReadResult) (r : ReadResult) :
    after readPty pty (rs ++ [r]) = (readPty (after readPty pty rs) r).1 :=
  after_append readPty pty rs [r]

/-- What one read keeps, any reads keep. -/
theorem inMode_run {pty : Pty} (hm : InMode pty .idle) (hind : pty.sbInd ≤ sbMax)
    (rs : List ReadResult) : (∃ m, InMode (after readPty pty rs) m) ∧
      (after readPty pty rs).sbInd ≤ sbMax := by
  induction rs using List.reverseRecOn with
  | nil => exact ⟨⟨.idle, hm⟩, hind⟩
  | append_singleton rs r ih =>
    obtain ⟨⟨m, hmode⟩, hle⟩ := ih
    rw [after_snoc]
    exact ⟨inMode_readPty hmode r, sbInd_read hle r⟩

/-- A slot is behind an IAC because of the last byte it read, and the shift gives back the
    mode in which that byte came. -/
theorem interrupted {pty : Pty} (hm : InMode pty .idle) (hind : pty.sbInd ≤ sbMax)
    (rs : List ReadResult) (hiac : BehindIac (after readPty pty rs)) :
    ∃ pre waits, EndsInIac pty rs pre waits ∧
      (after readPty pty rs).iacMode >>> 8 = (after readPty pty pre).iacMode := by
  induction rs using List.reverseRecOn with
  | nil =>
    rw [after_nil, BehindIac, hm] at hiac
    have hno : ¬ (Mode.idle.word = iacEsc.toUInt32 ∨ Mode.idle.word = sbEscMode) := by decide
    exact absurd hiac hno
  | append_singleton rs r ih =>
    obtain ⟨⟨m, hmode⟩, -⟩ := inMode_run hm hind rs
    rw [after_snoc] at hiac ⊢
    have hquiet : (∀ value, r ≠ .byte value) → ∃ pre waits,
        EndsInIac pty (rs ++ [r]) pre waits ∧
          (readPty (after readPty pty rs) r).1.iacMode >>> 8 =
            (after readPty pty pre).iacMode := by
      intro hr
      rw [BehindIac, readPty_quiet _ hr] at hiac
      obtain ⟨pre, waits, hends, hshift⟩ := ih hiac
      refine ⟨pre, waits ++ [r], ⟨?_, ?_, hends.mode⟩, ?_⟩
      · rw [hends.reads, List.append_assoc, List.cons_append]
      · intro w hw
        rcases List.mem_append.mp hw with hw | hw
        · exact hends.waits w hw
        · rw [List.mem_singleton.mp hw]
          exact hr
      · rw [readPty_quiet _ hr]
        exact hshift
    cases r with
    | timeout => exact hquiet fun _ h => by cases h
    | eof => exact hquiet fun _ h => by cases h
    | byte value =>
      have hnext := (readPty_mode hmode value).1
      rw [BehindIac, hnext] at hiac
      obtain ⟨rfl, hfrom, hshift⟩ := next_behind (word_behind hiac)
      refine ⟨rs, [], ⟨rfl, fun _ hw => absurd hw List.not_mem_nil, ?_⟩, ?_⟩
      · rw [hmode]
        exact hfrom
      · rw [hnext, hmode]
        exact hshift

/-! ## Behind `ptyPollInitialize` -/

/-- **The parser state.** Whatever is read, in whatever order, from a slot that
    `ptyPollInitialize` has set up:

    * `sb_ind` and `iac_mode` stay in their ranges;
    * a further read stores inside the buffer, and returns a character on one of the listed
      occasions, or a negative number;
    * an IAC behind an IAC gives back the mode in which the first of the two came. -/
theorem parserState_run (d : Driver) (minor : Fin maxPtys)
    (hsock : 0 ≤ (d.ptys minor).socket) (tty : Tty) (rs : List ReadResult) :
    let pty := (ptyPollInitialize d minor tty).1.ptys minor
    let p := after readPty pty rs
    ParserState p ∧ (∀ r, ReadSound p r) ∧
      (BehindIac p → ∃ pre waits, EndsInIac pty rs pre waits ∧
        (readPty p (.byte iacEsc)).1.iacMode = (after readPty pty pre).iacMode) := by
  intro pty p
  have hpty : pty = { openPty (d.ptys minor) tty with cCflag := defaultCflag } :=
    ptyPollInitialize_slot hsock tty
  have hidle : InMode pty .idle := by
    rw [hpty]
    rfl
  have hind : pty.sbInd ≤ sbMax := by
    rw [hpty]
    exact Nat.zero_le _
  obtain ⟨⟨m, hmode⟩, hle⟩ := inMode_run hidle hind rs
  refine ⟨parserState_mode hmode hle, fun r => readSound hmode r, fun hiac => ?_⟩
  obtain ⟨pre, waits, hends, hshift⟩ := interrupted hidle hind rs hiac
  exact ⟨pre, waits, hends, (readPty_restores hiac).trans hshift⟩

/-- Slot 0 has socket 7. -/
def dialled : Driver := zeroDriver.setPty 0 { zeroPty with socket := 7 }

/-- IAC SB, and an IAC inside, with a time-out behind it. -/
theorem parserState_run_dialled :
    let pty := (ptyPollInitialize dialled 0 ⟨0, 0, 4⟩).1.ptys 0
    let p := after readPty pty [.byte iacEsc, .byte iacSb, .byte 7, .byte iacEsc, .timeout]
    ParserState p ∧ (∀ r, ReadSound p r) ∧
      (BehindIac p → ∃ pre waits,
        EndsInIac pty [.byte iacEsc, .byte iacSb, .byte 7, .byte iacEsc, .timeout] pre waits ∧
          (readPty p (.byte iacEsc)).1.iacMode = (after readPty pty pre).iacMode) :=
  parserState_run dialled 0 (by decide) ⟨0, 0, 4⟩ _

end SsrlApps.Telnetd
