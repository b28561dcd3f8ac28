/-
  The modes of the telnet decoder, as a machine of their own.

  Model. `iac_mode` takes eight values: no command is open, behind an IAC, inside a
  subnegotiation, behind an IAC inside one, and behind each of the four verbs. `Mode.next`
  and `Mode.answer` say what a byte does in a mode: where it leads, and what is written to
  the socket. Nothing else of the slot matters for either.

  An open slot (`IsOpen`) was opened, and then read from, resized and given attributes, in
  any order.

  Proved:
  * `readPty_mode`: `read_pty` follows the machine of the modes.
  * `isOpen_of_legal`: a slot that the driver has marked as opened is open in this sense.
  * `IsOpen.inMode`: an open slot is in one of the modes.
-/
import SsrlApps.Telnetd.Driver

namespace SsrlApps.Telnetd

/-! ## The machine -/

inductive Mode
  | idle
  | iac
  | sb
  | sbEsc
  | will
  | wont
  | doing
  | dont
deriving DecidableEq

namespace Mode

/-- The mode as the word `iac_mode`. -/
def word : Mode → UInt32
  | idle => 0
  | iac => iacEsc.toUInt32
  | sb => iacSb.toUInt32
  | sbEsc => sbEscMode
  | will => iacWill.toUInt32
  | wont => iacWont.toUInt32
  | doing => iacDo.toUInt32
  | dont => iacDont.toUInt32

/-- Where a byte other than IAC leads behind an IAC. -/
def command (value : UInt8) : Mode :=
  if value = iacDont then dont
  else if value = iacDo then doing
  else if value = iacWont then wont
  else if value = iacWill then will
  else if value = iacSb then sb
  else idle

def next (m : Mode) (value : UInt8) : Mode :=
  match m with
  | idle => if value = iacEsc then iac else idle
  | iac => if value = iacEsc then idle else command value
  | sb => if value = iacEsc then sbEsc else sb
  | sbEsc => if value = iacEsc then sb else command value
  | _ => idle

/-- The texts that answer a command. -/
def reply (value : UInt8) : List (List UInt8) :=
  if value = iacAyt then [iacAytRsp]
  else if value = iacIp then [iacIpRsp]
  else if value = iacBrk then [iacBrkRsp]
  else []

def answerWill (value : UInt8) : List (List UInt8) :=
  if value = 34 then [[iacEsc, iacDont, 34], [iacEsc, iacDo, 1]]
  else if value = 31 then [[iacEsc, iacDo, 31]]
  else [[iacEsc, iacDont, value]]

def answerDo (value : UInt8) : List (List UInt8) :=
  if value = 3 then [[iacEsc, iacWill, 3]]
  else if value = 1 then []
  else [[iacEsc, iacWont, value]]

def answerWont (value : UInt8) : List (List UInt8) :=
  if value = 1 then [[iacEsc, iacWill, 1]] else [[iacEsc, iacWont, value]]

/-- What is written when a byte is read, buffer by buffer. -/
def answer (m : Mode) (value : UInt8) : List (List UInt8) :=
  match m with
  | iac | sbEsc => reply value
  | will => answerWill value
  | doing => answerDo value
  | wont => answerWont value
  | _ => []

end Mode

/-- The slot is in the mode `m`. -/
def InMode (p : Pty) (m : Mode) : Prop := p.iacMode = m.word

/-! ## The decoder follows it -/

variable {p : Pty} {m : Mode}

theorem iacCommand_reply (p : Pty) (value : UInt8) :
    (iacCommand p value).sys = (Mode.reply value).map (.write p.socket) := by
  unfold iacCommand Mode.reply
  by_cases hayt : value = iacAyt
  · subst hayt; rfl
  by_cases hip : value = iacIp
  · subst hip; rfl
  by_cases hbrk : value = iacBrk
  · subst hbrk; rfl
  rw [if_neg hayt, if_neg hip, if_neg hbrk, if_neg hayt, if_neg hip, if_neg hbrk]
  repeat' split
  all_goals rfl

theorem handleSB_mode (p : Pty) : (handleSB p).iacMode = p.iacMode := by
  unfold handleSB
  split <;> rfl

/-- Behind an IAC, inside a subnegotiation or not. -/
theorem readIac_mode (omod : UInt32) (value : UInt8) (hm : m.word = omod >>> 8) :
    InMode (readIac { p with iacMode := 0 } omod value).1
        (if value = iacEsc then m else Mode.command value) ∧
      (readIac { p with iacMode := 0 } omod value).2.sys =
        (Mode.reply value).map (.write p.socket) := by
  unfold InMode readIac
  by_cases hesc : value = iacEsc
  · subst hesc
    exact ⟨hm.symm, rfl⟩
  rw [if_neg hesc, if_neg hesc]
  by_cases hv : IsVerb value
  · rw [if_pos hv]
    rcases hv with rfl | rfl | rfl | rfl <;> exact ⟨rfl, rfl⟩
  rw [if_neg hv]
  by_cases hsb : value = iacSb
  · subst hsb
    exact ⟨rfl, rfl⟩
  rw [if_neg hsb]
  have hidle : Mode.command value = .idle := by
    unfold IsVerb at hv
    unfold Mode.command
    simp only [not_or] at hv
    simp only [hv, hsb, if_false]
  rw [hidle]
  by_cases hse : value = iacSe
  · subst hse
    exact ⟨handleSB_mode _, rfl⟩
  · rw [if_neg hse]
    exact ⟨rfl, iacCommand_reply _ value⟩

/-- `read_pty` follows the machine of the modes. -/
theorem readPty_mode (h : InMode p m) (value : UInt8) :
    InMode (readPty p (.byte value)).1 (m.next value) ∧
      (readPty p (.byte value)).2.sys = (m.answer value).map (.write p.socket) := by
  cases m with
  | idle =>
    rw [readPty_idle p h]
    unfold readData Mode.next
    split
    · next hesc =>
      subst hesc
      exact ⟨rfl, rfl⟩
    · exact ⟨rfl, rfl⟩
  | iac =>
    rw [readPty_iac p h]
    exact readIac_mode (m := .idle) _ value rfl
  | sb =>
    rw [readPty_sb p h]
    unfold readSb Mode.next
    split
    · next hesc =>
      subst hesc
      exact ⟨rfl, rfl⟩
    · split <;> exact ⟨rfl, rfl⟩
  | sbEsc =>
    rw [readPty_sbEsc p h]
    exact readIac_mode (m := .sb) _ value sbEscMode_shift.symm
  | will =>
    unfold readPty
    rw [h]
    refine ⟨rfl, ?_⟩
    show readWill { p with iacMode := 0 } value = (Mode.answerWill value).map (.write p.socket)
    unfold readWill Mode.answerWill
    split
    · rfl
    · split <;> rfl
  | doing =>
    unfold readPty
    rw [h]
    refine ⟨rfl, ?_⟩
    show readDo { p with iacMode := 0 } value = (Mode.answerDo value).map (.write p.socket)
    unfold readDo Mode.answerDo
    split
    · rfl
    · split <;> rfl
  | wont =>
    unfold readPty
    rw [h]
    refine ⟨rfl, ?_⟩
    show readWont { p with iacMode := 0 } value = (Mode.answerWont value).map (.write p.socket)
    unfold readWont Mode.answerWont
    split <;> rfl
  | dont =>
    unfold readPty
    rw [h]
    exact ⟨rfl, rfl⟩

theorem inMode_readPty (h : InMode p m) (r : ReadResult) :
    ∃ m', InMode (readPty p r).1 m' := by
  cases r with
  | timeout => exact ⟨m, h⟩
  | eof =>
    refine ⟨m, ?_⟩
    unfold readPty
    cases p.ttyp <;> exact h
  | byte value => exact ⟨_, (readPty_mode h value).1⟩

/-! ## Open slots -/

/-- What happens to a slot while its device is open. -/
inductive SlotEvent
  | read (r : ReadResult)
  | resize (wp : Winsize)
  | attributes (cflag : Nat)

def slotAct (p : Pty) : SlotEvent → Pty
  | .read r => (readPty p r).1
  | .resize wp => { p with height := wp.wsRow.toNat, width := wp.wsCol.toNat }
  | .attributes cflag => { p with cCflag := cflag }

/-- The slot was opened, and what happened to it since are slot events. -/
def IsOpen (p : Pty) : Prop :=
  ∃ (pty : Pty) (tty : Tty) (es : List SlotEvent), p = es.foldl slotAct (openPty pty tty)

theorem isOpen_openPty (pty : Pty) (tty : Tty) : IsOpen (openPty pty tty) := ⟨pty, tty, [], rfl⟩

theorem IsOpen.step (h : IsOpen p) (e : SlotEvent) : IsOpen (slotAct p e) := by
  obtain ⟨pty, tty, es, rfl⟩ := h
  refine ⟨pty, tty, es ++ [e], ?_⟩
  rw [List.foldl_append]
  rfl

theorem inMode_slotAct (h : InMode p m) (e : SlotEvent) : ∃ m', InMode (slotAct p e) m' := by
  cases e with
  | read r => exact inMode_readPty h r
  | resize wp => exact ⟨m, h⟩
  | attributes cflag => exact ⟨m, h⟩

theorem inMode_foldl (h : InMode p m) (es : List SlotEvent) :
    ∃ m', InMode (es.foldl slotAct p) m' := by
  induction es generalizing p m with
  | nil => exact ⟨m, h⟩
  | cons e es ih =>
    obtain ⟨m', hm'⟩ := inMode_slotAct h e
    exact ih hm'

/-- An open slot is in one of the modes. -/
theorem IsOpen.inMode (h : IsOpen p) : ∃ m, InMode p m := by
  obtain ⟨pty, tty, es, rfl⟩ := h
  have hidle : InMode (openPty pty tty) .idle := rfl
  exact inMode_foldl hidle es

/-! ## The driver's slots -/

/-- The slots that the driver has marked as opened are open. -/
def OpenedAreOpen (d : Driver) : Prop := ∀ i, (d.ptys i).opened = true → IsOpen (d.ptys i)

/-- Changing one slot, to a state that is open if it is marked as opened. -/
theorem openedAreOpen_setPty {d : Driver} (h : OpenedAreOpen d) {ndx : Fin maxPtys} {pty : Pty}
    (hpty : pty.opened = true → IsOpen pty) : OpenedAreOpen (d.setPty ndx pty) := by
  intro i
  by_cases hi : i = ndx
  · subst hi
    rw [setPty_self]
    exact hpty
  · rw [setPty_ne d hi]
    exact h i

theorem openedAreOpen_attributes {d : Driver} (h : OpenedAreOpen d) (minor cflag : Nat) :
    OpenedAreOpen (ptySetAttributes d minor cflag).1 := by
  unfold ptySetAttributes
  split
  · next hm =>
    exact openedAreOpen_setPty h fun hop => (h ⟨minor, hm⟩ hop).step (.attributes cflag)
  · exact h

theorem openedAreOpen_pollRead {d : Driver} (h : OpenedAreOpen d) (minor : Nat)
    (r : ReadResult) : OpenedAreOpen (ptyPollRead d minor r).1 := by
  unfold ptyPollRead
  split
  · next hm =>
    split
    · exact h
    · refine openedAreOpen_setPty h fun hop => ?_
      rw [(readPty_sameSlot (d.ptys ⟨minor, hm⟩) r).opened] at hop
      exact (h ⟨minor, hm⟩ hop).step (.read r)
  · exact h

theorem openedAreOpen_firstOpen {d : Driver} (h : OpenedAreOpen d) (minor : Nat) (tty : Tty) :
    OpenedAreOpen (ptyPollInitialize d minor tty).1 := by
  unfold ptyPollInitialize
  split
  · split
    · exact h
    · refine openedAreOpen_attributes ?_ minor defaultCflag
      exact openedAreOpen_setPty h fun _ => isOpen_openPty _ tty
  · exact h

/-- A slot without a socket is not opened, so it may be given one. -/
theorem openedAreOpen_step {w : World} (ho : Owned w) (h : OpenedAreOpen w.drv)
    (e : DriverEvent) : OpenedAreOpen (step w e).drv := by
  cases e with
  | getPty fd =>
    show OpenedAreOpen (telnetGetPty w.drv fd).1
    rcases telnetGetPty_cases w.drv fd with ⟨ndx, hfree, hget⟩ | ⟨-, hget⟩
    · rw [hget]
      refine openedAreOpen_setPty h fun hop => ?_
      have hpos := ho.opened ndx hop
      omega
    · rw [hget]
      exact h
  | firstOpen minor tty => exact openedAreOpen_firstOpen h minor tty
  | lastClose minor =>
    show OpenedAreOpen (ptyShutdown w.drv minor).1
    unfold ptyShutdown
    split
    · exact openedAreOpen_setPty h fun hop => nomatch hop
    · exact h
  | pollRead minor r => exact openedAreOpen_pollRead h minor r
  | pollWrite minor buf count => exact h
  | setAttributes minor cflag => exact openedAreOpen_attributes h minor cflag
  | setWinsize minor wp =>
    exact openedAreOpen_setPty h fun hop => (h minor hop).step (.resize wp)

/-- In every run of the driver, a slot that is marked as opened is open. -/
theorem isOpen_of_legal {es : List DriverEvent} (hes : system.Legal boot es) {i : Fin maxPtys}
    (hi : ((system.exec boot es).drv.ptys i).opened = true) :
    IsOpen ((system.exec boot es).drv.ptys i) := by
  have hinv : Owned (system.exec boot es) ∧ OpenedAreOpen (system.exec boot es).drv := by
    refine Guarded.invariant (I := fun w => Owned w ∧ OpenedAreOpen w.drv) ?_
      ⟨owned_boot, fun _ h => nomatch h⟩ hes
    intro w e h hg
    exact ⟨step_owned w e h.1 hg, openedAreOpen_step h.1 h.2 e⟩
  exact hinv.2 i hi

end SsrlApps.Telnetd
