/-
  The pseudo-terminal slot of telnetd/pty.c and its byte-at-a-time telnet decoder.

  Model. A slot is the source's `struct pty_tt`, field by field. `readPty` is `read_pty`:
  the outcome of its `read` on the socket (`ReadResult`) is the input, and it answers with
  its return value and the system calls it makes (`Reply`). `iac_mode` is a 32-bit word,
  so the shifted nested mode `(IAC_SB << 8) | IAC_ESC` is the source's own word; `last_cr`
  and `opened` are used as truth values only and are `Bool`. The `switch` on the low byte
  of the old mode is cut into one definition for each of its cases.

  The terminal `ttyp` belongs to termios. Only `cindex`, `ccount` and `c_cc[VEOF]` are
  used, and only at end of file on an opened slot.
-/
import Mathlib.Algebra.Order.Ring.Nat

namespace SsrlApps.Telnetd

/-! ## Telnet bytes -/

def iacEsc : UInt8 := 255
def iacDont : UInt8 := 254
def iacDo : UInt8 := 253
def iacWont : UInt8 := 252
def iacWill : UInt8 := 251
def iacSb : UInt8 := 250
def iacGa : UInt8 := 249
def iacEl : UInt8 := 248
def iacEc : UInt8 := 247
def iacAyt : UInt8 := 246
def iacAo : UInt8 := 245
def iacIp : UInt8 := 244
def iacBrk : UInt8 := 243
def iacDmark : UInt8 := 242
def iacNop : UInt8 := 241
def iacSe : UInt8 := 240
def iacEor : UInt8 := 239

/-- The four negotiation verbs. -/
def IsVerb (value : UInt8) : Prop :=
  value = iacDont ∨ value = iacDo ∨ value = iacWont ∨ value = iacWill

instance : DecidablePred IsVerb := fun _ => inferInstanceAs (Decidable (_ ∨ _))

/-- `'\r'` -/
def cr : UInt8 := 13

/-- `'\n'` -/
def lf : UInt8 := 10

def sbMax : Nat := 16

def ascii (s : String) : List UInt8 := s.toList.map fun c => c.toNat.toUInt8

def iacAytRsp : List UInt8 := ascii "\r\nAYT? Yes, RTEMS-SHELL is here\r\n"
def iacBrkRsp : List UInt8 := ascii "<*Break*>"
def iacIpRsp : List UInt8 := ascii "<*Interrupt*>"

/-! ## Slots -/

/-- What the driver uses of `struct rtems_termios_tty`. -/
structure Tty where
  cindex : Int
  ccount : Int
  veof : UInt8
deriving DecidableEq

/-- `struct pty_tt`. `ttyp = none` is the null pointer. -/
structure Pty where
  devname : String
  ttyp : Option Tty
  cCflag : Nat
  opened : Bool
  socket : Int
  lastCr : Bool
  iacMode : UInt32
  sbBuf : Vector UInt8 sbMax
  sbInd : Nat
  width : Nat
  height : Nat
deriving DecidableEq

/-- A slot of the static table before the first initialisation. -/
def zeroPty : Pty where
  devname := ""
  ttyp := none
  cCflag := 0
  opened := false
  socket := 0
  lastCr := false
  iacMode := 0
  sbBuf := Vector.replicate sbMax 0
  sbInd := 0
  width := 0
  height := 0

/-- The system calls the driver makes, apart from the `read` that feeds it. -/
inductive SysCall where
  | close (fd : Int)
  | setRcvTimeo (fd : Int) (sec usec : Nat)
  | write (fd : Int) (buf : List UInt8)
  | chmod (path : String) (mode : Nat)
  | chown (path : String) (uid gid : Nat)
deriving DecidableEq

/-- What `read(pty->socket, &value, 1)` returned: a negative count, 0, or one byte. -/
inductive ReadResult where
  | timeout
  | eof
  | byte (value : UInt8)
deriving DecidableEq

/-- A return value and the system calls made on the way to it. -/
structure Reply where
  ret : Int
  sys : List SysCall
deriving DecidableEq

/-! ## The decoder -/

/-- The three bytes `send_iac` writes. -/
def sendIac (pty : Pty) (mode option : UInt8) : SysCall :=
  .write pty.socket [iacEsc, mode, option]

/-- `handleSB`: option 31 is NAWS. It reads five bytes of `sb_buf`, however many of them
    the present subnegotiation has filled. -/
def handleSB (pty : Pty) : Pty :=
  if pty.sbBuf[0] = 31 then
    { pty with
      width := (pty.sbBuf[1].toNat <<< 8) + pty.sbBuf[2].toNat
      height := (pty.sbBuf[3].toNat <<< 8) + pty.sbBuf[4].toNat }
  else pty

/-- The cases of the command `switch` that only answer. -/
def iacCommand (pty : Pty) (value : UInt8) : Reply :=
  if value = iacGa then ⟨-1, []⟩
  else if value = iacEl then ⟨3, []⟩
  else if value = iacEc then ⟨8, []⟩
  else if value = iacAyt then ⟨-1, [.write pty.socket iacAytRsp]⟩
  else if value = iacAo then ⟨-1, []⟩
  else if value = iacIp then ⟨-1, [.write pty.socket iacIpRsp]⟩
  else if value = iacBrk then ⟨-1, [.write pty.socket iacBrkRsp]⟩
  else if value = iacDmark then ⟨-2, []⟩
  else if value = iacNop then ⟨-1, []⟩
  else if value = iacEor then ⟨-102, []⟩
  else ⟨-1, []⟩

/-- `case IAC_ESC` of `read_pty`: the byte behind an IAC. `omod` is the mode the slot was
    in; the slot itself is already back in mode 0. -/
def readIac (pty : Pty) (omod : UInt32) (value : UInt8) : Pty × Reply :=
  if value = iacEsc then
    -- in case this is an ESC ESC sequence in SB mode
    ({ pty with iacMode := omod >>> 8 }, ⟨iacEsc.toNat, []⟩)
  else if IsVerb value then
    ({ pty with iacMode := value.toUInt32 }, ⟨-1, []⟩)
  else if value = iacSb then
    ({ pty with iacMode := value.toUInt32, sbInd := 0 }, ⟨-100, []⟩)
  else if value = iacSe then (handleSB pty, ⟨-101, []⟩)
  else (pty, iacCommand pty value)

/-- `case IAC_SB` of `read_pty`: a byte of a subnegotiation. Bytes past `SB_MAX` are
    dropped. -/
def readSb (pty : Pty) (omod : UInt32) (value : UInt8) : Pty × Reply :=
  if value = iacEsc then
    ({ pty with iacMode := (omod <<< 8) ||| value.toUInt32 }, ⟨-1, []⟩)
  else if h : pty.sbInd < sbMax then
    ({ pty with iacMode := omod, sbBuf := pty.sbBuf.set pty.sbInd value h,
                sbInd := pty.sbInd + 1 }, ⟨-1, []⟩)
  else ({ pty with iacMode := omod }, ⟨-1, []⟩)

/-- `case IAC_WILL`: LINEMODE (34) is refused and ECHO (1) asked for, NAWS (31) is
    accepted, anything else refused. -/
def readWill (pty : Pty) (value : UInt8) : List SysCall :=
  if value = 34 then [sendIac pty iacDont 34, sendIac pty iacDo 1]
  else if value = 31 then [sendIac pty iacDo 31]
  else [sendIac pty iacDont value]

/-- `case IAC_DO`: 3 is GO AHEAD, 1 is ECHO. -/
def readDo (pty : Pty) (value : UInt8) : List SysCall :=
  if value = 3 then [sendIac pty iacWill 3]
  else if value = 1 then []
  else [sendIac pty iacWont value]

/-- `case IAC_WONT` -/
def readWont (pty : Pty) (value : UInt8) : List SysCall :=
  if value = 1 then [sendIac pty iacWill 1] else [sendIac pty iacWont value]

/-- The `default` case of `read_pty`: a byte of plain data, or the start of a command.
    CR LF is passed through; CR NUL is mapped to CR. -/
def readData (pty : Pty) (value : UInt8) : Pty × Reply :=
  if value = iacEsc then ({ pty with iacMode := value.toUInt32 }, ⟨-1, []⟩)
  else
    ({ pty with lastCr := value == cr },
      ⟨if value = 0 ∧ pty.lastCr = true then -1 else value.toNat, []⟩)

/-- `read_pty`. At end of file termios is made to return a read count of 0, by setting
    `cindex` past `ccount`; a null `ttyp` is left alone here (the source would write
    through it, but termios reads opened slots only). -/
def readPty (pty : Pty) : ReadResult → Pty × Reply
  | .timeout => (pty, ⟨-1, []⟩)
  | .eof =>
    match pty.ttyp with
    | some tty =>
      ({ pty with ttyp := some { tty with cindex := tty.ccount + 1 } }, ⟨tty.veof.toNat, []⟩)
    | none => (pty, ⟨-1, []⟩)
  | .byte value =>
    let omod := pty.iacMode
    let pty := { pty with iacMode := 0 }
    if omod &&& 0xff = iacEsc.toUInt32 then readIac pty omod value
    else if omod &&& 0xff = iacSb.toUInt32 then readSb pty omod value
    else if omod &&& 0xff = iacWill.toUInt32 then (pty, ⟨-1, readWill pty value⟩)
    else if omod &&& 0xff = iacDont.toUInt32 then (pty, ⟨-1, []⟩)
    else if omod &&& 0xff = iacDo.toUInt32 then (pty, ⟨-1, readDo pty value⟩)
    else if omod &&& 0xff = iacWont.toUInt32 then (pty, ⟨-1, readWont pty value⟩)
    else readData pty value

/-! ## One byte, by mode -/

/-- The mode inside a subnegotiation, behind an IAC: `(IAC_SB << 8) | IAC_ESC`. -/
def sbEscMode : UInt32 := (iacSb.toUInt32 <<< 8) ||| iacEsc.toUInt32

theorem sbEscMode_shift : sbEscMode >>> 8 = iacSb.toUInt32 := by decide

theorem readPty_idle (pty : Pty) (h : pty.iacMode = 0) (value : UInt8) :
    readPty pty (.byte value) = readData { pty with iacMode := 0 } value := by
  unfold readPty
  rw [h]
  rfl

theorem readPty_iac (pty : Pty) (h : pty.iacMode = iacEsc.toUInt32) (value : UInt8) :
    readPty pty (.byte value) = readIac { pty with iacMode := 0 } iacEsc.toUInt32 value := by
  unfold readPty
  rw [h]
  rfl

theorem readPty_sb (pty : Pty) (h : pty.iacMode = iacSb.toUInt32) (value : UInt8) :
    readPty pty (.byte value) = readSb { pty with iacMode := 0 } iacSb.toUInt32 value := by
  unfold readPty
  rw [h]
  rfl

theorem readPty_sbEsc (pty : Pty) (h : pty.iacMode = sbEscMode) (value : UInt8) :
    readPty pty (.byte value) = readIac { pty with iacMode := 0 } sbEscMode value := by
  unfold readPty
  rw [h]
  rfl

/-- In the four negotiation modes the byte is the option: it is answered and absorbed,
    whatever it is. -/
theorem readPty_verb (pty : Pty) {verb : UInt8} (hv : IsVerb verb)
    (h : pty.iacMode = verb.toUInt32) (value : UInt8) :
    ∃ sys, readPty pty (.byte value) = ({ pty with iacMode := 0 }, ⟨-1, sys⟩) := by
  unfold readPty
  rw [h]
  rcases hv with rfl | rfl | rfl | rfl <;> exact ⟨_, rfl⟩

/-! ## What the decoder leaves alone -/

section Frame

variable (pty : Pty) (r : ReadResult)

/-- The decoder keeps the slot's identity: only the parser fields, the window size and
    the terminal's cursor can change. -/
structure SameSlot (p q : Pty) : Prop where
  devname : p.devname = q.devname
  opened : p.opened = q.opened
  socket : p.socket = q.socket
  cCflag : p.cCflag = q.cCflag

theorem sameSlot_refl (p : Pty) : SameSlot p p := ⟨rfl, rfl, rfl, rfl⟩

theorem handleSB_sameSlot : SameSlot (handleSB pty) pty := by
  unfold handleSB
  split <;> exact ⟨rfl, rfl, rfl, rfl⟩

/-- Both branches of a test keep the slot's identity. -/
theorem sameSlot_ite {c : Prop} [Decidable c] {a b : Pty × Reply} {p : Pty}
    (ha : SameSlot a.1 p) (hb : SameSlot b.1 p) : SameSlot (if c then a else b).1 p := by
  split
  · exact ha
  · exact hb

theorem readIac_sameSlot (omod : UInt32) (value : UInt8) :
    SameSlot (readIac pty omod value).1 pty := by
  unfold readIac
  repeat' apply sameSlot_ite
  all_goals first | exact ⟨rfl, rfl, rfl, rfl⟩ | exact handleSB_sameSlot pty

theorem readSb_sameSlot (omod : UInt32) (value : UInt8) :
    SameSlot (readSb pty omod value).1 pty := by
  unfold readSb
  repeat' split
  all_goals exact ⟨rfl, rfl, rfl, rfl⟩

theorem readData_sameSlot (value : UInt8) : SameSlot (readData pty value).1 pty := by
  unfold readData
  split <;> exact ⟨rfl, rfl, rfl, rfl⟩

theorem readPty_sameSlot : SameSlot (readPty pty r).1 pty := by
  cases r with
  | timeout => exact sameSlot_refl pty
  | eof =>
    unfold readPty
    cases pty.ttyp <;> exact ⟨rfl, rfl, rfl, rfl⟩
  | byte value =>
    unfold readPty
    dsimp only
    have reset : ∀ p : Pty, SameSlot p { pty with iacMode := 0 } → SameSlot p pty :=
      fun _ h => ⟨h.devname, h.opened, h.socket, h.cCflag⟩
    refine sameSlot_ite (reset _ (readIac_sameSlot _ _ _)) ?_
    refine sameSlot_ite (reset _ (readSb_sameSlot _ _ _)) ?_
    -- the four negotiation modes
    refine sameSlot_ite ⟨rfl, rfl, rfl, rfl⟩ ?_
    refine sameSlot_ite ⟨rfl, rfl, rfl, rfl⟩ ?_
    refine sameSlot_ite ⟨rfl, rfl, rfl, rfl⟩ ?_
    refine sameSlot_ite ⟨rfl, rfl, rfl, rfl⟩ ?_
    exact reset _ (readData_sameSlot _ _)

/-- The decoder only ever writes, and only to the slot's own socket. -/
def WritesTo (socket : Int) (sys : List SysCall) : Prop :=
  ∀ c ∈ sys, ∃ buf, c = .write socket buf

theorem writesTo_nil (socket : Int) : WritesTo socket [] := by
  intro c hc
  cases hc

theorem writesTo_one (socket : Int) (buf : List UInt8) :
    WritesTo socket [.write socket buf] := by
  intro c hc
  exact ⟨buf, List.mem_singleton.mp hc⟩

/-- Both branches of a test write to the socket only. -/
theorem writesTo_ite {c : Prop} [Decidable c] {a b : Reply} {socket : Int}
    (ha : WritesTo socket a.sys) (hb : WritesTo socket b.sys) :
    WritesTo socket (if c then a else b).sys := by
  split
  · exact ha
  · exact hb

theorem iacCommand_writes (value : UInt8) :
    WritesTo pty.socket (iacCommand pty value).sys := by
  unfold iacCommand
  repeat' apply writesTo_ite
  all_goals first | exact writesTo_nil _ | exact writesTo_one _ _

theorem writesTo_branch {c : Prop} [Decidable c] {a b : Pty × Reply} {socket : Int}
    (ha : WritesTo socket a.2.sys) (hb : WritesTo socket b.2.sys) :
    WritesTo socket (if c then a else b).2.sys := by
  split
  · exact ha
  · exact hb

theorem readIac_writes (omod : UInt32) (value : UInt8) :
    WritesTo pty.socket (readIac pty omod value).2.sys := by
  unfold readIac
  repeat' split
  all_goals first | exact writesTo_nil _ | exact iacCommand_writes pty value

theorem readWill_writes (value : UInt8) : WritesTo pty.socket (readWill pty value) := by
  unfold readWill
  repeat' split
  · intro c hc
    rcases List.mem_cons.mp hc with rfl | hc
    · exact ⟨_, rfl⟩
    · exact writesTo_one _ _ c hc
  · exact writesTo_one _ _
  · exact writesTo_one _ _

theorem readDo_writes (value : UInt8) : WritesTo pty.socket (readDo pty value) := by
  unfold readDo
  repeat' split
  all_goals first | exact writesTo_nil _ | exact writesTo_one _ _

theorem readWont_writes (value : UInt8) : WritesTo pty.socket (readWont pty value) := by
  unfold readWont
  split <;> exact writesTo_one _ _

theorem readSb_sys (omod : UInt32) (value : UInt8) : (readSb pty omod value).2.sys = [] := by
  unfold readSb
  repeat' split
  all_goals rfl

theorem readData_sys (value : UInt8) : (readData pty value).2.sys = [] := by
  unfold readData
  split <;> rfl

theorem readPty_writes : WritesTo pty.socket (readPty pty r).2.sys := by
  cases r with
  | timeout => exact writesTo_nil _
  | eof =>
    unfold readPty
    cases pty.ttyp <;> exact writesTo_nil _
  | byte value =>
    unfold readPty
    dsimp only
    refine writesTo_branch (readIac_writes { pty with iacMode := 0 } _ _) ?_
    refine writesTo_branch (by rw [readSb_sys]; exact writesTo_nil _) ?_
    refine writesTo_branch (readWill_writes { pty with iacMode := 0 } _) ?_
    refine writesTo_branch (writesTo_nil _) ?_
    refine writesTo_branch (readDo_writes { pty with iacMode := 0 } _) ?_
    refine writesTo_branch (readWont_writes { pty with iacMode := 0 } _) ?_
    rw [readData_sys]
    exact writesTo_nil _

end Frame

/-! ## What the buffer holds -/

/-- The option of the subnegotiation in `sb_buf`. -/
def sbOption (p : Pty) : UInt8 := p.sbBuf[0]

/-- The size in `sb_buf`. -/
def bufSize (p : Pty) : Nat × Nat :=
  ((p.sbBuf[1].toNat <<< 8) + p.sbBuf[2].toNat, (p.sbBuf[3].toNat <<< 8) + p.sbBuf[4].toNat)

/-- Two subnegotiation buffers that the present slot cannot tell apart: `handleSB` reads
    bytes 1 to 4 and whether byte 0 is 31. Before the first byte is stored, byte 0 may
    differ even in that, if the window it would set is the one that is set already. -/
def BufAlike (p : Pty) (buf : Vector UInt8 sbMax) : Prop :=
  p.sbBuf[1] = buf[1] ∧ p.sbBuf[2] = buf[2] ∧ p.sbBuf[3] = buf[3] ∧ p.sbBuf[4] = buf[4] ∧
    ((p.sbBuf[0] = 31 ↔ buf[0] = 31) ∨
      (p.sbInd = 0 ∧ p.width = 0 ∧ p.height = 0 ∧
        p.sbBuf[1] = 0 ∧ p.sbBuf[2] = 0 ∧ p.sbBuf[3] = 0 ∧ p.sbBuf[4] = 0))

/-- The same residue, as far as a new connection can tell. -/
def SameResidue (p q : Pty) : Prop :=
  p.lastCr = q.lastCr ∧
  p.sbBuf[1] = q.sbBuf[1] ∧ p.sbBuf[2] = q.sbBuf[2] ∧
  p.sbBuf[3] = q.sbBuf[3] ∧ p.sbBuf[4] = q.sbBuf[4] ∧
  ((p.sbBuf[0] = 31 ↔ q.sbBuf[0] = 31) ∨
    (p.sbBuf[1] = 0 ∧ p.sbBuf[2] = 0 ∧ p.sbBuf[3] = 0 ∧ p.sbBuf[4] = 0))

end SsrlApps.Telnetd
