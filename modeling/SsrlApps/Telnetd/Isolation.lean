/-
  What a PTY slot remembers of an earlier connection.

  A new connection gets a free slot from `telnet_get_pty` and is opened by
  `ptyPollInitialize`, which resets the parser mode, `sb_ind` and the window size. It
  resets neither `last_cr` nor `sb_buf`: what earlier connections left there is the
  `residue` of the slot.

  `observe` is everything the new connection can show: for each read the return value of
  `ptyPollRead`, the bytes it writes to the socket, and the window size that TIOCGWINSZ
  reports afterwards. Two histories are isolated from the new connection when `observe`
  is the same behind both, for every list of reads.

  Proved:
  * `readPty_alike`: slots that differ in the residue only, and in a part of it that
    cannot matter any more, answer alike and stay so.
  * `sameResidue_of_observe`: three short inputs tell any two other slots apart.
  * `observe_iff`: the new connection cannot tell two histories apart exactly when they
    left the same residue (`SameResidue`).
-/
import SsrlApps.Telnetd.Driver
import SsrlApps.Telnetd.Subneg

namespace SsrlApps.Telnetd

open Transducer

/-! ## The new connection -/

/-- A read of device `minor`, and the window size behind it. -/
def readStep (minor : Fin maxPtys) (d : Driver) (r : ReadResult) :
    Driver × Reply × Winsize :=
  let result := ptyPollRead d minor r
  (result.1, result.2, getWinsize result.1 minor)

/-- What the connection on device `minor` shows while it reads `rs`. -/
def observe (minor : Fin maxPtys) (d : Driver) (rs : List ReadResult) :
    List (Reply × Winsize) :=
  emits (readStep minor) d rs

/-- A socket is assigned and the device opened. -/
def newSession (d : Driver) (minor : Fin maxPtys) (fd : Int) (tty : Tty) : Driver :=
  (ptyPollInitialize (telnetGetPty d fd).1 minor tty).1

/-- The slot of a new session. -/
def freshPty (pty : Pty) (fd : Int) (tty : Tty) : Pty :=
  { openPty { pty with socket := fd } tty with cCflag := defaultCflag }

theorem ptyName_inj {i j : Fin maxPtys} (h : ptyName i = ptyName j) : i = j := by
  revert i j
  decide

theorem newSession_slot {w : World} (ho : Owned w) {minor : Fin maxPtys} {fd : Int}
    (hfd : 0 ≤ fd) (tty : Tty)
    (hget : (telnetGetPty w.drv fd).2.1 = some (ptyName minor)) :
    (newSession w.drv minor fd tty).ptys minor = freshPty (w.drv.ptys minor) fd tty := by
  rcases telnetGetPty_cases w.drv fd with ⟨ndx, -, hcall⟩ | ⟨-, hcall⟩
  · rw [hcall] at hget
    have hname : ptyName ndx = ptyName minor := by
      rw [← ho.names ndx]
      exact Option.some.inj hget
    have hndx : ndx = minor := ptyName_inj hname
    subst hndx
    have hsock : ((w.drv.setPty ndx { w.drv.ptys ndx with socket := fd }).ptys ndx).socket = fd := by
      rw [setPty_self]
    unfold newSession
    rw [hcall, ptyPollInitialize_slot (hsock.symm ▸ hfd) tty, setPty_self]
    rfl
  · rw [hcall] at hget
    cases hget

/-! ## Slots that answer alike -/

/-- `q` is `p` with another buffer that `p` cannot tell apart. -/
def Alike (p q : Pty) : Prop := ∃ buf, q = { p with sbBuf := buf } ∧ BufAlike p buf

theorem bufAlike_set {p : Pty} {buf : Vector UInt8 sbMax} (h : BufAlike p buf)
    (hlt : p.sbInd < sbMax) (value : UInt8) (mode : UInt32) :
    BufAlike { p with iacMode := mode, sbBuf := p.sbBuf.set p.sbInd value hlt,
                      sbInd := p.sbInd + 1 } (buf.set p.sbInd value hlt) := by
  obtain ⟨h1, h2, h3, h4, h0⟩ := h
  have hkeep : ∀ j, (hj : j < sbMax) → p.sbBuf[j] = buf[j] →
      (p.sbBuf.set p.sbInd value hlt)[j] = (buf.set p.sbInd value hlt)[j] := by
    intro j hj he
    rw [Vector.getElem_set, Vector.getElem_set, he]
  refine ⟨hkeep 1 _ h1, hkeep 2 _ h2, hkeep 3 _ h3, hkeep 4 _ h4, Or.inl ?_⟩
  dsimp only
  rw [Vector.getElem_set, Vector.getElem_set]
  by_cases hz : p.sbInd = 0
  · rw [if_pos hz, if_pos hz]
  · rw [if_neg hz, if_neg hz]
    exact h0.resolve_right fun hr => hz hr.1

theorem handleSB_alike {p q : Pty} (h : Alike p q) : Alike (handleSB p) (handleSB q) := by
  obtain ⟨buf, rfl, hb⟩ := h
  obtain ⟨h1, h2, h3, h4, h0⟩ := hb
  unfold handleSB
  dsimp only
  by_cases hp : p.sbBuf[0] = 31 <;> by_cases hq : buf[0] = 31
  · rw [if_pos hp, if_pos hq]
    refine ⟨buf, by rw [h1, h2, h3, h4], h1, h2, h3, h4, Or.inl ?_⟩
    dsimp only
    rw [hp, hq]
  · -- only `p` sets the window, but to 0 x 0, where it is
    obtain ⟨hi, hw, hh, z1, z2, z3, z4⟩ := h0.resolve_left fun hiff => hq (hiff.mp hp)
    have hz : (((0 : UInt8).toNat <<< 8) + (0 : UInt8).toNat) = 0 := rfl
    rw [if_pos hp, if_neg hq]
    refine ⟨buf, ?_, h1, h2, h3, h4, Or.inr ⟨hi, ?_, ?_, z1, z2, z3, z4⟩⟩
    · rw [z1, z2, z3, z4, hz, ← hw]
      rw [hw, ← hh]
    · rw [z1, z2, hz]
    · rw [z3, z4, hz]
  · obtain ⟨hi, hw, hh, z1, z2, z3, z4⟩ := h0.resolve_left fun hiff => hp (hiff.mpr hq)
    have hz : (((0 : UInt8).toNat <<< 8) + (0 : UInt8).toNat) = 0 := rfl
    rw [if_neg hp, if_pos hq]
    refine ⟨buf, ?_, h1, h2, h3, h4, Or.inr ⟨hi, hw, hh, z1, z2, z3, z4⟩⟩
    rw [← h1, ← h2, ← h3, ← h4, z1, z2, z3, z4, hz, hw, hh]
  · rw [if_neg hp, if_neg hq]
    exact ⟨buf, rfl, h1, h2, h3, h4, h0⟩

theorem readIac_alike {p q : Pty} (h : Alike p q) (omod : UInt32) (value : UInt8) :
    (readIac p omod value).2 = (readIac q omod value).2 ∧
      Alike (readIac p omod value).1 (readIac q omod value).1 := by
  have hSB := handleSB_alike h
  obtain ⟨buf, rfl, hb⟩ := h
  unfold readIac
  split
  · exact ⟨rfl, buf, rfl, hb⟩
  · split
    · exact ⟨rfl, buf, rfl, hb⟩
    · split
      · obtain ⟨h1, h2, h3, h4, h0⟩ := hb
        refine ⟨rfl, buf, rfl, h1, h2, h3, h4, ?_⟩
        rcases h0 with h0 | ⟨-, hz⟩
        · exact Or.inl h0
        · exact Or.inr ⟨rfl, hz⟩
      · split
        · exact ⟨rfl, hSB⟩
        · exact ⟨rfl, buf, rfl, hb⟩

theorem readSb_alike {p q : Pty} (h : Alike p q) (omod : UInt32) (value : UInt8) :
    (readSb p omod value).2 = (readSb q omod value).2 ∧
      Alike (readSb p omod value).1 (readSb q omod value).1 := by
  obtain ⟨buf, rfl, hb⟩ := h
  unfold readSb
  split
  · exact ⟨rfl, buf, rfl, hb⟩
  · split
    · next hlt => exact ⟨rfl, _, rfl, bufAlike_set hb hlt value omod⟩
    · exact ⟨rfl, buf, rfl, hb⟩

theorem readData_alike {p q : Pty} (h : Alike p q) (value : UInt8) :
    (readData p value).2 = (readData q value).2 ∧
      Alike (readData p value).1 (readData q value).1 := by
  obtain ⟨buf, rfl, hb⟩ := h
  unfold readData
  split
  · exact ⟨rfl, buf, rfl, hb⟩
  · exact ⟨rfl, buf, rfl, hb⟩

/-- One read: slots that are alike answer the same and stay alike. -/
theorem readPty_alike {p q : Pty} (h : Alike p q) (r : ReadResult) :
    (readPty p r).2 = (readPty q r).2 ∧ Alike (readPty p r).1 (readPty q r).1 := by
  cases r with
  | timeout => exact ⟨rfl, h⟩
  | eof =>
    obtain ⟨buf, rfl, hb⟩ := h
    unfold readPty
    dsimp only
    cases ht : p.ttyp with
    | none => exact ⟨rfl, buf, by dsimp only; rw [← ht], hb⟩
    | some tty => exact ⟨rfl, buf, rfl, hb⟩
  | byte value =>
    obtain ⟨buf, rfl, hb⟩ := h
    have hreset : Alike { p with iacMode := 0 } { p with iacMode := 0, sbBuf := buf } :=
      ⟨buf, rfl, hb⟩
    unfold readPty
    dsimp only
    split
    · exact readIac_alike hreset _ _
    · split
      · exact readSb_alike hreset _ _
      · split
        · exact ⟨rfl, hreset⟩
        · split
          · exact ⟨rfl, hreset⟩
          · split
            · exact ⟨rfl, hreset⟩
            · split
              · exact ⟨rfl, hreset⟩
              · exact readData_alike hreset _

/-! ## From the driver to the slot -/

def winsizeOf (pty : Pty) : Winsize := ⟨pty.height.toUInt16, pty.width.toUInt16⟩

/-- A read at the slot, with the window size behind it. -/
def slotStep (pty : Pty) (r : ReadResult) : Pty × Reply × Winsize :=
  let result := readPty pty r
  (result.1, result.2, winsizeOf result.1)

theorem observe_slot (minor : Fin maxPtys) (d : Driver) (h : 0 ≤ (d.ptys minor).socket)
    (rs : List ReadResult) : observe minor d rs = emits slotStep (d.ptys minor) rs := by
  induction rs generalizing d with
  | nil => rfl
  | cons r rs ih =>
    have hneg : ¬ (d.ptys minor).socket < 0 := by omega
    have hstep : ptyPollRead d minor r =
        (d.setPty minor (readPty (d.ptys minor) r).1, (readPty (d.ptys minor) r).2) := by
      unfold ptyPollRead
      simp only [minor.isLt, dite_true, Fin.eta, hneg, if_false]
    have hsock : 0 ≤ ((d.setPty minor (readPty (d.ptys minor) r).1).ptys minor).socket := by
      rw [setPty_self, (readPty_sameSlot _ r).socket]
      exact h
    have hrest := ih (d.setPty minor (readPty (d.ptys minor) r).1) hsock
    rw [setPty_self] at hrest
    unfold observe at hrest ⊢
    rw [emits_cons, emits_cons]
    simp only [readStep, hstep, slotStep, hrest]
    simp only [getWinsize, winsizeOf, setPty_self]

theorem emits_alike {p q : Pty} (h : Alike p q) (rs : List ReadResult) :
    emits slotStep p rs = emits slotStep q rs := by
  refine emits_congr ?_ h rs
  intro p q r hpq
  obtain ⟨hreply, halike⟩ := readPty_alike hpq r
  refine ⟨?_, halike⟩
  have hwin : winsizeOf (readPty p r).1 = winsizeOf (readPty q r).1 := by
    obtain ⟨buf, he, -⟩ := halike
    rw [he]
    rfl
  simp only [slotStep, hreply, hwin]

/-! ## Telling two slots apart -/

theorem alike_freshPty {p q : Pty} (hname : p.devname = q.devname) (h : SameResidue p q)
    (fd : Int) (tty : Tty) : Alike (freshPty p fd tty) (freshPty q fd tty) := by
  obtain ⟨hcr, h1, h2, h3, h4, h0⟩ := h
  refine ⟨q.sbBuf, ?_, h1, h2, h3, h4, ?_⟩
  · simp only [freshPty, openPty, hname, hcr]
  · rcases h0 with h0 | hz
    · exact Or.inl h0
    · exact Or.inr ⟨rfl, rfl, rfl, hz⟩

/-- The last window size that `slotStep` shows is the one in the final slot. -/
theorem winsize_emits (p : Pty) (rs : List ReadResult) (hrs : rs ≠ []) :
    (emits slotStep p rs).getLast?.map Prod.snd = some (winsizeOf (after readPty p rs)) := by
  induction rs generalizing p with
  | nil => exact absurd rfl hrs
  | cons r rs ih =>
    cases rs with
    | nil => rfl
    | cons r' rs =>
      have hrest := ih (readPty p r).1 (List.cons_ne_nil r' rs)
      rw [emits_cons, after_cons, ← hrest, emits_cons, List.getLast?_cons_cons]
      rfl

theorem winsizeOf_after {p q : Pty} {rs : List ReadResult} (hrs : rs ≠ [])
    (h : emits slotStep p rs = emits slotStep q rs) :
    winsizeOf (after readPty p rs) = winsizeOf (after readPty q rs) := by
  have hp := winsize_emits p rs hrs
  have hq := winsize_emits q rs hrs
  rw [h, hq, Option.some.injEq] at hp
  exact hp.symm

theorem word_inj {a b c d : UInt8}
    (h : ((a.toNat <<< 8) + b.toNat).toUInt16 = ((c.toNat <<< 8) + d.toNat).toUInt16) :
    a = c ∧ b = d := by
  have ha := a.toNat_lt
  have hb := b.toNat_lt
  have hc := c.toNat_lt
  have hd := d.toNat_lt
  have hn := congrArg UInt16.toNat h
  simp only [Nat.toUInt16, UInt16.toNat_ofNat', Nat.shiftLeft_eq] at hn
  have hac : a.toNat = c.toNat := by omega
  have hbd : b.toNat = d.toNat := by omega
  exact ⟨UInt8.toNat_inj.mp hac, UInt8.toNat_inj.mp hbd⟩

/-- A one-byte NAWS subnegotiation sets the window from four stale bytes. -/
theorem winsize_shortNaws (p : Pty) (hm : p.iacMode = 0) :
    winsizeOf (after readPty p (bytes (subneg [31]))) =
      ⟨((p.sbBuf[3].toNat <<< 8) + p.sbBuf[4].toNat).toUInt16,
        ((p.sbBuf[1].toNat <<< 8) + p.sbBuf[2].toNat).toUInt16⟩ := by
  obtain ⟨-, hafter, -⟩ := read_subneg p hm [31]
  rw [hafter, after_payload { p with iacMode := iacSb.toUInt32, sbInd := 0 } rfl [31] (by decide)]
  have hstore : [31].foldl sbStore { p with iacMode := iacSb.toUInt32, sbInd := 0 } =
      { p with iacMode := iacSb.toUInt32, sbBuf := p.sbBuf.set 0 31, sbInd := 1 } := rfl
  rw [hstore, handleSB]
  dsimp only
  rw [Vector.getElem_set_self, if_pos rfl, Vector.getElem_set_ne _ _ (by decide),
    Vector.getElem_set_ne _ _ (by decide), Vector.getElem_set_ne _ _ (by decide),
    Vector.getElem_set_ne _ _ (by decide)]
  rfl

/-- IAC SE outside any subnegotiation runs `handleSB` all the same. -/
theorem after_straySe (p : Pty) (hm : p.iacMode = 0) :
    after readPty p (bytes [iacEsc, iacSe]) = handleSB { p with iacMode := 0 } := by
  have h2 := readPty_iac { p with iacMode := iacEsc.toUInt32 } rfl iacSe
  simp only [bytes, List.map_cons, List.map_nil, after_cons, after_nil, readPty_iacEsc p hm, h2]
  rfl

/-- A slot with 31 in byte 0 and one without it: if a stray IAC SE cannot tell them apart,
    the stale window is the fresh one. -/
theorem stale_zero {p q : Pty} (hp : p.iacMode = 0) (hq : q.iacMode = 0)
    (hw : q.width = 0) (hh : q.height = 0) (h31 : p.sbBuf[0] = 31) (hn31 : q.sbBuf[0] ≠ 31)
    (h : emits slotStep p (bytes [iacEsc, iacSe]) = emits slotStep q (bytes [iacEsc, iacSe])) :
    p.sbBuf[1] = 0 ∧ p.sbBuf[2] = 0 ∧ p.sbBuf[3] = 0 ∧ p.sbBuf[4] = 0 := by
  have hne : bytes [iacEsc, iacSe] ≠ [] := by decide
  have hwin := winsizeOf_after hne h
  rw [after_straySe p hp, after_straySe q hq, handleSB, handleSB] at hwin
  dsimp only at hwin
  rw [if_pos h31, if_neg hn31] at hwin
  simp only [winsizeOf, hw, hh, Winsize.mk.injEq] at hwin
  have hzero : (0 : Nat).toUInt16 =
      (((0 : UInt8).toNat <<< 8) + (0 : UInt8).toNat).toUInt16 := rfl
  rw [hzero] at hwin
  exact ⟨(word_inj hwin.2).1, (word_inj hwin.2).2, (word_inj hwin.1).1, (word_inj hwin.1).2⟩

/-- Three inputs tell apart any two slots without the same residue: NUL, a NAWS
    subnegotiation of one byte, and a stray IAC SE. -/
theorem sameResidue_of_observe {p q : Pty} {fd : Int} {tty : Tty}
    (h : ∀ rs, emits slotStep (freshPty p fd tty) rs = emits slotStep (freshPty q fd tty) rs) :
    SameResidue p q := by
  have hcr : p.lastCr = q.lastCr := by
    have hnul := h [.byte 0]
    rw [emits_cons, emits_cons, List.cons.injEq] at hnul
    have hret := congrArg (fun o => o.1.ret) hnul.1
    simp only [slotStep] at hret
    rw [readPty_plain _ rfl (b := 0) (by decide), readPty_plain _ rfl (b := 0) (by decide)] at hret
    simp only [freshPty, openPty, true_and] at hret
    cases hp : p.lastCr <;> cases hq : q.lastCr <;> simp_all
  have hne : bytes (subneg [31]) ≠ [] := by decide
  have hnaws := winsizeOf_after hne (h (bytes (subneg [31])))
  rw [winsize_shortNaws (freshPty p fd tty) rfl, winsize_shortNaws (freshPty q fd tty) rfl,
    Winsize.mk.injEq] at hnaws
  obtain ⟨h1, h2⟩ := word_inj hnaws.2
  obtain ⟨h3, h4⟩ := word_inj hnaws.1
  refine ⟨hcr, h1, h2, h3, h4, ?_⟩
  have hse := h (bytes [iacEsc, iacSe])
  by_cases hp : p.sbBuf[0] = 31
  · by_cases hq : q.sbBuf[0] = 31
    · exact Or.inl (by rw [hp, hq])
    · exact Or.inr (stale_zero (p := freshPty p fd tty) (q := freshPty q fd tty)
        rfl rfl rfl rfl hp hq hse)
  · by_cases hq : q.sbBuf[0] = 31
    · have hz := stale_zero (p := freshPty q fd tty) (q := freshPty p fd tty)
        rfl rfl rfl rfl hq hp hse.symm
      exact Or.inr ⟨h1.trans hz.1, h2.trans hz.2.1, h3.trans hz.2.2.1, h4.trans hz.2.2.2⟩
    · exact Or.inl ⟨fun e => absurd e hp, fun e => absurd e hq⟩

/-! ## Two histories -/

/-- **Isolation of connections.** Behind any two histories of the driver that leave slot
    `minor` to be given to the new socket `fd`, the new connection shows the same for all
    its reads exactly when the histories left the same residue in the slot. -/
theorem observe_iff (es₁ es₂ : List DriverEvent) (h₁ : system.Legal boot es₁)
    (h₂ : system.Legal boot es₂) (minor : Fin maxPtys) (fd : Int) (hfd : 0 ≤ fd) (tty : Tty)
    (hget₁ : (telnetGetPty (system.exec boot es₁).drv fd).2.1 = some (ptyName minor))
    (hget₂ : (telnetGetPty (system.exec boot es₂).drv fd).2.1 = some (ptyName minor)) :
    (∀ rs, observe minor (newSession (system.exec boot es₁).drv minor fd tty) rs =
        observe minor (newSession (system.exec boot es₂).drv minor fd tty) rs) ↔
      SameResidue ((system.exec boot es₁).drv.ptys minor)
        ((system.exec boot es₂).drv.ptys minor) := by
  have ho₁ := owned_of_legal h₁
  have ho₂ := owned_of_legal h₂
  have hs₁ := newSession_slot ho₁ hfd tty hget₁
  have hs₂ := newSession_slot ho₂ hfd tty hget₂
  have hobs₁ := observe_slot minor (newSession (system.exec boot es₁).drv minor fd tty)
    (by rw [hs₁]; exact hfd)
  have hobs₂ := observe_slot minor (newSession (system.exec boot es₂).drv minor fd tty)
    (by rw [hs₂]; exact hfd)
  rw [hs₁] at hobs₁
  rw [hs₂] at hobs₂
  constructor
  · intro h
    have hslots : ∀ rs,
        emits slotStep (freshPty ((system.exec boot es₁).drv.ptys minor) fd tty) rs =
          emits slotStep (freshPty ((system.exec boot es₂).drv.ptys minor) fd tty) rs := by
      intro rs
      rw [← hobs₁, ← hobs₂, h]
    exact sameResidue_of_observe hslots
  · intro h rs
    rw [hobs₁, hobs₂]
    exact emits_alike (alike_freshPty ((ho₁.names minor).trans (ho₂.names minor).symm) h fd tty) rs

/-- An earlier connection on slot 0 that ended behind a CR. -/
def crHistory : List DriverEvent :=
  [.getPty 7, .firstOpen 0 ⟨0, 0, 4⟩, .pollRead 0 (.byte cr), .lastClose 0]

theorem crHistory_legal : system.Legal boot crHistory :=
  ⟨⟨by decide, rfl⟩, trivial, trivial, trivial, trivial⟩

theorem observe_iff_crHistory :
    (∀ rs, observe 0 (newSession (system.exec boot crHistory).drv 0 7 ⟨0, 0, 4⟩) rs =
        observe 0 (newSession boot.drv 0 7 ⟨0, 0, 4⟩) rs) ↔
      SameResidue ((system.exec boot crHistory).drv.ptys 0) (boot.drv.ptys 0) :=
  observe_iff crHistory [] crHistory_legal trivial 0 7 (by decide) ⟨0, 0, 4⟩ rfl rfl

/-- The NUL that a new connection sends first is lost if the last byte of the earlier one
    was a CR. -/
theorem observe_afterCr :
    ¬ ∀ (es₁ es₂ : List DriverEvent) (minor : Fin maxPtys) (fd : Int) (tty : Tty),
      system.Legal boot es₁ → system.Legal boot es₂ → 0 ≤ fd →
      (telnetGetPty (system.exec boot es₁).drv fd).2.1 = some (ptyName minor) →
      (telnetGetPty (system.exec boot es₂).drv fd).2.1 = some (ptyName minor) →
      ∀ rs, observe minor (newSession (system.exec boot es₁).drv minor fd tty) rs =
        observe minor (newSession (system.exec boot es₂).drv minor fd tty) rs := by
  intro h
  have hnul := h crHistory [] 0 7 ⟨0, 0, 4⟩ crHistory_legal trivial (by decide) rfl rfl [.byte 0]
  exact absurd hnul (by decide)

end SsrlApps.Telnetd
