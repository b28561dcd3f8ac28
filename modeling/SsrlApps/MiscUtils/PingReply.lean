/-
  When `rtems_ping_send` returns 0: what was received, and what was left in the buffer.

  Model. A datagram answers the ping (`Answers`) when it comes from the destination and
  holds, behind its IP header, an echo reply with the ping's identifier and sequence number
  and the whole pattern that was sent. The code looks at the buffer instead, where a short
  datagram is followed by zeros up to the size of the request, and then by what earlier
  datagrams left there: it can be completed (`Completed`).

  Proved:
  * `answers_iff`: a datagram answers exactly if it is not short and the buffer passes.
  * `ping_answered_iff`: a ping reported as answered was answered, exactly if no datagram of
    the call is completed.
  * `ping_answered_whole`: it was, if every datagram of the destination is long enough.
-/
import SsrlApps.MiscUtils.Ping

namespace SsrlApps.MiscUtils

open Bytes

/-! ## Answers -/

/-- The bytes of the datagram alone. -/
def Packet.mem (d : Packet) : Bytes := deliver (fun _ => 0) d.bytes

/-- The datagram is the answer to the request of `ping`. -/
structure Answers (e : Endian) (ping : RtemsPing) (d : Packet) : Prop where
  sender : d.sender = ping.dest
  whole : icmpResp d.mem + icmpMinLen + ping.payloadSize ≤ d.bytes.length
  echoReply : d.mem (icmpResp d.mem) = icmpEchoReply
  ident : load16 e d.mem (icmpResp d.mem + 4) = ping.id
  seq : load16 e d.mem (icmpResp d.mem + 6) = ping.seq % 65536
  payload : ∀ i, i < ping.payloadSize →
    d.mem (icmpResp d.mem + icmpMinLen + i) = UInt8.ofNat (0x80 + ping.seq + i)

/-- With the datagram in it, the buffer passes for an answer. -/
def Passes (e : Endian) (ping : RtemsPing) (m : Bytes) (d : Packet) : Prop :=
  isReply e ping (responseImage ping m d) d.sender = true ∧
    payloadMatches ping (responseImage ping m d) = true

/-- The datagram ends before the payload does, seen from the header in the buffer. -/
def Short (ping : RtemsPing) (m : Bytes) (d : Packet) : Prop :=
  d.bytes.length < icmpResp (responseImage ping m d) + icmpMinLen + ping.payloadSize

/-- A short datagram passes, with what `m` held in its place before. -/
def Completed (e : Endian) (ping : RtemsPing) (m : Bytes) (d : Packet) : Prop :=
  Short ping m d ∧ Passes e ping m d

/-- No datagram of the call is completed; `m` is the buffer that it finds. -/
def NoneCompleted (e : Endian) (ping : RtemsPing) : Bytes → List PingEvent → Prop
  | _, [] => True
  | m, .received d _ :: evs =>
    ¬ Completed e ping m d ∧ NoneCompleted e ping (responseImage ping m d) evs
  | m, _ :: evs => NoneCompleted e ping m evs

/-- Every datagram of the destination is as long as its IP header, the ICMP header and the
    payload together. -/
def WholeFromDest (ping : RtemsPing) (evs : List PingEvent) : Prop :=
  ∀ d now, PingEvent.received d now ∈ evs → d.sender = ping.dest →
    icmpResp d.mem + icmpMinLen + ping.payloadSize ≤ d.bytes.length

/-- Some datagram of the call answers the ping. -/
def AnsweredBy (e : Endian) (ping : RtemsPing) (evs : List PingEvent) : Prop :=
  ∃ d now, PingEvent.received d now ∈ evs ∧ Answers e ping d

/-! ## What the buffer shows -/

variable {e : Endian} {ping : RtemsPing} {m : Bytes} {d : Packet}

theorem image_inside {a : Nat} (ha : a < d.bytes.length) :
    responseImage ping m d a = d.mem a :=
  (deliver_inside _ ha).trans (deliver_inside _ ha).symm

/-- The header length is read from the datagram, unless that is empty. -/
theorem icmpResp_image (h : 0 < d.bytes.length) :
    icmpResp (responseImage ping m d) = icmpResp d.mem := by
  unfold icmpResp ipHl
  rw [image_inside h]

theorem load16_image {a : Nat} (ha : a + 1 < d.bytes.length) :
    load16 e (responseImage ping m d) a = load16 e d.mem a := by
  unfold load16
  rw [image_inside (by omega), image_inside ha]

/-- The ping's payload is the pattern of its sequence number. -/
def Prepared (e : Endian) (ping : RtemsPing) : Prop :=
  load16 e ping.rawReq 6 = ping.seq % 65536 ∧
    ∀ i, i < ping.payloadSize →
      ping.rawReq (icmpMinLen + i) = UInt8.ofNat (0x80 + ping.seq + i)

theorem prepared_request (e : Endian) (ping : RtemsPing) : Prepared e (pingRequest e ping) :=
  ⟨pingRequest_seq e ping, fun _ hi => pingRequest_data e ping hi⟩

/-- Whether a datagram is short does not depend on what the buffer held. -/
theorem short_iff : Short ping m d ↔
    d.bytes.length < icmpResp d.mem + icmpMinLen + ping.payloadSize := by
  unfold Short
  by_cases h : 0 < d.bytes.length
  · rw [icmpResp_image h]
  · unfold icmpMinLen
    omega

/-- A datagram that is not short passes by its own bytes. -/
theorem passes_iff (hp : Prepared e ping)
    (hwhole : icmpResp d.mem + icmpMinLen + ping.payloadSize ≤ d.bytes.length) :
    Passes e ping m d ↔ d.mem (icmpResp d.mem) = icmpEchoReply ∧
      load16 e d.mem (icmpResp d.mem + 4) = ping.id ∧
      load16 e d.mem (icmpResp d.mem + 6) = ping.seq % 65536 ∧ d.sender = ping.dest ∧
      ∀ i, i < ping.payloadSize →
        d.mem (icmpResp d.mem + icmpMinLen + i) = UInt8.ofNat (0x80 + ping.seq + i) := by
  obtain ⟨hseq, hdata⟩ := hp
  have hmin : icmpMinLen = 8 := rfl
  have hresp : icmpResp (responseImage ping m d) = icmpResp d.mem := icmpResp_image (by omega)
  have htype : responseImage ping m d (icmpResp d.mem) = d.mem (icmpResp d.mem) :=
    image_inside (by omega)
  unfold Passes payloadMatches
  rw [isReply_iff, hresp, htype, load16_image (by omega), load16_image (by omega), hseq,
    decide_eq_true_eq, and_assoc, and_assoc, and_assoc]
  refine and_congr_right fun htype' => and_congr_right fun _ => and_congr_right fun _ =>
    and_congr_right fun _ => ?_
  rw [payloadAt_reply (by rw [hresp, htype]; exact htype'), hresp, slice_eq_iff]
  refine forall_congr' fun i => imp_congr_right fun hi => ?_
  rw [hdata i hi, image_inside (by omega)]
  exact eq_comm

/-- A datagram answers exactly if it is not short and the buffer passes. -/
theorem answers_iff (hp : Prepared e ping) (m : Bytes) :
    Answers e ping d ↔ ¬ Short ping m d ∧ Passes e ping m d := by
  rw [short_iff, Nat.not_lt]
  constructor
  · intro ha
    exact ⟨ha.whole, (passes_iff hp ha.whole).mpr
      ⟨ha.echoReply, ha.ident, ha.seq, ha.sender, ha.payload⟩⟩
  · rintro ⟨hwhole, hpass⟩
    obtain ⟨htype, hid, hseq, hsender, hdata⟩ := (passes_iff hp hwhole).mp hpass
    exact ⟨hsender, hwhole, htype, hid, hseq, hdata⟩

theorem noneCompleted_whole {evs : List PingEvent} (h : WholeFromDest ping evs) (m : Bytes) :
    NoneCompleted e ping m evs := by
  induction evs generalizing m with
  | nil => trivial
  | cons ev evs ih =>
    have htail : WholeFromDest ping evs := fun d now hd => h d now (List.mem_cons_of_mem _ hd)
    cases ev with
    | received d now =>
      refine ⟨fun hc => ?_, ih htail _⟩
      obtain ⟨-, -, -, hsender⟩ := (isReply_iff e ping).mp hc.2.1
      exact absurd (short_iff.mp hc.1) (Nat.not_lt.mpr (h d now List.mem_cons_self hsender))
    | setsockoptFails => exact ih htail m
    | recvFails => exact ih htail m

/-! ## The call -/

theorem answeredBy_cons_other {ev : PingEvent} {evs : List PingEvent}
    (h : ∀ d now, ev = .received d now → ¬ Answers e ping d) :
    AnsweredBy e ping (ev :: evs) ↔ AnsweredBy e ping evs := by
  constructor
  · rintro ⟨d, now, hmem, ha⟩
    rcases List.mem_cons.mp hmem with heq | hmem
    · exact absurd ha (h d now heq.symm)
    · exact ⟨d, now, hmem, ha⟩
  · rintro ⟨d, now, hmem, ha⟩
    exact ⟨d, now, List.mem_cons_of_mem _ hmem, ha⟩

/-- Behind a datagram that does not pass, the loop waits on or has timed out. -/
theorem pingHead_cases (c : PingCall) (l : PingLoop) :
    (pingHead c l).rawResp = l.rawResp ∧
      ((pingHead c l).retval = some etimedout ∨ (pingHead c l).retval = l.retval) := by
  unfold pingHead
  split
  · exact ⟨rfl, Or.inl rfl⟩
  · exact ⟨rfl, Or.inr rfl⟩

/-- A reply ends the call, with 0 if the payload matches. -/
theorem answered_reply {c : PingCall} (hp : Prepared e c.ping) {l : PingLoop} {r : Int}
    {evs : List PingEvent} {now : Nat}
    (hreply : isReply e c.ping (responseImage c.ping l.rawResp d) d.sender = true)
    (hes : (pingWait e c).Legal (pingTurn e c l (.received d now)) evs)
    (hr : ((pingWait e c).exec (pingTurn e c l (.received d now)) evs).retval = some r) :
    (r = 0 → AnsweredBy e c.ping (.received d now :: evs)) ↔
      NoneCompleted e c.ping l.rawResp (.received d now :: evs) := by
  have hret : (pingTurn e c l (.received d now)).retval =
      some (if payloadMatches c.ping (responseImage c.ping l.rawResp d) then 0 else eio) := by
    rw [pingTurn_reply hreply]
  obtain rfl := ends_of_retval hret hes
  obtain rfl := Option.some.inj (hret.symm.trans hr)
  have hone : AnsweredBy e c.ping [.received d now] ↔ Answers e c.ping d := by
    constructor
    · rintro ⟨d', now', hmem, ha⟩
      obtain ⟨rfl, rfl⟩ := PingEvent.received.inj (List.mem_singleton.mp hmem)
      exact ha
    · intro ha
      exact ⟨d, now, List.mem_singleton.mpr rfl, ha⟩
  have hnone : NoneCompleted e c.ping l.rawResp [.received d now] ↔
      ¬ Completed e c.ping l.rawResp d := and_iff_left trivial
  rw [hone, hnone, answers_iff hp l.rawResp]
  cases hmatch : payloadMatches c.ping (responseImage c.ping l.rawResp d) with
  | true =>
    have hpass : Passes e c.ping l.rawResp d := ⟨hreply, hmatch⟩
    rw [if_pos rfl]
    exact ⟨fun h hc => (h rfl).1 hc.1, fun h _ => ⟨fun hs => h ⟨hs, hpass⟩, hpass⟩⟩
  | false =>
    rw [if_neg Bool.false_ne_true]
    refine iff_of_true (fun h => absurd h (by decide)) fun hc => ?_
    have hpass := hc.2.2
    rw [hmatch] at hpass
    exact Bool.false_ne_true hpass

theorem answered_run {c : PingCall} (hp : Prepared e c.ping) {l : PingLoop} {r : Int}
    {evs : List PingEvent} (hl : l.retval = none) (hes : (pingWait e c).Legal l evs)
    (hr : ((pingWait e c).exec l evs).retval = some r) :
    (r = 0 → AnsweredBy e c.ping evs) ↔ NoneCompleted e c.ping l.rawResp evs := by
  induction evs generalizing l with
  | nil =>
    rw [show l.retval = some r from hr] at hl
    cases hl
  | cons ev evs ih =>
    have hrun : ((pingWait e c).exec (pingTurn e c l ev) evs).retval = some r := hr
    have hrest : (pingWait e c).Legal (pingTurn e c l ev) evs := hes.2
    cases ev with
    | setsockoptFails =>
      obtain rfl := ends_of_retval rfl hrest
      obtain rfl : -1 = r := Option.some.inj hrun
      exact iff_of_true (fun h => absurd h (by decide)) trivial
    | recvFails =>
      obtain rfl := ends_of_retval rfl hrest
      obtain rfl : etimedout = r := Option.some.inj hrun
      exact iff_of_true (fun h => absurd h (by decide)) trivial
    | received d now =>
      cases hreply : isReply e c.ping (responseImage c.ping l.rawResp d) d.sender with
      | true => exact answered_reply hp hreply hrest hrun
      | false =>
        have hno : ¬ Passes e c.ping l.rawResp d :=
          fun h => Bool.false_ne_true (hreply.symm.trans h.1)
        rw [pingTurn_foreign hreply] at hrest hrun
        have hfirst : ∀ d' now', PingEvent.received d now = .received d' now' →
            ¬ Answers e c.ping d' := by
          intro d' now' heq ha
          obtain ⟨rfl, rfl⟩ := PingEvent.received.inj heq
          exact hno ((answers_iff hp l.rawResp).mp ha).2
        have hresp : NoneCompleted e c.ping l.rawResp (.received d now :: evs) ↔
            NoneCompleted e c.ping (responseImage c.ping l.rawResp d) evs :=
          and_iff_right fun h => hno h.2
        rw [answeredBy_cons_other hfirst, hresp]
        obtain ⟨hraw, hover | hwait⟩ := pingHead_cases c (storeResponse e c l d now)
        · obtain rfl := ends_of_retval hover hrest
          obtain rfl := Option.some.inj (hover.symm.trans hrun)
          exact iff_of_true (fun h => absurd h (by decide)) trivial
        · have htail := ih (hwait.trans hl) hrest hrun
          rw [hraw] at htail
          exact htail

/-- A call times out at once, or comes to its loop. -/
theorem pingSends_cases {tps sendTime : Nat} {evs : List PingEvent} {r : Int}
    (h : PingSends e (some ping) tps sendTime evs r) :
    (evs = [] ∧ r = etimedout) ∨ ∃ l : PingLoop, l.rawResp = (pingRequest e ping).rawResp ∧
      l.retval = none ∧ (pingWait e (pingCall e ping tps sendTime)).Legal l evs ∧
      ((pingWait e (pingCall e ping tps sendTime)).exec l evs).retval = some r := by
  obtain ⟨hes, hr⟩ := h
  obtain ⟨hraw, hover | hwait⟩ := pingHead_cases (pingCall e ping tps sendTime)
    ⟨sendTime, (pingRequest e ping).rawResp, none, requestActs (pingRequest e ping), none⟩
  · obtain rfl := ends_of_retval hover hes
    exact Or.inl ⟨rfl, (Option.some.inj (hover.symm.trans hr)).symm⟩
  · exact Or.inr ⟨_, hraw, hwait, hes, hr⟩

/-- A ping reported as answered was answered, if every datagram of the destination is long
    enough, whatever the buffer holds. -/
theorem ping_answered_whole {tps sendTime : Nat} {evs : List PingEvent}
    (h : PingSends e (some ping) tps sendTime evs 0)
    (hwhole : WholeFromDest (pingRequest e ping) evs) :
    AnsweredBy e (pingRequest e ping) evs := by
  rcases pingSends_cases h with ⟨-, hr⟩ | ⟨l, -, hl, hes, hr⟩
  · exact absurd hr (by decide)
  · have hp := prepared_request e ping
    have hrun := answered_run (c := pingCall e ping tps sendTime) hp hl hes hr
    exact hrun.mpr (noneCompleted_whole hwhole _) rfl

/-- **A ping reported as answered was answered**, exactly if no datagram of the call is
    completed by what the buffer held. The buffer that the call finds, `ping.rawResp`, is
    what the calls before left. -/
theorem ping_answered_iff (e : Endian) (ping : RtemsPing) (tps sendTime : Nat)
    {evs : List PingEvent} {r : Int} (h : PingSends e (some ping) tps sendTime evs r) :
    (r = 0 → AnsweredBy e (pingRequest e ping) evs) ↔
      NoneCompleted e (pingRequest e ping) ping.rawResp evs := by
  rcases pingSends_cases h with ⟨rfl, rfl⟩ | ⟨l, hraw, hl, hes, hr⟩
  · exact iff_of_true (fun h => absurd h (by decide)) trivial
  · have hp := prepared_request e ping
    have hrun := answered_run (c := pingCall e ping tps sendTime) hp hl hes hr
    rw [hraw] at hrun
    exact hrun

/-- The reply to the first request of `standardPing`, without a sender. -/
def firstReply : List UInt8 :=
  0x45 :: List.replicate 19 0 ++ [0, 0, 0, 0, 0x56, 0x78, 0, 1] ++
    (List.range 56).map fun i => UInt8.ofNat (0x81 + i)

/-- It comes from 10.0.0.1. -/
theorem ping_answered_iff_standard :
    AnsweredBy .big (pingRequest .big standardPing)
      [.received ⟨⟨10, 0, 0, 1⟩, firstReply⟩ 1] := by
  have hsends : PingSends .big (some standardPing) 100 0
      [.received ⟨⟨10, 0, 0, 1⟩, firstReply⟩ 1] 0 :=
    ⟨⟨⟨by decide +kernel, by decide +kernel, by decide⟩, trivial⟩, by decide +kernel⟩
  refine (ping_answered_iff .big standardPing 100 0 hsends).mpr ⟨fun h => ?_, trivial⟩ rfl
  exact absurd (short_iff.mp h.1) (by decide +kernel)

/-- It comes from 10.0.0.2, and its first 64 bytes then from 10.0.0.1. -/
theorem ping_completed :
    rtemsPingOpen .big 0x0a000001 none ⟨some 0x12345678, true, true, 0, 5⟩ = some standardPing ∧
      PingSends .big (some standardPing) 100 0
        [.received ⟨⟨10, 0, 0, 2⟩, firstReply⟩ 1,
          .received ⟨⟨10, 0, 0, 1⟩, firstReply.take 64⟩ 2] 0 ∧
      ¬ ∀ e ping tps sendTime evs, PingSends e (some ping) tps sendTime evs 0 →
        AnsweredBy e (pingRequest e ping) evs := by
  have hsends : PingSends .big (some standardPing) 100 0
      [.received ⟨⟨10, 0, 0, 2⟩, firstReply⟩ 1,
        .received ⟨⟨10, 0, 0, 1⟩, firstReply.take 64⟩ 2] 0 :=
    ⟨⟨⟨by decide +kernel, by decide +kernel, by decide⟩,
      ⟨by decide +kernel, by decide +kernel, by decide⟩, trivial⟩, by decide +kernel⟩
  refine ⟨rfl, hsends, fun hclaim => ?_⟩
  obtain ⟨d, now, hmem, ha⟩ := hclaim _ _ _ _ _ hsends
  rcases List.mem_cons.mp hmem with heq | hmem
  · obtain ⟨rfl, -⟩ := PingEvent.received.inj heq
    exact absurd ha.sender (by decide)
  · obtain ⟨rfl, -⟩ := PingEvent.received.inj (List.mem_singleton.mp hmem)
    exact absurd ha.whole (by decide +kernel)

end SsrlApps.MiscUtils
