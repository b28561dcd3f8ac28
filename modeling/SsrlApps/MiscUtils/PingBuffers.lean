/-
  The accesses of `rtems_ping_send` to its two buffers.

  Model. A ping of a configured size (`OfSize`) is what `rtems_ping_open` makes of it, with
  any sequence number and any contents of the buffers, as earlier calls leave them. Every
  access on record (`PingAct`) is to be within `req_size` bytes of the request or
  `resp_size` bytes of the response; `memcmp` may look at all the bytes that it is given.

  Proved:
  * `inBounds_request`, `inBounds_turn`: up to `sendto`, and in each turn of the loop, with
    any datagram, when the sizes fit.
  * `ping_noOverrun_iff`: no call leaves the buffers, exactly if the payload is even and fits
    in the response behind the longest IP header.
-/
import SsrlApps.MiscUtils.Ping

namespace SsrlApps.MiscUtils

open Bytes

/-! ## Bounds -/

def RtemsPing.bufSize (ping : RtemsPing) : PingBuf → Nat
  | .request => ping.reqSize
  | .response => ping.respSize

/-- An access stays inside its buffer. -/
def PingAct.InBounds (ping : RtemsPing) : PingAct → Prop
  | .read b off len | .write b off len => off + len ≤ ping.bufSize b
  | _ => True

/-- The longest header, in bytes. -/
def maxIpHl : Nat := 15 * 4

/-- The sizes that make all accesses safe. -/
structure Fits (ping : RtemsPing) : Prop where
  request : ping.reqSize = icmpMinLen + ping.payloadSize
  even : ping.payloadSize % 2 = 0
  response : ping.respSize = ipMaxPacket
  room : maxIpHl + icmpMinLen + ping.payloadSize ≤ ipMaxPacket

/-- A ping of a configuration with the payload size `size`, as some call finds it. -/
def OfSize (size : Nat) (ping : RtemsPing) : Prop :=
  ∃ e ipAddr cfg c opened, cfg.payloadSize = size ∧
    rtemsPingOpen e ipAddr (some cfg) c = some opened ∧
      ∃ seq rawReq rawResp,
        ping = { opened with seq := seq, rawReq := rawReq, rawResp := rawResp }

/-- With the configured payload size `size`, no call leaves its buffers. -/
def NoOverrun (size : Nat) : Prop :=
  ∀ e ping tps sendTime evs, OfSize size ping →
    (pingWait e (pingCall e ping tps sendTime)).Legal
      (pingStart (pingCall e ping tps sendTime)) evs →
    ∀ a ∈ ((pingWait e (pingCall e ping tps sendTime)).exec
      (pingStart (pingCall e ping tps sendTime)) evs).acts, a.InBounds ping

variable {e : Endian} {c : PingCall} {l : PingLoop}

/-- What `rtems_ping_open` decides about the sizes. -/
theorem ofSize_sizes {size : Nat} {ping : RtemsPing} (h : OfSize size ping) :
    ping.payloadSize = acceptedSize size ∧
      ping.reqSize = (icmpMinLen + acceptedSize size) % 2 ^ 32 ∧
      ping.respSize = ipMaxPacket := by
  obtain ⟨e, ipAddr, cfg, c, opened, rfl, hopen, seq, rawReq, rawResp, rfl⟩ := h
  unfold rtemsPingOpen at hopen
  cases hping : c.ping with
  | none => simp [hping] at hopen
  | some self =>
    simp only [hping, Option.getD_some] at hopen
    split at hopen
    · cases hopen
    · split at hopen
      · cases hopen
      · obtain rfl := Option.some.inj hopen
        exact ⟨rfl, rfl, rfl⟩

/-! ## Calls that stay inside -/

theorem icmpResp_le (m : Bytes) : icmpResp m ≤ maxIpHl := by
  have hlow : ipHl m 0 < 16 := Nat.mod_lt _ (by decide)
  unfold icmpResp maxIpHl
  omega

theorem cksumLen_le (n : Nat) : cksumLen n ≤ n := by
  unfold cksumLen
  split <;> omega

/-- The checksum of an even number of bytes reads those bytes. -/
theorem cksumActs_even {n : Nat} (h : n % 2 = 0) :
    cksumActs n = [.read .request 0 n] := by
  unfold cksumActs
  rw [if_neg (by omega), show n / 2 * 2 = n by omega]

/-- Up to `sendto`, the request is filled and read within its bounds. -/
theorem inBounds_request {ping : RtemsPing} (h : Fits ping) :
    ∀ a ∈ requestActs ping, a.InBounds ping := by
  obtain ⟨hreq, heven, -, -⟩ := h
  have hmin : icmpMinLen = 8 := rfl
  have hlen := cksumLen_le ping.reqSize
  have hpar : cksumLen ping.reqSize % 2 = 0 := by
    unfold cksumLen
    split <;> omega
  intro a ha
  unfold requestActs at ha
  rw [cksumActs_even hpar] at ha
  simp only [List.mem_append, List.mem_cons, List.not_mem_nil, or_false] at ha
  rcases ha with ((rfl | rfl | rfl | rfl) | rfl) | rfl | rfl <;>
    simp only [PingAct.InBounds, RtemsPing.bufSize] <;> omega

/-- The test of the header reads no further than 8 bytes behind the longest IP header. -/
theorem inBounds_isReply {ping : RtemsPing} (h : Fits ping) (m : Bytes) :
    ∀ a ∈ isReplyActs e ping m, a.InBounds ping := by
  have hresp := icmpResp_le m
  obtain ⟨hreq, -, hsize, hroom⟩ := h
  have hmin : icmpMinLen = 8 := rfl
  have hmem : ∀ a ∈ isReplyActs e ping m, a = .read .response (icmpResp m) 1 ∨
      a = .read .response (icmpResp m + 4) 2 ∨ a = .read .response (icmpResp m + 6) 2 ∨
      a = .read .request 6 2 := by
    unfold isReplyActs
    intro a ha
    split at ha
    · split at ha <;> simp at ha <;> tauto
    · simp at ha
      tauto
  intro a ha
  rcases hmem a ha with rfl | rfl | rfl | rfl <;>
    simp only [PingAct.InBounds, RtemsPing.bufSize] <;> omega

/-- The comparison of a reply's payload stays inside, with any header. -/
theorem inBounds_reply {ping : RtemsPing} (h : Fits ping) {m : Bytes}
    (htype : m (icmpResp m) = icmpEchoReply) : ∀ a ∈ replyActs ping m, a.InBounds ping := by
  have hresp := icmpResp_le m
  have hat := payloadAt_reply htype
  obtain ⟨hreq, -, hsize, hroom⟩ := h
  have hmin : icmpMinLen = 8 := rfl
  intro a ha
  unfold replyActs at ha
  simp only [List.mem_cons, List.not_mem_nil, or_false] at ha
  rcases ha with rfl | rfl | rfl <;>
    simp only [PingAct.InBounds, RtemsPing.bufSize] <;> omega

/-- All that is on record of the call stays inside. -/
def AllInBounds (c : PingCall) (l : PingLoop) : Prop := ∀ a ∈ l.acts, a.InBounds c.ping

theorem inBounds_head (h : AllInBounds c l) : AllInBounds c (pingHead c l) := by
  intro a ha
  rcases Nat.lt_or_ge l.rcvTime c.timeout with hlt | hge
  · rw [pingHead_wait hlt] at ha
    rcases List.mem_append.mp ha with ha | ha
    · exact h a ha
    · obtain rfl := List.mem_singleton.mp ha
      trivial
  · rw [pingHead_late hge] at ha
    rcases List.mem_append.mp ha with ha | ha
    · exact h a ha
    · obtain rfl := List.mem_singleton.mp ha
      trivial

/-- The datagram has at most the bytes that `recvfrom` was asked for. -/
theorem inBounds_store (hf : Fits c.ping) (h : AllInBounds c l) {d : Packet} (now : Nat)
    (hlen : d.bytes.length ≤ c.ping.respSize) :
    AllInBounds c (storeResponse e c l d now) := by
  intro a ha
  have hclear : c.ping.reqSize ≤ c.ping.respSize := by
    have hmax : maxIpHl = 60 := rfl
    have hroom := hf.room
    rw [hf.request, hf.response]
    omega
  have hone : 1 ≤ c.ping.respSize := by
    rw [hf.response]
    decide
  unfold storeResponse at ha
  simp only [List.mem_append, List.mem_cons, List.not_mem_nil, or_false] at ha
  rcases ha with (ha | rfl | rfl | rfl) | ha
  · exact h a ha
  · simpa [PingAct.InBounds, RtemsPing.bufSize] using hclear
  · simpa [PingAct.InBounds, RtemsPing.bufSize] using hlen
  · simpa [PingAct.InBounds, RtemsPing.bufSize] using hone
  · exact inBounds_isReply hf _ a ha

/-- One turn of the loop, with any datagram. -/
theorem inBounds_turn (hf : Fits c.ping) {ev : PingEvent} (h : AllInBounds c l)
    (hg : pingGuard c l ev) : AllInBounds c (pingTurn e c l ev) := by
  cases ev with
  | setsockoptFails => exact h
  | recvFails =>
    -- what the turn does before `recvfrom` is what it does for an empty datagram
    have hstore := inBounds_store (e := e) hf h (d := ⟨c.ping.dest, []⟩) 0
      (Nat.zero_le _)
    intro a ha
    refine hstore a ?_
    have ha' : a ∈ l.acts ++ [.write .response 0 c.ping.reqSize, .read .response 0 1] := ha
    simp only [List.mem_append, List.mem_cons, List.not_mem_nil, or_false] at ha'
    unfold storeResponse
    simp only [List.mem_append, List.mem_cons, List.not_mem_nil, or_false]
    tauto
  | received d now =>
    have hstore := inBounds_store (e := e) hf h now hg.2.1
    cases hreply : isReply e c.ping (responseImage c.ping l.rawResp d) d.sender with
    | false =>
      rw [pingTurn_foreign hreply]
      exact inBounds_head hstore
    | true =>
      rw [pingTurn_reply hreply]
      intro a ha
      rcases List.mem_append.mp ha with ha | ha
      · exact hstore a ha
      · exact inBounds_reply hf ((isReply_iff e c.ping).mp hreply).1 a ha

theorem inBounds_run (hf : Fits c.ping) {evs : List PingEvent}
    (hes : (pingWait e c).Legal (pingStart c) evs) :
    AllInBounds c ((pingWait e c).exec (pingStart c) evs) :=
  Guarded.invariant (I := AllInBounds c) (fun _ _ h hg => inBounds_turn hf h hg)
    (inBounds_head (l := ⟨c.sendTime, c.ping.rawResp, none, requestActs c.ping, none⟩)
      (inBounds_request hf)) hes

/-! ## Calls that do not -/

/-- Both ends of the loop's head keep what is on record. -/
theorem mem_pingStart {a : PingAct} (h : a ∈ requestActs c.ping) : a ∈ (pingStart c).acts := by
  unfold pingStart
  rcases Nat.lt_or_ge c.sendTime c.timeout with hlt | hge
  · rw [pingHead_wait hlt]
    exact List.mem_append_left _ h
  · rw [pingHead_late hge]
    exact List.mem_append_left _ h

/-- What a ping needs of its sizes to get as far as `sendto`. -/
theorem sizes_of_inBounds (hreq : c.ping.reqSize = (icmpMinLen + c.ping.payloadSize) % 2 ^ 32)
    (h : AllInBounds c (pingStart c)) :
    c.ping.reqSize = icmpMinLen + c.ping.payloadSize ∧
      (c.ping.reqSize < 2 ^ 31 → c.ping.payloadSize % 2 = 0) := by
  have hmin : icmpMinLen = 8 := rfl
  have hfill : icmpMinLen + c.ping.payloadSize ≤ c.ping.reqSize :=
    h (.write .request icmpMinLen c.ping.payloadSize)
      (mem_pingStart (by simp [requestActs]))
  have heq : c.ping.reqSize = icmpMinLen + c.ping.payloadSize := by omega
  refine ⟨heq, fun hlt => ?_⟩
  by_contra hodd
  have hread : .read .request (c.ping.reqSize - 1) 2 ∈ requestActs c.ping := by
    have hlen : cksumLen c.ping.reqSize = c.ping.reqSize := if_pos hlt
    unfold requestActs cksumActs
    rw [hlen, if_pos (by omega)]
    simp
  have hpast : c.ping.reqSize - 1 + 2 ≤ c.ping.reqSize := h _ (mem_pingStart hread)
  omega

/-- A ping to 10.0.0.1, opened with the payload size `size`, whose first request has
    identifier and sequence number 0. -/
def zeroPing (size : Nat) : RtemsPing where
  self := 0x10000
  socket := 5
  seq := 0xffff
  dest := ⟨10, 0, 0, 1⟩
  payloadSize := acceptedSize size
  timeout := ⟨1, 0⟩
  reqSize := (icmpMinLen + acceptedSize size) % 2 ^ 32
  respSize := ipMaxPacket
  rawReq := store16 .big (Function.update (fun _ => 0) 0 icmpEcho) 4 0
  rawResp := fun _ => 0

theorem ofSize_zeroPing (size : Nat) : OfSize size (zeroPing size) :=
  ⟨.big, 0x0a000001, ⟨⟨1, 0⟩, size⟩, ⟨some 0x10000, true, true, 0xffff, 5⟩, zeroPing size, rfl,
    rfl, 0xffff, (zeroPing size).rawReq, fun _ => 0, rfl⟩

/-- Its call at the time 0, with one tick per second. -/
def zeroCall (size : Nat) : PingCall := pingCall .big (zeroPing size) 1 0

theorem zeroCall_waits (size : Nat) : (pingStart (zeroCall size)).retval = none := by
  have htimeout : (zeroCall size).timeout = 1 := by
    unfold PingCall.timeout zeroCall pingCall
    simp [pingRequest, zeroPing]
  unfold pingStart
  rw [pingHead_wait (show 0 < (zeroCall size).timeout by omega)]

/-- An echo reply of zeros behind the longest IP header. -/
def longHeader : Packet := ⟨⟨10, 0, 0, 1⟩, 0x4f :: List.replicate 67 0⟩

variable (ping : RtemsPing) (m : Bytes)

theorem longHeader_resp : icmpResp (responseImage ping m longHeader) = maxIpHl := by
  have hfirst : responseImage ping m longHeader 0 = 0x4f := deliver_inside _ (by decide)
  unfold icmpResp ipHl
  rw [hfirst]
  rfl

theorem longHeader_zero {a : Nat} (h : 0 < a ∧ a < 68) :
    responseImage ping m longHeader a = 0 := by
  obtain ⟨k, rfl⟩ : ∃ k, a = k + 1 := ⟨a - 1, by omega⟩
  refine (deliver_inside _ (show k + 1 < longHeader.bytes.length from h.2)).trans ?_
  exact List.getElem_replicate _

theorem longHeader_isReply (size : Nat) (m : Bytes) : isReply .big (zeroCall size).ping
    (responseImage (zeroCall size).ping m longHeader) longHeader.sender = true := by
  have hseq : load16 .big (zeroCall size).ping.rawReq 6 = 0 := by
    refine (pingRequest_seq .big (zeroPing size)).trans ?_
    show (0xffff + 1) % 2 ^ 32 % 65536 = 0
    decide
  have hid : (zeroCall size).ping.id = 0 := by
    show 0x10000 % 65536 = 0
    decide
  have hmax : maxIpHl = 60 := rfl
  rw [isReply_iff, longHeader_resp, hseq, hid]
  unfold load16
  rw [longHeader_zero _ _ (by omega), longHeader_zero _ _ (by omega),
    longHeader_zero _ _ (by omega), longHeader_zero _ _ (by omega),
    longHeader_zero _ _ (by omega)]
  exact ⟨rfl, rfl, rfl, rfl⟩

/-- The response is too small for a large payload behind a long header. -/
theorem room_of_inBounds {size : Nat} (h : ∀ evs,
    (pingWait .big (zeroCall size)).Legal (pingStart (zeroCall size)) evs →
      AllInBounds (zeroCall size) ((pingWait .big (zeroCall size)).exec
        (pingStart (zeroCall size)) evs)) :
    maxIpHl + icmpMinLen + acceptedSize size ≤ ipMaxPacket := by
  have hlegal : (pingWait .big (zeroCall size)).Legal (pingStart (zeroCall size))
      [.received longHeader 0] :=
    ⟨⟨zeroCall_waits size, show 68 ≤ 65535 by decide, by decide⟩, trivial⟩
  have hreply := longHeader_isReply size (pingStart (zeroCall size)).rawResp
  have hat := payloadAt_reply ((isReply_iff _ _).mp hreply).1
  rw [longHeader_resp] at hat
  have hread := h _ hlegal (.read .response (maxIpHl + icmpMinLen) (acceptedSize size))
  refine hread ?_
  show _ ∈ (pingTurn .big (zeroCall size) (pingStart (zeroCall size))
    (.received longHeader 0)).acts
  rw [pingTurn_reply hreply, ← hat]
  exact List.mem_append_right _ (.tail _ (.tail _ (.head _)))

/-- **No call leaves the buffers**, whatever it receives, exactly if the payload that
    `rtems_ping_open` accepts is even and fits in the response behind the longest header. -/
theorem ping_noOverrun_iff (size : Nat) : NoOverrun size ↔
    acceptedSize size % 2 = 0 ∧ maxIpHl + icmpMinLen + acceptedSize size ≤ ipMaxPacket := by
  constructor
  · intro h
    have hzero : ∀ evs, (pingWait .big (zeroCall size)).Legal (pingStart (zeroCall size)) evs →
        AllInBounds (zeroCall size) ((pingWait .big (zeroCall size)).exec
          (pingStart (zeroCall size)) evs) :=
      fun evs hes => h .big (zeroPing size) 1 0 evs (ofSize_zeroPing size) hes
    have hroom := room_of_inBounds hzero
    obtain ⟨hreq, heven⟩ := sizes_of_inBounds rfl (hzero [] trivial)
    have hmax : ipMaxPacket = 65535 := rfl
    refine ⟨heven ?_, hroom⟩
    rw [hreq]
    show icmpMinLen + acceptedSize size < 2 ^ 31
    omega
  · rintro ⟨heven, hroom⟩ e ping tps sendTime evs hsize hes
    obtain ⟨hpay, hreq, hresp⟩ := ofSize_sizes hsize
    have hmax : ipMaxPacket = 65535 := rfl
    refine inBounds_run ⟨?_, ?_, ?_, ?_⟩ hes
    · show ping.reqSize = icmpMinLen + ping.payloadSize
      rw [hreq, hpay]
      omega
    · show ping.payloadSize % 2 = 0
      rw [hpay]
      exact heven
    · exact hresp
    · show maxIpHl + icmpMinLen + ping.payloadSize ≤ ipMaxPacket
      rw [hpay]
      exact hroom

/-- With 57 bytes of payload the checksum reads the 66th byte of 65. -/
theorem ping_overrun :
    rtemsPingOpen .big 0x0a000001 (some ⟨⟨1, 0⟩, 57⟩) ⟨some 0x10000, true, true, 0xffff, 5⟩ =
        some (zeroPing 57) ∧
      (zeroPing 57).reqSize = 65 ∧
      PingAct.read .request 64 2 ∈ (pingStart (zeroCall 57)).acts ∧
      ¬ ∀ size, NoOverrun size := by
  have hread : PingAct.read .request 64 2 ∈ (pingStart (zeroCall 57)).acts :=
    mem_pingStart (by decide)
  refine ⟨rfl, rfl, hread, fun hclaim => ?_⟩
  have hin : 64 + 2 ≤ 65 :=
    hclaim 57 .big (zeroPing 57) 1 0 [] (ofSize_zeroPing 57) trivial _ hread
  omega

end SsrlApps.MiscUtils
