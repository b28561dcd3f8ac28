/-
  `rtems_ping_open` and `rtems_ping_send`: an echo request, and the wait for its reply.

  Model. `int`, `size_t` and `unsigned long` have 32 bits, and so has the tick counter. The
  two buffers are memories of their own, read and written at offsets; what lies behind a
  buffer is in no way special, but every access is on record (`PingAct`), with the times
  at which a timeout is set or found to be over. A datagram is its sender and its bytes;
  `recvfrom` stores them over what is in the buffer.

  The loop of `rtems_ping_send` is a machine. An event is one turn of the loop, from the
  result of `setsockopt` on; the head of the loop, which looks at the time, is evaluated
  before the first event and at the end of every turn that goes on.

  Proved:
  * `pingRequest_data`, `pingRequest_seq`: what is in the request.
  * `deliver_inside`: a datagram covers the buffer up to its length.
  * `ends_of_retval`: a call that has a value to return is over.
-/
import SsrlApps.MiscUtils.Traceroute

namespace SsrlApps.MiscUtils

open Bytes

/-! ## Data -/

/-- `struct timeval`, as the code reads it: as `unsigned long`. -/
structure Timeval where
  sec : Nat
  usec : Nat
deriving DecidableEq

/-- `rtems_ping_cfg_t` -/
structure RtemsPingCfg where
  timeout : Timeval
  payloadSize : Nat

/-- `ICMP_MINLEN`, the offset of `icmp_data` -/
def icmpMinLen : Nat := 8

def rtemsPingStandard : RtemsPingCfg := ⟨⟨1, 0⟩, 64 - icmpMinLen⟩

/-- `IP_MAXPACKET` -/
def ipMaxPacket : Nat := 65535

/-- `rtems_ping_t` at the address `self`. `icmp_resp` is set before each use. -/
structure RtemsPing where
  self : Nat
  socket : Int
  seq : Nat
  dest : InAddr
  payloadSize : Nat
  timeout : Timeval
  reqSize : Nat
  respSize : Nat
  rawReq : Bytes
  rawResp : Bytes

def icmpEcho : UInt8 := 8

/-- The types that matter, with the code of `errno`. -/
def etimedout : Int := 116

def eio : Int := 5

def einval : Int := 22

/-! ## Opening -/

/-- The results of the calls of `rtems_ping_open`. -/
structure PingOpenCalls where
  /-- `calloc` for the control structure: its address. -/
  ping : Option Nat
  rawReq : Bool
  rawResp : Bool
  rand : Nat
  socket : Int

/-- `htonl`, read in the order of memory -/
def htonl (x : Nat) : InAddr :=
  ⟨UInt8.ofNat (x / 2 ^ 24), UInt8.ofNat (x / 2 ^ 16), UInt8.ofNat (x / 2 ^ 8), UInt8.ofNat x⟩

/-- Smaller payloads are enlarged. -/
def acceptedSize (size : Nat) : Nat :=
  if size < 64 - icmpMinLen then 64 - icmpMinLen else size

def rtemsPingOpen (e : Endian) (ipAddr : Nat) (cfg : Option RtemsPingCfg) (c : PingOpenCalls) :
    Option RtemsPing :=
  let cfg := cfg.getD rtemsPingStandard
  let payloadSize := acceptedSize cfg.payloadSize
  match c.ping with
  | none => none
  | some self =>
    if !c.rawReq || !c.rawResp then none
    else if c.socket = -1 then none
    else some {
      self := self
      socket := c.socket
      seq := c.rand
      dest := htonl ipAddr
      payloadSize := payloadSize
      timeout := cfg.timeout
      reqSize := (icmpMinLen + payloadSize) % 2 ^ 32
      respSize := ipMaxPacket
      rawReq := store16 e (Function.update (fun _ => 0) 0 icmpEcho) 4 (self % 65536)
      rawResp := fun _ => 0 }

/-- The ping to 10.0.0.1 that `rtems_ping_open` makes of the standard configuration. -/
def standardPing : RtemsPing where
  self := 0x12345678
  socket := 5
  seq := 0
  dest := ⟨10, 0, 0, 1⟩
  payloadSize := 56
  timeout := ⟨1, 0⟩
  reqSize := 64
  respSize := 65535
  rawReq := store16 .big (Function.update (fun _ => 0) 0 8) 4 0x5678
  rawResp := fun _ => 0

example : rtemsPingOpen .big 0x0a000001 none ⟨some 0x12345678, true, true, 0, 5⟩ =
    some standardPing := rfl

/-! ## The request -/

inductive PingBuf
  | request
  | response
deriving DecidableEq

/-- What is on record of a call. -/
inductive PingAct
  | read (b : PingBuf) (off len : Nat)
  | write (b : PingBuf) (off len : Nat)
  /-- At the time `now`, `SO_RCVTIMEO` is set to `tv` for the `ticks` that are left. -/
  | rcvTimeo (now ticks : Nat) (tv : Timeval)
  /-- At the time `now`, the timeout is found to be over. -/
  | expired (now : Nat)
deriving DecidableEq

/-- The loop of `rtems_ping_pattern`, with `k` bytes to go. -/
def patternFill (m : Bytes) : Nat → Nat → Nat → Bytes
  | _, _, 0 => m
  | p, n, k + 1 => patternFill (Function.update m p (UInt8.ofNat n)) (p + 1) (n + 1) k

def rtemsPingPattern (ping : RtemsPing) : Bytes :=
  patternFill ping.rawReq icmpMinLen (0x80 + ping.seq) ping.payloadSize

/-- `req_size` as the `int` that `rtems_ping_cksum` takes; it sums up nothing if that is
    negative. -/
def cksumLen (reqSize : Nat) : Nat := if reqSize < 2 ^ 31 then reqSize else 0

/-- The pointer as identifier. -/
def RtemsPing.id (ping : RtemsPing) : Nat := ping.self % 65536

/-- What `rtems_ping_send` does to the ping before it sends it. -/
def pingRequest (e : Endian) (ping : RtemsPing) : RtemsPing :=
  let ping := { ping with seq := (ping.seq + 1) % 2 ^ 32 }
  let m := rtemsPingPattern ping
  let m := store16 e m 2 0
  let m := store16 e m 6 (ping.seq % 65536)
  let m := store16 e m 4 ping.id
  { ping with rawReq := store16 e m 2 (rtemsPingCksum e m 0 (cksumLen ping.reqSize)) }

/-- The accesses of the checksum: whole words, also for an odd last byte. -/
def cksumActs (len : Nat) : List PingAct :=
  .read .request 0 (len / 2 * 2) :: if len % 2 = 1 then [.read .request (len - 1) 2] else []

/-- The accesses up to the call of `sendto`. -/
def requestActs (ping : RtemsPing) : List PingAct :=
  [.write .request icmpMinLen ping.payloadSize, .write .request 2 2, .write .request 6 2,
    .write .request 4 2] ++ cksumActs (cksumLen ping.reqSize) ++
    [.write .request 2 2, .read .request 0 ping.reqSize]

/-! ## The loop -/

/-- What a call knows: the ping with its request, the tick rate and the time of sending. -/
structure PingCall where
  ping : RtemsPing
  tps : Nat
  sendTime : Nat

/-- The call of `rtems_ping_send` at the time `sendTime`, behind `sendto`. -/
def pingCall (e : Endian) (ping : RtemsPing) (tps sendTime : Nat) : PingCall :=
  ⟨pingRequest e ping, tps, sendTime⟩

namespace PingCall

/-- `US_PER_TICK` -/
def uspt (c : PingCall) : Nat := 1000000 / c.tps

def timeout (c : PingCall) : Nat :=
  (c.sendTime + c.ping.timeout.sec * c.tps % 2 ^ 32 +
    c.ping.timeout.usec * c.tps % 2 ^ 32 / 1000000) % 2 ^ 32

end PingCall

/-- A datagram, as `recvfrom` stores it. -/
structure Packet where
  sender : InAddr
  bytes : List UInt8

/-- One turn of the loop, from `setsockopt` on. -/
inductive PingEvent
  | setsockoptFails
  | recvFails
  /-- `recvfrom` returns a datagram, and the clock says `now`. -/
  | received (d : Packet) (now : Nat)

structure PingLoop where
  /-- `rcv_time`: a time, and the ticks left while the loop waits. -/
  rcvTime : Nat
  rawResp : Bytes
  /-- What was stored in `*trip_time`. -/
  tripTime : Option Nat
  acts : List PingAct
  retval : Option Int

/-- The bytes of a datagram, from offset 0 on. -/
def deliver (m : Bytes) (bs : List UInt8) : Bytes := fun a => (bs[a]?).getD (m a)

/-- `ip_hl`, of the structure at the offset `p` -/
def ipHl (m : Bytes) (p : Nat) : Nat := (m p).toNat % 16

/-- `icmp_resp`, as an offset -/
def icmpResp (m : Bytes) : Nat := ipHl m 0 * 4

/-- "Check if packet is response to our ping" -/
def isReply (e : Endian) (ping : RtemsPing) (m : Bytes) (sender : InAddr) : Bool :=
  decide (m (icmpResp m) = icmpEchoReply) && decide (load16 e m (icmpResp m + 4) = ping.id) &&
    decide (load16 e m (icmpResp m + 6) = load16 e ping.rawReq 6) && decide (sender = ping.dest)

/-- Where the payload is looked for: `ip_hl` of the ICMP packet is the type's lower half. -/
def payloadAt (m : Bytes) : Nat := icmpResp m + icmpMinLen + ipHl m (icmpResp m) * 4

/-- "Check if payload matches" -/
def payloadMatches (ping : RtemsPing) (m : Bytes) : Bool :=
  decide (ping.rawReq.slice icmpMinLen ping.payloadSize =
    m.slice (payloadAt m) ping.payloadSize)

/-- The accesses of `isReply`, which stops at the first difference. -/
def isReplyActs (e : Endian) (ping : RtemsPing) (m : Bytes) : List PingAct :=
  .read .response (icmpResp m) 1 ::
    if m (icmpResp m) = icmpEchoReply then
      .read .response (icmpResp m + 4) 2 ::
        if load16 e m (icmpResp m + 4) = ping.id then
          [.read .response (icmpResp m + 6) 2, .read .request 6 2]
        else []
    else []

/-- The accesses behind `isReply`, to compare the payload. -/
def replyActs (ping : RtemsPing) (m : Bytes) : List PingAct :=
  [.read .response (icmpResp m) 1, .read .request icmpMinLen ping.payloadSize,
    .read .response (payloadAt m) ping.payloadSize]

/-- The response buffer behind `memset` and `recvfrom`. -/
def responseImage (ping : RtemsPing) (m : Bytes) (d : Packet) : Bytes :=
  deliver (m.fill 0 0 ping.reqSize) d.bytes

/-- The head of the loop. -/
def pingHead (c : PingCall) (l : PingLoop) : PingLoop :=
  if c.timeout ≤ l.rcvTime then
    { l with acts := l.acts ++ [.expired l.rcvTime], retval := some etimedout }
  else
    let rcvTime := c.timeout - l.rcvTime
    let tv := ⟨rcvTime / c.tps, rcvTime % c.tps * c.uspt⟩
    { l with rcvTime := rcvTime, acts := l.acts ++ [.rcvTimeo l.rcvTime rcvTime tv] }

/-- A datagram is stored, and looked at. -/
def storeResponse (e : Endian) (c : PingCall) (l : PingLoop) (d : Packet) (now : Nat) :
    PingLoop :=
  let m := responseImage c.ping l.rawResp d
  { l with
      rcvTime := now
      rawResp := m
      acts := l.acts ++ [.write .response 0 c.ping.reqSize,
        .write .response 0 d.bytes.length, .read .response 0 1] ++ isReplyActs e c.ping m }

def pingTurn (e : Endian) (c : PingCall) (l : PingLoop) : PingEvent → PingLoop
  | .setsockoptFails => { l with retval := some (-1) }
  | .recvFails =>
    { l with
        rawResp := l.rawResp.fill 0 0 c.ping.reqSize
        acts := l.acts ++ [.write .response 0 c.ping.reqSize, .read .response 0 1]
        retval := some etimedout }
  | .received d now =>
    let l := storeResponse e c l d now
    let m := l.rawResp
    if isReply e c.ping m d.sender then
      { l with
          tripTime := some ((now + 2 ^ 32 - c.sendTime) * c.uspt % 2 ^ 32)
          acts := l.acts ++ replyActs c.ping m
          retval := some (if payloadMatches c.ping m then 0 else eio) }
    else pingHead c l

/-- The loop goes on until there is a value to return; `recvfrom` stores no more than it was
    asked for, and the clock has 32 bits. -/
def pingGuard (c : PingCall) (l : PingLoop) : PingEvent → Prop
  | .received d now => l.retval = none ∧ d.bytes.length ≤ c.ping.respSize ∧ now < 2 ^ 32
  | _ => l.retval = none

def pingWait (e : Endian) (c : PingCall) : Guarded PingLoop PingEvent :=
  ⟨pingGuard c, pingTurn e c⟩

def pingStart (c : PingCall) : PingLoop :=
  pingHead c ⟨c.sendTime, c.ping.rawResp, none, requestActs c.ping, none⟩

/-- `rtems_ping_send` of the ping, if there is one, at the time `sendTime` and with `tps`
    ticks per second; it returns `retval` after the turns `evs`. -/
def PingSends (e : Endian) (ping : Option RtemsPing) (tps sendTime : Nat)
    (evs : List PingEvent) (retval : Int) : Prop :=
  match ping with
  | none => evs = [] ∧ retval = einval
  | some ping =>
    let c := pingCall e ping tps sendTime
    (pingWait e c).Legal (pingStart c) evs ∧
      ((pingWait e c).exec (pingStart c) evs).retval = some retval

/-! ## The request in the buffer -/

theorem patternFill_apply (m : Bytes) (p n k a : Nat) :
    patternFill m p n k a = if p ≤ a ∧ a < p + k then UInt8.ofNat (n + (a - p)) else m a := by
  induction k generalizing m p n with
  | zero => exact (if_neg (by omega)).symm
  | succ k ih =>
    show patternFill (Function.update m p (UInt8.ofNat n)) (p + 1) (n + 1) k a = _
    rw [ih]
    by_cases hp : a = p
    · subst hp
      rw [if_neg (by omega), if_pos (by omega), Function.update_self, Nat.sub_self]
      rfl
    · rw [Function.update_of_ne hp]
      by_cases hin : p + 1 ≤ a ∧ a < p + 1 + k
      · have hoff : n + 1 + (a - (p + 1)) = n + (a - p) := by omega
        rw [if_pos hin, if_pos (by omega), hoff]
      · rw [if_neg hin, if_neg (by omega)]

theorem store16_outside {e : Endian} {m : Bytes} {p v a : Nat} (h : Outside p 2 a) :
    store16 e m p v a = m a := store_outside h

theorem load16_store16 (e : Endian) (m : Bytes) (p : Nat) {v : Nat} (hv : v < 65536) :
    load16 e (store16 e m p v) p = v := by
  have hfirst : store16 e m p v p = UInt8.ofNat (e.ntohs v / 256) := by
    unfold store16 store
    rw [if_pos (by omega)]
    congr 2
    show 256 ^ (p + 2 - 1 - p) = 256
    rw [show p + 2 - 1 - p = 1 by omega, Nat.pow_one]
  have hsecond : store16 e m p v (p + 1) = UInt8.ofNat (e.ntohs v) := by
    unfold store16 store
    rw [if_pos (by omega), show p + 2 - 1 - (p + 1) = 0 by omega, Nat.pow_zero, Nat.div_one]
  unfold load16
  rw [hfirst, hsecond]
  cases e with
  | big => simp only [Endian.word, Endian.ntohs, UInt8.toNat_ofNat']; omega
  | little =>
    have hdiv : (v % 256 * 256 + v / 256) / 256 = v % 256 := by omega
    simp only [Endian.word, Endian.ntohs, UInt8.toNat_ofNat', hdiv]
    omega

theorem load16_store16_ne {e : Endian} {m : Bytes} {p q v : Nat} (h : p + 2 ≤ q ∨ q + 2 ≤ p) :
    load16 e (store16 e m p v) q = load16 e m q := by
  have hout : Outside p 2 q := h.symm.imp (fun h => by omega) id
  have hout' : Outside p 2 (q + 1) := h.symm.imp (fun h => by omega) (fun h => by omega)
  unfold load16
  rw [store16_outside hout, store16_outside hout']

variable (e : Endian) (ping : RtemsPing)

/-- The payload of the request is the pattern of its sequence number. -/
theorem pingRequest_data {i : Nat} (hi : i < ping.payloadSize) :
    (pingRequest e ping).rawReq (icmpMinLen + i) =
      UInt8.ofNat (0x80 + (pingRequest e ping).seq + i) := by
  have hout : ∀ q, q = 2 ∨ q = 4 ∨ q = 6 → Outside q 2 (icmpMinLen + i) := by
    intro q hq
    exact Or.inr (by unfold icmpMinLen; omega)
  unfold pingRequest
  dsimp only
  rw [store16_outside (hout 2 (by omega)), store16_outside (hout 4 (by omega)),
    store16_outside (hout 6 (by omega)), store16_outside (hout 2 (by omega))]
  unfold rtemsPingPattern
  dsimp only
  rw [patternFill_apply, if_pos (by omega), Nat.add_sub_cancel_left]

theorem pingRequest_seq : load16 e (pingRequest e ping).rawReq 6 =
    (pingRequest e ping).seq % 65536 := by
  unfold pingRequest
  dsimp only
  rw [load16_store16_ne (by omega), load16_store16_ne (by omega),
    load16_store16 e _ 6 (Nat.mod_lt _ (by decide))]

/-! ## Datagrams in the buffer -/

theorem deliver_inside (m : Bytes) {bs : List UInt8} {a : Nat} (ha : a < bs.length) :
    deliver m bs a = bs[a] := by
  unfold deliver
  rw [List.getElem?_eq_getElem ha]
  rfl

/-! ## Replies -/

theorem isReply_iff {m : Bytes} {sender : InAddr} : isReply e ping m sender = true ↔
    m (icmpResp m) = icmpEchoReply ∧ load16 e m (icmpResp m + 4) = ping.id ∧
      load16 e m (icmpResp m + 6) = load16 e ping.rawReq 6 ∧ sender = ping.dest := by
  simp only [isReply, Bool.and_eq_true, decide_eq_true_eq, and_assoc]

/-- Where the type is that of an echo reply, its lower half adds nothing. -/
theorem payloadAt_reply {m : Bytes} (h : m (icmpResp m) = icmpEchoReply) :
    payloadAt m = icmpResp m + icmpMinLen := by
  unfold payloadAt ipHl
  rw [h]
  rfl

/-! ## The turns -/

section Turns

variable {e : Endian} {c : PingCall} {l : PingLoop} {d : Packet} {now : Nat}

theorem pingTurn_reply
    (h : isReply e c.ping (responseImage c.ping l.rawResp d) d.sender = true) :
    pingTurn e c l (.received d now) = { storeResponse e c l d now with
      tripTime := some ((now + 2 ^ 32 - c.sendTime) * c.uspt % 2 ^ 32)
      acts := (storeResponse e c l d now).acts ++
        replyActs c.ping (responseImage c.ping l.rawResp d)
      retval := some (if payloadMatches c.ping (responseImage c.ping l.rawResp d) then 0
        else eio) } :=
  if_pos h

theorem pingTurn_foreign
    (h : isReply e c.ping (responseImage c.ping l.rawResp d) d.sender = false) :
    pingTurn e c l (.received d now) = pingHead c (storeResponse e c l d now) :=
  if_neg (fun hreply => Bool.false_ne_true (h.symm.trans hreply))

theorem pingHead_late (h : c.timeout ≤ l.rcvTime) : pingHead c l =
    { l with acts := l.acts ++ [.expired l.rcvTime], retval := some etimedout } :=
  if_pos h

theorem pingHead_wait (h : l.rcvTime < c.timeout) : pingHead c l =
    { l with
        rcvTime := c.timeout - l.rcvTime
        acts := l.acts ++ [.rcvTimeo l.rcvTime (c.timeout - l.rcvTime)
          ⟨(c.timeout - l.rcvTime) / c.tps, (c.timeout - l.rcvTime) % c.tps * c.uspt⟩] } :=
  if_neg (Nat.not_le.mpr h)

end Turns

/-- Nothing happens once there is a value to return. -/
theorem not_pingGuard {e : Endian} {c : PingCall} {l : PingLoop} {r : Int}
    (hr : l.retval = some r) (ev : PingEvent) : ¬ (pingWait e c).guard l ev := by
  intro hg
  have hnone : l.retval = none := by
    cases ev with
    | received d now => exact hg.1
    | setsockoptFails => exact hg
    | recvFails => exact hg
  rw [hr] at hnone
  cases hnone

/-- A call that has a value to return is over. -/
theorem ends_of_retval {e : Endian} {c : PingCall} {l : PingLoop} {r : Int}
    (hr : l.retval = some r) {evs : List PingEvent} (hes : (pingWait e c).Legal l evs) :
    evs = [] := by
  cases evs with
  | nil => rfl
  | cons ev evs => exact absurd hes.1 (not_pingGuard hr ev)

end SsrlApps.MiscUtils
