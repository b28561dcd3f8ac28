/-
  `do_traceroute`: probes of growing TTL, and the replies to them.

  Model. The loop is a machine. Its events are the results of `sendto` and `recvfrom`, its
  phase says which of them comes next, or that the loop is left; a wait for a reply is one
  or more events, as packets that are not ours are skipped. A received datagram is the
  number of its bytes that were stored, its sender, and the whole buffer as it is then:
  behind the datagram stands what stood there before. Allocations succeed.

  `recorded` lists the datagrams of a run that are long enough and pass the filter. A reply
  is genuine (`Genuine`) when its ICMP header lies inside the datagram, is an echo reply
  with the identifier of this run, and came from the destination.

  Proved:
  * `nodes_recorded`: the list of nodes is the list of recorded datagrams.
  * `run_ends`: how the loop ends, and what that says about the hops left.
  * `traceroute_success_iff`: success is a genuine reply exactly in the runs that do not
    run out of retries or meet another packet of the destination.
-/
import SsrlApps.Lib.Machine
import SsrlApps.MiscUtils.Cksum

namespace SsrlApps.MiscUtils

/-! ## Data -/

/-- `struct in_addr`: four bytes in the order of memory. -/
structure InAddr where
  a : UInt8
  b : UInt8
  c : UInt8
  d : UInt8
deriving DecidableEq

/-- `inet_ntoa` -/
def inetNtoa (x : InAddr) : String :=
  toString x.a.toNat ++ "." ++ toString x.b.toNat ++ "." ++ toString x.c.toNat ++ "." ++
    toString x.d.toNat

/-- `struct traceroute_opts` -/
structure TracerouteOpts where
  ip : InAddr
  maxHops : Int
  logType : Int

/-- `log_type < TR_LOG_FULL` -/
def TracerouteOpts.quiet (opts : TracerouteOpts) : Bool := decide (opts.logType < 1)

/-- `log_type == TR_LOG_VERBOSE` -/
def TracerouteOpts.verbose (opts : TracerouteOpts) : Bool := decide (opts.logType = 2)

/-- `struct traceroute_ctx`, but for the local address, which only the probes carry. -/
structure TracerouteCtx where
  fd : Int
  ident : Nat

/-- `struct traceroute_node` -/
structure TracerouteNode where
  addr : String
  inAddr : InAddr
deriving DecidableEq

/-- `struct traceroute_result`, the list behind `first` in its order. -/
structure TracerouteResult where
  hops : Int
  nodes : List TracerouteNode

/-- What is printed: a text, a text of `perror`, "Retry %d...", or "%2d %s". -/
inductive Line
  | text (s : String)
  | perror (s : String)
  | retry (n : Int)
  | hop (n : Int) (addr : String)
deriving DecidableEq

def maxRetries : Int := 10

/-- `ctx->ident` -/
def traceIdent : Nat := 5930

/-- `sizeof(struct ip)` -/
def ipSize : Nat := 20

/-- `sizeof(struct icmp)` -/
def icmpSize : Nat := 28

/-- What `_tr_make_ip_frame` returns: `datalen + sizeof(*ipf)`. -/
def frameLen : Nat := icmpSize + ipSize

def icmpEchoReply : UInt8 := 0

def icmpTimeExceeded : UInt8 := 11

/-! ## Opening the socket -/

/-- The results of the calls of `_tr_open`. -/
structure OpenCalls where
  socket : Int
  rcvTimeo : Int
  sndTimeo : Int
  hdrIncl : Int
  getsockname : Int

/-- What `_tr_open` leaves behind: the context if it succeeds, what is printed, and the
    descriptors it closes. -/
structure Opened where
  ctx : Option TracerouteCtx
  lines : List Line
  closed : List Int

/-- The label `error`. -/
def openFailed (opts : TracerouteOpts) (fd : Int) (s : String) : Opened :=
  ⟨none, if opts.quiet then [] else [.perror s], [fd]⟩

def trOpen (opts : TracerouteOpts) (c : OpenCalls) : Opened :=
  if c.socket < 0 then ⟨none, if opts.quiet then [] else [.perror "Socket creation failed"], []⟩
  else if c.rcvTimeo < 0 then openFailed opts c.socket "Failed to set SO_RCVTIMEO"
  else if c.sndTimeo < 0 then openFailed opts c.socket "Failed to set SO_SNDTIMEO"
  else if c.hdrIncl < 0 then openFailed opts c.socket "Failed to set IP_HDRINCL"
  else if c.getsockname < 0 then openFailed opts c.socket "Could not determine local address"
  else ⟨some ⟨c.socket, traceIdent⟩, [], []⟩

/-! ## Datagrams -/

structure Datagram where
  sender : InAddr
  count : Nat
  data : Bytes

namespace Datagram

/-- Where the ICMP packet starts: `ip_hl * 4`. -/
def packet (d : Datagram) : Nat := (d.data 0).toNat % 16 * 4

def icmpType (d : Datagram) : UInt8 := d.data d.packet

def icmpCode (d : Datagram) : UInt8 := d.data (d.packet + 1)

/-- `icmp_hun.ih_idseq.icd_id` -/
def icdId (e : Endian) (d : Datagram) : Nat := load16 e d.data (d.packet + 4)

def node (d : Datagram) : TracerouteNode := ⟨inetNtoa d.sender, d.sender⟩

end Datagram

/-- Shorter datagrams are skipped. -/
def longEnough (d : Datagram) : Bool := decide (ipSize + 8 ≤ d.count)

/-- The filter: "Check if it's actually ours and what we expect". -/
def passes (e : Endian) (ident : Nat) (d : Datagram) : Bool :=
  !(decide (d.icmpType ≠ icmpEchoReply) && decide (d.icmpType ≠ icmpTimeExceeded) &&
    decide (d.icdId e ≠ ident))

/-- The test for the destination, which looks at the code. -/
def reached (opts : TracerouteOpts) (d : Datagram) : Bool :=
  decide (d.icmpCode = icmpEchoReply) && decide (d.sender = opts.ip)

/-! ## The loop -/

inductive Outcome
  /-- The result of `sendto`. -/
  | sent (n : Int)
  /-- `recvfrom` fails, with `EAGAIN` or otherwise. -/
  | recvError (again : Bool)
  /-- `recvfrom` returns 0. -/
  | recvNothing
  | received (d : Datagram)

inductive Phase
  | send
  | recv
  | exit
deriving DecidableEq

structure Trace where
  hops : Int
  retries : Int
  ttl : UInt8
  result : TracerouteResult
  /-- The TTLs of the probes that were handed to `sendto`. -/
  probes : List UInt8
  lines : List Line
  phase : Phase

namespace Trace

variable (opts : TracerouteOpts)

/-- The head of the loop. -/
def head (t : Trace) : Trace :=
  if 0 < t.hops then
    if t.retries ≤ 0 then
      { t with
          lines := t.lines ++ if opts.quiet then [] else [.text "Max retries exceeded, exiting..\n"]
          phase := .exit }
    else { t with phase := .send }
  else { t with phase := .exit }

/-- The label `done`. -/
def done (t : Trace) : Trace :=
  head opts { t with hops := t.hops - 1, retries := maxRetries, ttl := t.ttl + 1 }

/-- A failed call, and `continue`. -/
def retry (t : Trace) (s : String) : Trace :=
  head opts { t with
    lines := t.lines ++ (if opts.quiet then [] else [.perror s]) ++
      (if opts.verbose then [.retry t.retries] else [])
    retries := t.retries - 1 }

/-- A new node at the end of the list. -/
def record (t : Trace) (d : Datagram) : Trace :=
  { t with
      result := ⟨t.result.hops + 1, t.result.nodes ++ [d.node]⟩
      lines := t.lines ++ if opts.quiet then [] else [.hop (t.result.hops + 1) d.node.addr] }

def afterSend (t : Trace) (n : Int) : Trace :=
  let t := { t with probes := t.probes ++ [t.ttl] }
  if n < frameLen then retry opts t "Send failed" else { t with phase := .recv }

def afterRecv (e : Endian) (ctx : TracerouteCtx) (t : Trace) (d : Datagram) : Trace :=
  if longEnough d then
    if passes e ctx.ident d then
      let t := record opts t d
      if reached opts d then { t with phase := .exit } else done opts t
    else t
  else t

end Trace

open Trace

/-- One result of `sendto` or `recvfrom`. -/
def traceStep (e : Endian) (opts : TracerouteOpts) (ctx : TracerouteCtx) (t : Trace) :
    Outcome → Trace
  | .sent n => afterSend opts t n
  | .recvError true => done opts t
  | .recvError false => retry opts t "Recv failed, packet lost"
  | .recvNothing => done opts t
  | .received d => afterRecv opts e ctx t d

/-- The call comes next, and `recvfrom` stores no more than it was asked for. -/
def traceGuard (t : Trace) : Outcome → Prop
  | .sent _ => t.phase = .send
  | .received d => t.phase = .recv ∧ 0 < d.count ∧ d.count ≤ frameLen
  | _ => t.phase = .recv

def traceroute (e : Endian) (opts : TracerouteOpts) (ctx : TracerouteCtx) :
    Guarded Trace Outcome := ⟨traceGuard, traceStep e opts ctx⟩

def traceStart (opts : TracerouteOpts) : Trace :=
  head opts ⟨opts.maxHops, maxRetries, 1, ⟨0, []⟩, [], [], .send⟩

/-- What `do_traceroute` leaves: its result, what it stored in `*resptr`, the descriptors
    it closed, and the result record if it freed that. -/
structure Returned where
  rval : Bool
  resptr : Option TracerouteResult
  closed : List Int
  freed : Option TracerouteResult

def finish (ctx : TracerouteCtx) (t : Trace) : Returned :=
  if 0 < t.hops then ⟨true, some t.result, [ctx.fd], none⟩
  else ⟨false, none, [ctx.fd], some t.result⟩

/-- A call of `do_traceroute` returns `r` after the outcomes `os`. -/
def Runs (e : Endian) (opts : TracerouteOpts) (calls : OpenCalls) (os : List Outcome)
    (r : Returned) : Prop :=
  match (trOpen opts calls).ctx with
  | none => os = [] ∧ r = ⟨false, none, (trOpen opts calls).closed, none⟩
  | some ctx =>
    (traceroute e opts ctx).Legal (traceStart opts) os ∧
      ((traceroute e opts ctx).exec (traceStart opts) os).phase = .exit ∧
      r = finish ctx ((traceroute e opts ctx).exec (traceStart opts) os)

/-! ## What a run is to tell -/

/-- The datagram of an outcome that makes a node. -/
def recordedOf (e : Endian) (ident : Nat) : Outcome → Option Datagram
  | .received d => if longEnough d && passes e ident d then some d else none
  | _ => none

/-- The datagrams that make nodes, in order. -/
def recorded (e : Endian) (ident : Nat) (os : List Outcome) : List Datagram :=
  os.filterMap (recordedOf e ident)

/-- An echo reply of the destination with the identifier of this run. -/
structure Genuine (e : Endian) (opts : TracerouteOpts) (d : Datagram) : Prop where
  inside : d.packet + 8 ≤ d.count
  echoReply : d.icmpType = icmpEchoReply
  ident : d.icdId e = traceIdent
  sender : d.sender = opts.ip

/-- The last node was made from a genuine reply. -/
def Answered (e : Endian) (opts : TracerouteOpts) (os : List Outcome) : Prop :=
  ∃ d, (recorded e traceIdent os).getLast? = some d ∧ Genuine e opts d

/-- A call fails, and not because the time is over. -/
def Fails : Outcome → Prop
  | .sent n => n < frameLen
  | .recvError again => again = false
  | _ => False

/-- The datagram passes for the answer of the destination. -/
def Reaches (e : Endian) (ident : Nat) (opts : TracerouteOpts) (o : Outcome) : Prop :=
  ∃ d, recordedOf e ident o = some d ∧ reached opts d = true

/-- What must not go wrong: the outcomes do not end with a failure, unless behind a genuine
    reply; no other datagram with code 0 comes from the destination; and a genuine reply
    has code 0, unless failures follow it to the end. -/
structure NoSlip (e : Endian) (opts : TracerouteOpts) (os : List Outcome) : Prop where
  failure : ∀ o, os.getLast? = some o → Fails o → Answered e opts os
  other : ∀ o d, os.getLast? = some o → recordedOf e traceIdent o = some d →
    d.icmpCode = icmpEchoReply → d.sender = opts.ip → Genuine e opts d
  code : ∀ d, (recorded e traceIdent os).getLast? = some d → Genuine e opts d →
    d.icmpCode = icmpEchoReply ∨ ∃ o, os.getLast? = some o ∧ Fails o

/-! ## One step -/

variable {e : Endian} {opts : TracerouteOpts} {ctx : TracerouteCtx} {t : Trace}

namespace Trace

/-- While the loop goes on there are hops and retries left. -/
def Going (t : Trace) : Prop := t.phase ≠ .exit → 0 < t.hops ∧ 0 < t.retries

theorem send_ne_exit (h : t.phase = .send) : t.phase ≠ .exit := by
  rw [h]
  decide

theorem recv_ne_exit (h : t.phase = .recv) : t.phase ≠ .exit := by
  rw [h]
  decide

/-- What the head of the loop keeps, and when it leaves. -/
theorem head_spec (opts : TracerouteOpts) (t : Trace) :
    (head opts t).hops = t.hops ∧ (head opts t).retries = t.retries ∧
      (head opts t).result = t.result ∧
      ((head opts t).phase = .exit ↔ t.hops ≤ 0 ∨ t.retries ≤ 0) := by
  unfold head
  split
  · split
    · exact ⟨rfl, rfl, rfl, by simp; omega⟩
    · exact ⟨rfl, rfl, rfl, by simp; omega⟩
  · exact ⟨rfl, rfl, rfl, by simp; omega⟩

theorem head_frame (opts : TracerouteOpts) (t : Trace) :
    (head opts t).ttl = t.ttl ∧ (head opts t).probes = t.probes := by
  unfold head
  split
  · split <;> exact ⟨rfl, rfl⟩
  · exact ⟨rfl, rfl⟩

theorem going_head (opts : TracerouteOpts) (t : Trace) : Going (head opts t) := by
  intro hne
  obtain ⟨hhops, hretries, -, hexit⟩ := head_spec opts t
  rw [hhops, hretries]
  have h := mt hexit.mpr hne
  omega

/-- The counters behind `done`. -/
theorem done_frame (opts : TracerouteOpts) (t : Trace) :
    (done opts t).ttl = t.ttl + 1 ∧ (done opts t).hops = t.hops - 1 ∧
      (done opts t).retries = maxRetries ∧ (done opts t).probes = t.probes ∧
      ((done opts t).phase = .exit ↔ t.hops - 1 ≤ 0) := by
  obtain ⟨hhops, hretries, -, hexit⟩ := head_spec opts
    { t with hops := t.hops - 1, retries := maxRetries, ttl := t.ttl + 1 }
  obtain ⟨httl, hprobes⟩ := head_frame opts
    { t with hops := t.hops - 1, retries := maxRetries, ttl := t.ttl + 1 }
  exact ⟨httl, hhops, hretries, hprobes,
    hexit.trans (or_iff_left (show ¬ maxRetries ≤ 0 by decide))⟩

/-- The counters behind a failure. -/
theorem retry_frame (opts : TracerouteOpts) (t : Trace) (s : String) :
    (retry opts t s).ttl = t.ttl ∧ (retry opts t s).hops = t.hops ∧
      (retry opts t s).retries = t.retries - 1 ∧ (retry opts t s).probes = t.probes ∧
      ((retry opts t s).phase = .exit ↔ t.hops ≤ 0 ∨ t.retries - 1 ≤ 0) := by
  obtain ⟨hhops, hretries, -, hexit⟩ := head_spec opts
    { t with
      lines := t.lines ++ (if opts.quiet then [] else [.perror s]) ++
        (if opts.verbose then [.retry t.retries] else [])
      retries := t.retries - 1 }
  obtain ⟨httl, hprobes⟩ := head_frame opts
    { t with
      lines := t.lines ++ (if opts.quiet then [] else [.perror s]) ++
        (if opts.verbose then [.retry t.retries] else [])
      retries := t.retries - 1 }
  exact ⟨httl, hhops, hretries, hprobes, hexit⟩

/-- `done` leaves the loop when no hop is left. -/
theorem done_spec (opts : TracerouteOpts) (t : Trace) :
    (done opts t).result = t.result ∧ Going (done opts t) ∧
      ((done opts t).phase = .exit → ¬ 0 < (done opts t).hops) := by
  obtain ⟨-, hhops, -, -, hexit⟩ := done_frame opts t
  have hresult := (head_spec opts
    { t with hops := t.hops - 1, retries := maxRetries, ttl := t.ttl + 1 }).2.2.1
  refine ⟨hresult, going_head opts _, fun hphase => ?_⟩
  rw [hhops]
  exact not_lt.mpr (hexit.mp hphase)

/-- `retry` leaves the loop when no retry is left, with all hops that were left. -/
theorem retry_spec (opts : TracerouteOpts) (t : Trace) (s : String) :
    (retry opts t s).result = t.result ∧ Going (retry opts t s) ∧
      (retry opts t s).hops = t.hops := by
  have hresult := (head_spec opts
    { t with
      lines := t.lines ++ (if opts.quiet then [] else [.perror s]) ++
        (if opts.verbose then [.retry t.retries] else [])
      retries := t.retries - 1 }).2.2.1
  exact ⟨hresult, going_head opts _, (retry_frame opts t s).2.1⟩

end Trace

/-- What a step does: a node for a recorded datagram; and it leaves the loop with hops left
    exactly on a failure or on a datagram that passes for the answer. -/
structure StepSpec (e : Endian) (opts : TracerouteOpts) (ident : Nat) (o : Outcome)
    (t t' : Trace) : Prop where
  nodes : t'.result.nodes = t.result.nodes ++ (recordedOf e ident o).toList.map Datagram.node
  going : Going t'
  exits : t'.phase = .exit → (0 < t'.hops ↔ Fails o ∨ Reaches e ident opts o)
  stays : t'.phase ≠ .exit → ¬ Reaches e ident opts o

/-- The loop starts with all hops and no node, and not at all without a hop. -/
theorem traceStart_spec (opts : TracerouteOpts) :
    Going (traceStart opts) ∧ (traceStart opts).result.nodes = [] ∧
      ((traceStart opts).phase = .exit → ¬ 0 < (traceStart opts).hops) := by
  obtain ⟨hhops, -, hresult, hexit⟩ :=
    head_spec opts ⟨opts.maxHops, maxRetries, 1, ⟨0, []⟩, [], [], .send⟩
  refine ⟨going_head opts _, congrArg TracerouteResult.nodes hresult, ?_⟩
  intro hphase
  have hten : ¬ maxRetries ≤ 0 := by decide
  show ¬ 0 < (head opts _).hops
  rw [hhops]
  exact not_lt.mpr ((hexit.mp hphase).resolve_right hten)

theorem not_reaches {ident : Nat} {o : Outcome} (h : recordedOf e ident o = none) :
    ¬ Reaches e ident opts o := by
  rintro ⟨d, hd, -⟩
  rw [h] at hd
  cases hd

/-- A call that fails. -/
theorem retry_step {ident : Nat} {o : Outcome} (hgo : Going t) (hphase : t.phase ≠ .exit)
    (hf : Fails o) (hr : recordedOf e ident o = none) (s : String) (probes : List UInt8) :
    StepSpec e opts ident o t (retry opts { t with probes := probes } s) := by
  obtain ⟨hresult, hgo', hhops⟩ := retry_spec opts { t with probes := probes } s
  refine ⟨?_, hgo', ?_, fun _ => not_reaches hr⟩
  · rw [hresult, hr]
    exact (List.append_nil _).symm
  · intro _
    rw [hhops]
    exact ⟨fun _ => Or.inl hf, fun _ => (hgo hphase).1⟩

/-- The time is over, or nothing was received. -/
theorem done_step {ident : Nat} {o : Outcome} (hf : ¬ Fails o)
    (hr : recordedOf e ident o = none) : StepSpec e opts ident o t (done opts t) := by
  obtain ⟨hresult, hgo', hexit⟩ := done_spec opts t
  refine ⟨?_, hgo', ?_, fun _ => not_reaches hr⟩
  · rw [hresult, hr]
    exact (List.append_nil _).symm
  · intro h
    exact ⟨fun hpos => absurd hpos (hexit h), fun hor => (hor.elim hf (not_reaches hr)).elim⟩

/-- The loop goes on and nothing else happens. -/
theorem quiet_step {ident : Nat} {o : Outcome} {t' : Trace} (hgo : Going t)
    (hphase : t.phase ≠ .exit) (hr : recordedOf e ident o = none)
    (hsame : t'.result = t.result ∧ t'.hops = t.hops ∧ t'.retries = t.retries)
    (hphase' : t'.phase ≠ .exit) : StepSpec e opts ident o t t' := by
  obtain ⟨hresult, hhops, hretries⟩ := hsame
  refine ⟨?_, ?_, fun h => absurd h hphase', fun _ => not_reaches hr⟩
  · rw [hresult, hr]
    exact (List.append_nil _).symm
  · intro _
    rw [hhops, hretries]
    exact hgo hphase

theorem recordedOf_some {ident : Nat} {d d' : Datagram} :
    recordedOf e ident (.received d) = some d' ↔
      (longEnough d = true ∧ passes e ident d = true) ∧ d = d' := by
  simp [recordedOf]

theorem recordedOf_none {ident : Nat} {d : Datagram} :
    recordedOf e ident (.received d) = none ↔
      longEnough d = false ∨ passes e ident d = false := by
  cases hl : longEnough d <;> cases hp : passes e ident d <;> simp [recordedOf, hl, hp]

/-- What makes no node is skipped. -/
theorem afterRecv_none {d : Datagram} (h : recordedOf e ctx.ident (.received d) = none) :
    afterRecv opts e ctx t d = t := by
  unfold afterRecv
  rcases recordedOf_none.mp h with h | h <;> simp [h]

theorem received_step {d : Datagram} (hgo : Going t) (hphase : t.phase = .recv) :
    StepSpec e opts ctx.ident (.received d) t (afterRecv opts e ctx t d) := by
  have hne := recv_ne_exit hphase
  cases hrec : recordedOf e ctx.ident (.received d) with
  | none =>
    rw [afterRecv_none hrec]
    exact quiet_step hgo hne hrec ⟨rfl, rfl, rfl⟩ hne
  | some d' =>
    unfold afterRecv
    obtain ⟨⟨hlong, hpass⟩, rfl⟩ := recordedOf_some.mp hrec
    rw [if_pos hlong, if_pos hpass]
    dsimp only
    by_cases hreach : reached opts d = true
    · have hok : Reaches e ctx.ident opts (.received d) := ⟨d, hrec, hreach⟩
      rw [if_pos hreach]
      refine ⟨?_, fun h => absurd rfl h, ?_, fun h => absurd rfl h⟩
      · rw [hrec]
        rfl
      · intro _
        exact ⟨fun _ => Or.inr hok, fun _ => (hgo hne).1⟩
    · obtain ⟨hresult, hgo', hexit⟩ := done_spec opts (record opts t d)
      have hno : ¬ Reaches e ctx.ident opts (.received d) := by
        rintro ⟨d', hd', hd⟩
        obtain rfl := Option.some.inj (hrec.symm.trans hd')
        exact hreach hd
      rw [if_neg hreach]
      refine ⟨?_, hgo', ?_, fun _ => hno⟩
      · rw [hresult, hrec]
        rfl
      · intro h
        exact ⟨fun hpos => absurd hpos (hexit h), fun hor => (hor.elim id hno).elim⟩

theorem traceStep_spec {o : Outcome} (hgo : Going t) (hphase : t.phase ≠ .exit)
    (hg : (traceroute e opts ctx).guard t o) :
    StepSpec e opts ctx.ident o t ((traceroute e opts ctx).step t o) := by
  cases o with
  | sent n =>
    show StepSpec e opts ctx.ident (.sent n) t (afterSend opts t n)
    unfold afterSend
    dsimp only
    split
    · next hn => exact retry_step (o := .sent n) hgo hphase hn rfl _ _
    · exact quiet_step hgo hphase rfl ⟨rfl, rfl, rfl⟩ (by simp)
  | recvError again =>
    cases again with
    | true => exact done_step (fun h => nomatch h) rfl
    | false => exact retry_step (o := .recvError false) hgo hphase rfl rfl _ t.probes
  | recvNothing => exact done_step id rfl
  | received d => exact received_step hgo hg.1

/-! ## Runs -/

/-- Nothing happens once the loop is left. -/
theorem not_guard_exit {o : Outcome} (hphase : t.phase = .exit) :
    ¬ (traceroute e opts ctx).guard t o := by
  intro hg
  cases o with
  | sent n => exact absurd (hphase.symm.trans hg) (by decide)
  | recvError again => exact absurd (hphase.symm.trans hg) (by decide)
  | recvNothing => exact absurd (hphase.symm.trans hg) (by decide)
  | received d => exact absurd (hphase.symm.trans hg.1) (by decide)

/-- The nodes of the result are those of the recorded datagrams. -/
theorem nodes_recorded {os : List Outcome} (hgo : Going t)
    (hes : (traceroute e opts ctx).Legal t os) :
    ((traceroute e opts ctx).exec t os).result.nodes =
      t.result.nodes ++ (recorded e ctx.ident os).map Datagram.node := by
  induction os generalizing t with
  | nil => exact (List.append_nil _).symm
  | cons o os ih =>
    have hphase : t.phase ≠ .exit := fun h => not_guard_exit h hes.1
    have hstep := traceStep_spec hgo hphase hes.1
    have htail := ih hstep.going hes.2
    have hrec : recorded e ctx.ident (o :: os) =
        (recordedOf e ctx.ident o).toList ++ recorded e ctx.ident os := by
      unfold recorded
      rw [List.filterMap_cons]
      cases recordedOf e ctx.ident o <;> rfl
    show ((traceroute e opts ctx).exec ((traceroute e opts ctx).step t o) os).result.nodes = _
    rw [htail, hstep.nodes, hrec, List.map_append, List.append_assoc]

/-- The last outcome decides: hops are left exactly if it is a failure or passes for the
    answer, and no outcome before passes for the answer. -/
theorem run_ends {os : List Outcome} (hgo : Going t) (hphase : t.phase ≠ .exit)
    (hes : (traceroute e opts ctx).Legal t os)
    (hexit : ((traceroute e opts ctx).exec t os).phase = .exit) :
    ∃ os' o, os = os' ++ [o] ∧ (∀ o' ∈ os', ¬ Reaches e ctx.ident opts o') ∧
      (0 < ((traceroute e opts ctx).exec t os).hops ↔ Fails o ∨ Reaches e ctx.ident opts o) := by
  induction os generalizing t with
  | nil => exact absurd hexit hphase
  | cons o os ih =>
    have hstep := traceStep_spec hgo hphase hes.1
    by_cases hend : ((traceroute e opts ctx).step t o).phase = .exit
    · cases os with
      | nil => exact ⟨[], o, rfl, (fun _ h => nomatch h), hstep.exits hend⟩
      | cons o' os => exact absurd hes.2.1 (not_guard_exit hend)
    · obtain ⟨os', o', rfl, hbefore, hlast⟩ := ih hstep.going hend hes.2 hexit
      refine ⟨o :: os', o', rfl, ?_, hlast⟩
      intro o'' ho
      rcases List.mem_cons.mp ho with rfl | ho
      · exact hstep.stays hend
      · exact hbefore o'' ho

/-! ## Success -/

theorem reached_iff {d : Datagram} :
    reached opts d = true ↔ d.icmpCode = icmpEchoReply ∧ d.sender = opts.ip := by
  simp [reached]

/-- A datagram recorded from the last outcome is the last one recorded. -/
theorem recorded_last {ident : Nat} {os' : List Outcome} {o : Outcome} {d : Datagram}
    (hd : recordedOf e ident o = some d) :
    (recorded e ident (os' ++ [o])).getLast? = some d := by
  unfold recorded
  rw [List.filterMap_append, List.filterMap_cons, hd]
  exact List.getLast?_concat

/-- Hops are left exactly on a genuine reply, if and only if nothing slips. -/
theorem answered_iff_noSlip {os' : List Outcome} {o : Outcome}
    (hbefore : ∀ o' ∈ os', ¬ Reaches e traceIdent opts o') :
    ((Fails o ∨ Reaches e traceIdent opts o) ↔ Answered e opts (os' ++ [o])) ↔
      NoSlip e opts (os' ++ [o]) := by
  have hlast : (os' ++ [o]).getLast? = some o := List.getLast?_concat
  constructor
  · intro hiff
    refine ⟨?_, ?_, ?_⟩
    · intro o' ho hf
      obtain rfl := Option.some.inj (hlast.symm.trans ho)
      exact hiff.mp (Or.inl hf)
    · intro o' d ho hd hcode hsender
      obtain rfl := Option.some.inj (hlast.symm.trans ho)
      obtain ⟨d', hd', hgen⟩ := hiff.mp (Or.inr ⟨d, hd, reached_iff.mpr ⟨hcode, hsender⟩⟩)
      obtain rfl := Option.some.inj ((recorded_last hd).symm.trans hd')
      exact hgen
    · intro d hd hgen
      rcases hiff.mpr ⟨d, hd, hgen⟩ with hf | ⟨d', hd', hreach⟩
      · exact Or.inr ⟨o, hlast, hf⟩
      · obtain rfl := Option.some.inj ((recorded_last hd').symm.trans hd)
        exact Or.inl (reached_iff.mp hreach).1
  · intro hslip
    constructor
    · rintro (hf | ⟨d, hd, hreach⟩)
      · exact hslip.failure o hlast hf
      · obtain ⟨hcode, hsender⟩ := reached_iff.mp hreach
        exact ⟨d, recorded_last hd, hslip.other o d hlast hd hcode hsender⟩
    · rintro ⟨d, hd, hgen⟩
      rcases hslip.code d hd hgen with hcode | ⟨o', ho', hf⟩
      · obtain ⟨o', ho', hd'⟩ := List.mem_filterMap.mp (List.mem_of_getLast? hd)
        have hreach : Reaches e traceIdent opts o' :=
          ⟨d, hd', reached_iff.mpr ⟨hcode, hgen.sender⟩⟩
        rcases List.mem_append.mp ho' with hmem | hmem
        · exact absurd hreach (hbefore o' hmem)
        · rw [List.mem_singleton.mp hmem] at hreach
          exact Or.inr hreach
      · obtain rfl := Option.some.inj (hlast.symm.trans ho')
        exact Or.inl hf

theorem noSlip_nil (e : Endian) (opts : TracerouteOpts) : NoSlip e opts [] where
  failure := by intro o ho; cases ho
  other := by intro o d ho; cases ho
  code := by intro d hd; cases hd

theorem not_answered_nil (e : Endian) (opts : TracerouteOpts) : ¬ Answered e opts [] := by
  rintro ⟨d, hd, -⟩
  cases hd

theorem trOpen_ident {calls : OpenCalls} (h : (trOpen opts calls).ctx = some ctx) :
    ctx.ident = traceIdent := by
  unfold trOpen openFailed at h
  split_ifs at h
  obtain rfl := Option.some.inj h
  rfl

theorem finish_rval (ctx : TracerouteCtx) (t : Trace) :
    (finish ctx t).rval = true ↔ 0 < t.hops := by
  unfold finish
  split <;> simp [*]

/-- Whether it is handed out or freed, the result lists the recorded datagrams. -/
theorem runs_nodes {calls : OpenCalls} {os : List Outcome} {r : Returned}
    (hrun : Runs e opts calls os r) {res : TracerouteResult}
    (hres : r.resptr = some res ∨ r.freed = some res) :
    res.nodes = (recorded e traceIdent os).map Datagram.node := by
  unfold Runs at hrun
  split at hrun
  · obtain ⟨-, rfl⟩ := hrun
    rcases hres with h | h <;> cases h
  · next ctx hctx =>
    obtain ⟨hes, -, rfl⟩ := hrun
    obtain ⟨hgo, hstart, -⟩ := traceStart_spec opts
    have hnodes := nodes_recorded hgo hes
    have hsame : res = ((traceroute e opts ctx).exec (traceStart opts) os).result := by
      unfold finish at hres
      split at hres
      · rcases hres with h | h <;> cases h
        rfl
      · rcases hres with h | h <;> cases h
        rfl
    rw [hsame, ← trOpen_ident hctx, hnodes, hstart, List.nil_append]

/-- **`do_traceroute` returns true exactly when the last node comes from a genuine reply, if
    and only if nothing slips.** Running out of retries is a success, and so is any packet
    with code 0 from the destination; a genuine reply with another code is not. -/
theorem traceroute_success_iff (e : Endian) (opts : TracerouteOpts) (calls : OpenCalls)
    {os : List Outcome} {r : Returned} (hrun : Runs e opts calls os r) :
    (r.rval = true ↔ Answered e opts os) ↔ NoSlip e opts os := by
  unfold Runs at hrun
  split at hrun
  · obtain ⟨rfl, rfl⟩ := hrun
    exact iff_of_true
      ⟨fun h => absurd h Bool.false_ne_true, fun h => absurd h (not_answered_nil e opts)⟩
      (noSlip_nil e opts)
  · next ctx hctx =>
    obtain ⟨hes, hexit, rfl⟩ := hrun
    obtain ⟨hgo, -, hstop⟩ := traceStart_spec opts
    rw [finish_rval]
    by_cases hphase : (traceStart opts).phase = .exit
    · have hnil : os = [] := by
        cases os with
        | nil => rfl
        | cons o os => exact absurd hes.1 (not_guard_exit hphase)
      subst hnil
      have hzero := hstop hphase
      exact iff_of_true
        ⟨fun h => absurd h hzero, fun h => absurd h (not_answered_nil e opts)⟩
        (noSlip_nil e opts)
    · obtain ⟨os', o, rfl, hbefore, hlast⟩ := run_ends hgo hphase hes hexit
      rw [trOpen_ident hctx] at hbefore hlast
      rw [hlast]
      exact answered_iff_noSlip hbefore

/-- One hop, to 10.0.0.1, without output. -/
def oneHop : TracerouteOpts := ⟨⟨10, 0, 0, 1⟩, 1, 0⟩

def openCalls : OpenCalls := ⟨3, 0, 0, 0, 0⟩

/-- The context that `_tr_open` makes of them. -/
def openCtx : TracerouteCtx := ⟨3, traceIdent⟩

/-- An echo reply of 10.0.0.1 with the identifier 5930, behind an IP header of 20 bytes. -/
def echoReply : Datagram where
  sender := ⟨10, 0, 0, 1⟩
  count := 48
  data a := if a = 0 then 0x45 else if a = 24 then 0x17 else if a = 25 then 0x2a else 0

/-- A router at 10.0.0.2 reports that the TTL was exceeded. -/
def exceeded : Datagram where
  sender := ⟨10, 0, 0, 2⟩
  count := 48
  data a := if a = 0 then 0x45 else if a = 20 then 11 else 0

theorem traceroute_success_iff_echoReply :
    Answered .big oneHop [.sent 48, .received echoReply] := by
  have hrun : Runs .big oneHop openCalls [.sent 48, .received echoReply]
      ⟨true, some ⟨1, [echoReply.node]⟩, [3], none⟩ :=
    ⟨⟨rfl, ⟨rfl, by decide, by decide⟩, trivial⟩, rfl, rfl⟩
  have hgen : Genuine .big oneHop echoReply := ⟨by decide, rfl, by decide, rfl⟩
  have hslip : NoSlip .big oneHop [.sent 48, .received echoReply] := by
    refine ⟨?_, ?_, ?_⟩
    · intro o ho hf
      obtain rfl := Option.some.inj ho
      exact hf.elim
    · intro o d ho hd _ _
      obtain rfl := Option.some.inj ho
      obtain rfl := Option.some.inj hd
      exact hgen
    · intro d hd _
      obtain rfl := Option.some.inj hd
      exact Or.inl rfl
  exact ((traceroute_success_iff .big oneHop openCalls hrun).mpr hslip).mp rfl

/-- Ten sends fail, nothing was received, and the result is true. -/
theorem traceroute_retries :
    Runs .big oneHop openCalls (List.replicate 10 (.sent (-1)))
        ⟨true, some ⟨0, []⟩, [3], none⟩ ∧
      ¬ Answered .big oneHop (List.replicate 10 (.sent (-1))) ∧
      ¬ ∀ e opts calls os r, Runs e opts calls os r →
        (r.rval = true ↔ Answered e opts os) := by
  have hrun : Runs .big oneHop openCalls (List.replicate 10 (.sent (-1)))
      ⟨true, some ⟨0, []⟩, [3], none⟩ :=
    ⟨⟨rfl, rfl, rfl, rfl, rfl, rfl, rfl, rfl, rfl, rfl, trivial⟩, rfl, rfl⟩
  have hno : ¬ Answered .big oneHop (List.replicate 10 (.sent (-1))) := by
    rintro ⟨d, hd, -⟩
    cases hd
  exact ⟨hrun, hno, fun h => hno ((h _ _ _ _ _ hrun).mp rfl)⟩

end SsrlApps.MiscUtils
