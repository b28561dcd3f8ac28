/-
  Which datagrams make nodes, and under which numbers.

  Model. What is heard (`Heard`) is the result of a call together with the probe of this run
  that a received datagram answers or quotes, if there is one; the network knows it, the
  code does not. A datagram is an answer (`Own`) if it holds an echo reply with the
  identifier of the run or a TIME_EXCEEDED that quotes one of its probes. The number of a
  node is `result->hops` behind `++result->hops`, which is printed unless the log is quiet.

  `Past` counts what a run has heard: the receives without an answer, the nodes, and for
  each probe the hops that were done when it was sent.

  Proved:
  * `recordsOwn_iff`: only answers make nodes, and nothing else changes anything, exactly if
    no other datagram shows one of the two types or the identifier.
  * `numbersTtl_iff`: the numbers are TTLs exactly if every answer comes as many hops late as
    there were receives without an answer.
-/
import SsrlApps.MiscUtils.Traceroute

namespace SsrlApps.MiscUtils

open Trace

/-! ## What is heard -/

structure Heard where
  outcome : Outcome
  /-- The index of the probe that the datagram answers or quotes. -/
  probe : Option Nat

/-- A probe is answered after it was handed to `sendto`. -/
def heardGuard (t : Trace) (h : Heard) : Prop :=
  traceGuard t h.outcome ∧ ∀ j, h.probe = some j → j < t.probes.length

/-- `do_traceroute`, with what the network knows. -/
def heard (e : Endian) (opts : TracerouteOpts) (ctx : TracerouteCtx) : Guarded Trace Heard :=
  ⟨heardGuard, fun t h => traceStep e opts ctx t h.outcome⟩

/-- The datagram answers a probe of the run with the identifier `ident`. -/
structure Own (e : Endian) (ident : Nat) (d : Datagram) (probe : Option Nat) : Prop where
  inside : d.packet + 8 ≤ d.count
  answer : d.icmpType = icmpEchoReply ∧ d.icdId e = ident ∨
    d.icmpType = icmpTimeExceeded ∧ probe.isSome

/-- The datagram that makes a node, with its probe. -/
def keptOf (e : Endian) (ident : Nat) (h : Heard) : Option (Datagram × Option Nat) :=
  (recordedOf e ident h.outcome).map fun d => (d, h.probe)

/-- Every node comes from an answer, and what is no answer changes nothing. -/
structure RecordsOwn (e : Endian) (opts : TracerouteOpts) (ctx : TracerouteCtx)
    (hs : List Heard) : Prop where
  nodes : ∃ ds : List (Datagram × Option Nat), (∀ x ∈ ds, Own e ctx.ident x.1 x.2) ∧
    (∀ x ∈ ds, ∃ h ∈ hs, h.outcome = .received x.1 ∧ h.probe = x.2) ∧
    ((heard e opts ctx).exec (traceStart opts) hs).result.nodes = ds.map fun x => x.1.node
  skips : (heard e opts ctx).Always (fun t h => ∀ d, h.outcome = .received d →
    ¬ Own e ctx.ident d h.probe → (heard e opts ctx).step t h = t) (traceStart opts) hs

/-- No other datagram of at least 28 bytes shows, in the buffer, one of the two types or the
    identifier. -/
def NoLookalike (e : Endian) (ident : Nat) (hs : List Heard) : Prop :=
  ∀ h ∈ hs, ∀ d, h.outcome = .received d → ¬ Own e ident d h.probe → longEnough d = true →
    d.icmpType ≠ icmpEchoReply ∧ d.icmpType ≠ icmpTimeExceeded ∧ d.icdId e ≠ ident

variable {e : Endian} {opts : TracerouteOpts} {ctx : TracerouteCtx} {t : Trace}

/-! ## Numbers -/

/-- What a run has heard. -/
structure Past where
  /-- The receives that timed out or were empty. -/
  silent : Nat
  nodes : Nat
  /-- For each probe, the hops done before it was sent. -/
  sentAt : List Nat

namespace Past

def none : Past := ⟨0, 0, []⟩

/-- A hop is done by an answer, or without one. -/
def done (p : Past) : Nat := p.silent + p.nodes

def after (e : Endian) (ident : Nat) (p : Past) (h : Heard) : Past :=
  match h.outcome with
  | .sent _ => { p with sentAt := p.sentAt ++ [p.done] }
  | .recvError true | .recvNothing => { p with silent := p.silent + 1 }
  | .recvError false => p
  | .received d =>
    if (recordedOf e ident (.received d)).isSome then { p with nodes := p.nodes + 1 } else p

end Past

/-- The number of the node that `h` makes is the TTL of the probe that it answers. -/
def NumberOk (e : Endian) (opts : TracerouteOpts) (ctx : TracerouteCtx) (t : Trace)
    (h : Heard) : Prop :=
  (recordedOf e ctx.ident h.outcome).isSome → ∃ j ttl, h.probe = some j ∧
    t.probes[j]? = some ttl ∧ (traceStep e opts ctx t h.outcome).result.hops = ttl.toNat

/-- The number is printed with the node. -/
def Printed (e : Endian) (opts : TracerouteOpts) (ctx : TracerouteCtx) (t : Trace)
    (h : Heard) : Prop :=
  ∀ d, recordedOf e ctx.ident h.outcome = some d → opts.quiet = false →
    .hop (traceStep e opts ctx t h.outcome).result.hops d.node.addr ∈
      (traceStep e opts ctx t h.outcome).lines

/-- The numbers that are printed with the nodes are TTLs, and the list is as long as
    `result->hops`. -/
structure NumbersTtl (e : Endian) (opts : TracerouteOpts) (ctx : TracerouteCtx)
    (hs : List Heard) : Prop where
  numbers : (heard e opts ctx).Always (NumberOk e opts ctx) (traceStart opts) hs
  printed : (heard e opts ctx).Always (Printed e opts ctx) (traceStart opts) hs
  length : ((heard e opts ctx).exec (traceStart opts) hs).result.hops =
    ((heard e opts ctx).exec (traceStart opts) hs).result.nodes.length

/-- A node is among the first 255, and its probe was sent as many hops ago as there were
    receives without an answer (up to multiples of 256). -/
def Timely (e : Endian) (ident : Nat) (p : Past) (h : Heard) : Prop :=
  (recordedOf e ident h.outcome).isSome → p.nodes < 255 ∧ ∃ j k, h.probe = some j ∧
    p.sentAt[j]? = some k ∧ (p.done - k) % 256 = p.silent % 256

def AllTimely (e : Endian) (ident : Nat) : Past → List Heard → Prop
  | _, [] => True
  | p, h :: hs => Timely e ident p h ∧ AllTimely e ident (p.after e ident h) hs

/-! ## Runs -/

theorem heard_exec (t : Trace) (hs : List Heard) : (heard e opts ctx).exec t hs =
    (traceroute e opts ctx).exec t (hs.map Heard.outcome) := by
  induction hs generalizing t with
  | nil => rfl
  | cons h hs ih => exact ih _

theorem heard_legal {hs : List Heard} (hes : (heard e opts ctx).Legal t hs) :
    (traceroute e opts ctx).Legal t (hs.map Heard.outcome) := by
  induction hs generalizing t with
  | nil => trivial
  | cons h hs ih => exact ⟨hes.1.1, ih hes.2⟩

/-- One step of a legal run. -/
theorem heard_cons {h : Heard} {hs : List Heard} (hgo : Going t)
    (hes : (heard e opts ctx).Legal t (h :: hs)) : t.phase ≠ .exit ∧
      StepSpec e opts ctx.ident h.outcome t (traceStep e opts ctx t h.outcome) := by
  have hguard : (traceroute e opts ctx).guard t h.outcome := hes.1.1
  have hphase : t.phase ≠ .exit := fun hx => not_guard_exit hx hguard
  exact ⟨hphase, traceStep_spec hgo hphase hguard⟩

theorem recordedOf_eq {ident : Nat} {o : Outcome} {d : Datagram}
    (h : recordedOf e ident o = some d) : o = .received d := by
  cases o with
  | received d' => rw [(recordedOf_some.mp h).2]
  | sent n => cases h
  | recvError again => cases h
  | recvNothing => cases h

theorem mem_kept {ident : Nat} {hs : List Heard} {x : Datagram × Option Nat}
    (h : x ∈ hs.filterMap (keptOf e ident)) :
    ∃ k ∈ hs, recordedOf e ident k.outcome = some x.1 ∧ k.outcome = .received x.1 ∧
      k.probe = x.2 := by
  obtain ⟨k, hk, hkept⟩ := List.mem_filterMap.mp h
  obtain ⟨d, hd, rfl⟩ := Option.map_eq_some_iff.mp hkept
  exact ⟨k, hk, hd, recordedOf_eq hd, rfl⟩

theorem nodes_kept {ident : Nat} (hs : List Heard) :
    (recorded e ident (hs.map Heard.outcome)).map Datagram.node =
      (hs.filterMap (keptOf e ident)).map fun x => x.1.node := by
  unfold recorded
  rw [List.filterMap_map, List.map_filterMap, List.map_filterMap]
  refine congrArg (fun f => hs.filterMap f) (funext fun h => ?_)
  show Option.map Datagram.node (recordedOf e ident h.outcome) = _
  unfold keptOf
  rw [Option.map_map]
  rfl

theorem passes_iff_shows {ident : Nat} {d : Datagram} : passes e ident d = false ↔
    d.icmpType ≠ icmpEchoReply ∧ d.icmpType ≠ icmpTimeExceeded ∧ d.icdId e ≠ ident := by
  simp only [passes, Bool.not_eq_false', Bool.and_eq_true, decide_eq_true_eq, and_assoc]

/-- A datagram changes nothing exactly if it makes no node. -/
theorem received_stays {d : Datagram} (hgo : Going t) (hphase : t.phase = .recv) :
    afterRecv opts e ctx t d = t ↔ recordedOf e ctx.ident (.received d) = none := by
  refine ⟨fun hsame => ?_, afterRecv_none⟩
  have hnodes : (afterRecv opts e ctx t d).result.nodes = _ := (received_step hgo hphase).nodes
  rw [hsame] at hnodes
  cases hrec : recordedOf e ctx.ident (.received d) with
  | none => rfl
  | some d' =>
    rw [hrec] at hnodes
    have hlen := congrArg List.length hnodes
    simp at hlen

/-! ## Answers only -/

theorem noLookalike_iff {ident : Nat} {hs : List Heard} : NoLookalike e ident hs ↔
    ∀ h ∈ hs, ∀ d, h.outcome = .received d → ¬ Own e ident d h.probe →
      recordedOf e ident h.outcome = none := by
  unfold NoLookalike
  refine forall_congr' fun h => imp_congr_right fun _ => forall_congr' fun d =>
    imp_congr_right fun hd => imp_congr_right fun _ => ?_
  rw [hd, recordedOf_none, ← passes_iff_shows]
  cases longEnough d <;> simp

/-- Under the guards, skipping and not recording are the same. -/
theorem skips_iff (hgo : Going t) {hs : List Heard} (hes : (heard e opts ctx).Legal t hs) :
    (heard e opts ctx).Always (fun t h => ∀ d, h.outcome = .received d →
      ¬ Own e ctx.ident d h.probe → (heard e opts ctx).step t h = t) t hs ↔
      NoLookalike e ctx.ident hs := by
  rw [noLookalike_iff]
  induction hs generalizing t with
  | nil => simp [Guarded.Always]
  | cons h hs ih =>
    obtain ⟨hphase, hstep⟩ := heard_cons hgo hes
    rw [List.forall_mem_cons, ← ih hstep.going hes.2]
    refine and_congr_left fun _ => forall_congr' fun d => imp_congr_right fun hd =>
      imp_congr_right fun _ => ?_
    have hguard := hes.1.1
    show traceStep e opts ctx t h.outcome = t ↔ _
    rw [hd] at hguard ⊢
    exact received_stays hgo hguard.1

/-- **Only answers make nodes**, and what is no answer is skipped, exactly if no other
    datagram of at least 28 bytes shows one of the two types or the identifier of the run. -/
theorem recordsOwn_iff (e : Endian) (opts : TracerouteOpts) (ctx : TracerouteCtx)
    {hs : List Heard} (hes : (heard e opts ctx).Legal (traceStart opts) hs) :
    RecordsOwn e opts ctx hs ↔ NoLookalike e ctx.ident hs := by
  obtain ⟨hgo, hstart, -⟩ := traceStart_spec opts
  refine ⟨fun h => (skips_iff hgo hes).mp h.skips, fun h => ⟨?_, (skips_iff hgo hes).mpr h⟩⟩
  have hnodes := nodes_recorded hgo (heard_legal hes)
  refine ⟨hs.filterMap (keptOf e ctx.ident), ?_, ?_, ?_⟩
  · intro x hx
    obtain ⟨k, hk, hrec, hout, hprobe⟩ := mem_kept hx
    by_contra hno
    rw [← hprobe] at hno
    have hnone := noLookalike_iff.mp h k hk x.1 hout hno
    rw [hrec] at hnone
    cases hnone
  · intro x hx
    obtain ⟨k, hk, -, hout, hprobe⟩ := mem_kept hx
    exact ⟨k, hk, hout, hprobe⟩
  · rw [heard_exec, hnodes, hstart, List.nil_append, nodes_kept]

/-- The one probe is answered by the destination. -/
theorem recordsOwn_iff_echoReply :
    RecordsOwn .big oneHop openCtx [⟨.sent 48, none⟩, ⟨.received echoReply, some 0⟩] := by
  refine (recordsOwn_iff .big oneHop openCtx ?_).mpr ?_
  · exact ⟨⟨rfl, fun j hj => nomatch hj⟩,
      ⟨⟨rfl, by decide, by decide⟩, fun j hj => by cases hj; decide⟩, trivial⟩
  · intro h hh d hd hno
    rcases List.mem_cons.mp hh with rfl | hh
    · cases hd
    · obtain rfl := List.mem_singleton.mp hh
      obtain rfl := Outcome.received.inj hd
      exact absurd ⟨by decide, Or.inl ⟨by decide, by decide⟩⟩ hno

/-- The reply of 10.0.0.9 to a ping with the identifier 1. -/
def foreignReply : Datagram where
  sender := ⟨10, 0, 0, 9⟩
  count := 48
  data a := if a = 0 then 0x45 else if a = 25 then 1 else 0

/-- It makes a node. -/
theorem records_foreign :
    (trOpen oneHop openCalls).ctx = some openCtx ∧
      ((heard .big oneHop openCtx).exec (traceStart oneHop)
        [⟨.sent 48, none⟩, ⟨.received foreignReply, none⟩]).result.nodes = [foreignReply.node] ∧
      ¬ ∀ e opts ctx hs, (heard e opts ctx).Legal (traceStart opts) hs →
        RecordsOwn e opts ctx hs := by
  have hes : (heard .big oneHop openCtx).Legal (traceStart oneHop)
      [⟨.sent 48, none⟩, ⟨.received foreignReply, none⟩] :=
    ⟨⟨rfl, fun j hj => nomatch hj⟩,
      ⟨⟨rfl, by decide, by decide⟩, fun j hj => nomatch hj⟩, trivial⟩
  refine ⟨rfl, rfl, fun hclaim => ?_⟩
  have hno : ¬ Own .big openCtx.ident foreignReply none := by
    rintro ⟨-, ⟨-, hid⟩ | ⟨-, hprobe⟩⟩
    · exact absurd hid (by decide)
    · cases hprobe
  have hsame := (hclaim _ _ _ _ hes).skips.2.1 foreignReply rfl hno
  exact absurd (congrArg (fun t => t.result.hops) hsame) (by decide)

/-! ## Numbers and TTLs -/

/-- What the state says about the past. -/
structure Tally (p : Past) (t : Trace) : Prop where
  hops : t.result.hops = p.nodes
  length : t.result.nodes.length = p.nodes
  ttl : t.phase ≠ .exit → t.ttl = UInt8.ofNat (1 + p.done)
  probes : t.probes = p.sentAt.map fun k => UInt8.ofNat (1 + k)
  sent : ∀ k ∈ p.sentAt, k ≤ p.done

theorem ofNat_succ (n : Nat) : UInt8.ofNat (1 + n) + 1 = UInt8.ofNat (1 + (n + 1)) :=
  (UInt8.ofNat_add (1 + n) 1).symm

theorem tally_done {p p' : Past} {t' : Trace} (h : Tally p t) (hphase : t.phase ≠ .exit)
    (hnext : p'.done = p.done + 1 ∧ p'.sentAt = p.sentAt)
    (hsame : t'.ttl = t.ttl ∧ t'.probes = t.probes)
    (hnodes : t'.result.hops = p'.nodes ∧ t'.result.nodes.length = p'.nodes) :
    Tally p' (done opts t') := by
  obtain ⟨httl, -, -, hprobes, -⟩ := done_frame opts t'
  have hresult := (done_spec opts t').1
  refine ⟨?_, ?_, ?_, ?_, ?_⟩
  · rw [hresult]
    exact hnodes.1
  · rw [hresult]
    exact hnodes.2
  · intro _
    rw [httl, hsame.1, h.ttl hphase, hnext.1, ofNat_succ]
  · rw [hprobes, hsame.2, h.probes, hnext.2]
  · rw [hnext.1, hnext.2]
    exact fun k hk => Nat.le_succ_of_le (h.sent k hk)

theorem tally_retry {p p' : Past} {t' : Trace} (h : Tally p t) (hphase : t.phase ≠ .exit)
    (hnext : p'.silent = p.silent ∧ p'.nodes = p.nodes) (hresult : t'.result = t.result)
    (httl : t'.ttl = t.ttl)
    (hprobes : t'.probes = p'.sentAt.map fun k => UInt8.ofNat (1 + k))
    (hsent : ∀ k ∈ p'.sentAt, k ≤ p'.done) (s : String) : Tally p' (retry opts t' s) := by
  obtain ⟨httl', -, -, hprobes', -⟩ := retry_frame opts t' s
  have hresult' := (retry_spec opts t' s).1.trans hresult
  have hdone : p'.done = p.done := by
    unfold Past.done
    rw [hnext.1, hnext.2]
  refine ⟨?_, ?_, ?_, hprobes'.trans hprobes, hsent⟩
  · rw [hresult', hnext.2]
    exact h.hops
  · rw [hresult', hnext.2]
    exact h.length
  · intro _
    rw [httl', httl, hdone]
    exact h.ttl hphase

theorem tally_sent {p : Past} (h : Tally p t) (hphase : t.phase ≠ .exit) (n : Int)
    (j : Option Nat) :
    Tally (p.after e ctx.ident ⟨.sent n, j⟩) (afterSend opts t n) := by
  have hprobes : t.probes ++ [t.ttl] =
      (p.sentAt ++ [p.done]).map fun k => UInt8.ofNat (1 + k) := by
    rw [List.map_append, h.probes, h.ttl hphase]
    rfl
  have hsent : ∀ k ∈ p.sentAt ++ [p.done], k ≤ p.done := by
    intro k hk
    rcases List.mem_append.mp hk with hk | hk
    · exact h.sent k hk
    · exact (List.mem_singleton.mp hk).le
  show Tally ⟨p.silent, p.nodes, p.sentAt ++ [p.done]⟩ _
  unfold afterSend
  dsimp only
  split
  · refine tally_retry h hphase ?_ ?_ ?_ ?_ ?_ _
    · exact ⟨rfl, rfl⟩
    · rfl
    · rfl
    · exact hprobes
    · exact hsent
  · exact ⟨h.hops, h.length, fun _ => h.ttl hphase, hprobes, hsent⟩

theorem tally_received {p : Past} (h : Tally p t) (hphase : t.phase ≠ .exit) (d : Datagram)
    (j : Option Nat) :
    Tally (p.after e ctx.ident ⟨.received d, j⟩) (afterRecv opts e ctx t d) := by
  have hafter : p.after e ctx.ident ⟨.received d, j⟩ =
    if (recordedOf e ctx.ident (.received d)).isSome then { p with nodes := p.nodes + 1 } else p :=
    rfl
  rw [hafter]
  cases hrec : recordedOf e ctx.ident (.received d) with
  | none =>
    rw [afterRecv_none hrec]
    exact h
  | some d' =>
    obtain ⟨⟨hlong, hpass⟩, rfl⟩ := recordedOf_some.mp hrec
    have hhops : (record opts t d).result.hops = ((p.nodes + 1 : Nat) : Int) := by
      show t.result.hops + 1 = _
      rw [h.hops]
      rfl
    have hlength : (record opts t d).result.nodes.length = p.nodes + 1 := by
      show (t.result.nodes ++ [d.node]).length = _
      rw [List.length_append, h.length]
      rfl
    unfold afterRecv
    rw [if_pos (show (some d).isSome = true from rfl), if_pos hlong, if_pos hpass]
    dsimp only
    by_cases hreach : reached opts d = true
    · rw [if_pos hreach]
      exact ⟨hhops, hlength, fun hne => absurd rfl hne, h.probes,
        fun k hk => Nat.le_succ_of_le (h.sent k hk)⟩
    · rw [if_neg hreach]
      exact tally_done h hphase ⟨rfl, rfl⟩ ⟨rfl, rfl⟩ ⟨hhops, hlength⟩

theorem tally_step {p : Past} (h : Tally p t) (hphase : t.phase ≠ .exit) (k : Heard) :
    Tally (p.after e ctx.ident k) (traceStep e opts ctx t k.outcome) := by
  obtain ⟨o, j⟩ := k
  have hsilent : Tally { p with silent := p.silent + 1 } (done opts t) :=
    tally_done h hphase ⟨Nat.add_right_comm _ _ _, rfl⟩ ⟨rfl, rfl⟩ ⟨h.hops, h.length⟩
  cases o with
  | sent n => exact tally_sent h hphase n j
  | recvError again =>
    cases again with
    | true => exact hsilent
    | false => exact tally_retry h hphase ⟨rfl, rfl⟩ rfl rfl h.probes h.sent _
  | recvNothing => exact hsilent
  | received d => exact tally_received h hphase d j

theorem tally_start (opts : TracerouteOpts) : Tally Past.none (traceStart opts) := by
  obtain ⟨httl, hprobes⟩ :=
    head_frame opts ⟨opts.maxHops, maxRetries, 1, ⟨0, []⟩, [], [], .send⟩
  have hresult := (head_spec opts ⟨opts.maxHops, maxRetries, 1, ⟨0, []⟩, [], [], .send⟩).2.2.1
  exact ⟨congrArg TracerouteResult.hops hresult,
    congrArg (fun r => r.nodes.length) hresult, fun _ => httl, hprobes, fun k hk => nomatch hk⟩

/-- The number of a node, and the TTL of a probe sent at `k`. -/
theorem number_eq {p : Past} {k : Nat} (hk : k ≤ p.done) :
    ((p.nodes + 1 : Nat) : Int) = (UInt8.ofNat (1 + k)).toNat ↔
      p.nodes < 255 ∧ (p.done - k) % 256 = p.silent % 256 := by
  rw [UInt8.toNat_ofNat']
  unfold Past.done at hk ⊢
  omega

theorem numberOk_iff {p : Past} (h : Tally p t) (hphase : t.phase ≠ .exit) (k : Heard) :
    NumberOk e opts ctx t k ↔ Timely e ctx.ident p k := by
  refine imp_congr_right fun hrec => ?_
  have hnext : (traceStep e opts ctx t k.outcome).result.hops = ((p.nodes + 1 : Nat) : Int) := by
    have htally : Tally (p.after e ctx.ident k) (traceStep e opts ctx t k.outcome) :=
      tally_step h hphase k
    refine htally.hops.trans ?_
    obtain ⟨d, hd⟩ := Option.isSome_iff_exists.mp hrec
    unfold Past.after
    rw [recordedOf_eq hd] at hrec ⊢
    dsimp only
    rw [if_pos hrec]
  rw [hnext, h.probes]
  constructor
  · rintro ⟨j, ttl, hj, httl, hnumber⟩
    rw [List.getElem?_map] at httl
    obtain ⟨k', hk', rfl⟩ := Option.map_eq_some_iff.mp httl
    have hle := h.sent k' (List.mem_of_getElem? hk')
    obtain ⟨hlt, hlate⟩ := (number_eq hle).mp hnumber
    exact ⟨hlt, j, k', hj, hk', hlate⟩
  · rintro ⟨hlt, j, k', hj, hk', hlate⟩
    have hle := h.sent k' (List.mem_of_getElem? hk')
    refine ⟨j, UInt8.ofNat (1 + k'), hj, ?_, (number_eq hle).mpr ⟨hlt, hlate⟩⟩
    rw [List.getElem?_map, hk']
    rfl

theorem head_lines (h : 0 < t.retries) : (head opts t).lines = t.lines := by
  unfold head
  split
  · rw [if_neg (Int.not_le.mpr h)]
  · rfl

theorem done_lines (opts : TracerouteOpts) (t : Trace) : (done opts t).lines = t.lines :=
  head_lines (t := { t with hops := t.hops - 1, retries := maxRetries, ttl := t.ttl + 1 })
    (show 0 < maxRetries by decide)

theorem record_printed (k : Heard) : Printed e opts ctx t k := by
  intro d hrec hquiet
  have hout := recordedOf_eq hrec
  rw [hout] at hrec ⊢
  have hkept := (recordedOf_some.mp hrec).1
  show Line.hop (afterRecv opts e ctx t d).result.hops d.node.addr ∈
    (afterRecv opts e ctx t d).lines
  have hline : Line.hop (t.result.hops + 1) d.node.addr ∈ (record opts t d).lines := by
    simp [record, hquiet]
  unfold afterRecv
  rw [if_pos hkept.1, if_pos hkept.2]
  dsimp only
  split
  · exact hline
  · rw [(done_spec opts (record opts t d)).1, done_lines]
    exact hline

theorem numbers_run {p : Past} (hgo : Going t) (h : Tally p t) {hs : List Heard}
    (hes : (heard e opts ctx).Legal t hs) :
    ((heard e opts ctx).Always (NumberOk e opts ctx) t hs ↔ AllTimely e ctx.ident p hs) ∧
      ((heard e opts ctx).exec t hs).result.hops =
        ((heard e opts ctx).exec t hs).result.nodes.length := by
  induction hs generalizing t p with
  | nil => exact ⟨Iff.rfl, h.hops.trans (congrArg Nat.cast h.length.symm)⟩
  | cons k hs ih =>
    obtain ⟨hphase, hstep⟩ := heard_cons hgo hes
    obtain ⟨hnumbers, hlength⟩ := ih hstep.going (tally_step h hphase k) hes.2
    exact ⟨and_congr (numberOk_iff h hphase k) hnumbers, hlength⟩

/-- **The numbers of the nodes are TTLs** exactly if every node is among the first 255 and
    comes as many hops late as there were receives without an answer before; the list is as
    long as `result->hops` in any case. -/
theorem numbersTtl_iff (e : Endian) (opts : TracerouteOpts) (ctx : TracerouteCtx)
    {hs : List Heard} (hes : (heard e opts ctx).Legal (traceStart opts) hs) :
    NumbersTtl e opts ctx hs ↔ AllTimely e ctx.ident Past.none hs := by
  obtain ⟨hnumbers, hlength⟩ := numbers_run (traceStart_spec opts).1 (tally_start opts) hes
  have hprinted : (heard e opts ctx).Always (Printed e opts ctx) (traceStart opts) hs :=
    (Guarded.always_of (I := fun _ => True) (fun _ k _ _ _ => ⟨record_printed k, trivial⟩)
      trivial hes (Guarded.always_true _ _)).1
  exact ⟨fun h => hnumbers.mp h.numbers, fun h => ⟨hnumbers.mpr h, hprinted, hlength⟩⟩

/-- Three hops, to 10.0.0.1. -/
def threeHops : TracerouteOpts := ⟨⟨10, 0, 0, 1⟩, 3, 1⟩

/-- The first two probes are answered at once. -/
theorem numbersTtl_iff_prompt :
    NumbersTtl .big threeHops openCtx [⟨.sent 48, none⟩, ⟨.received exceeded, some 0⟩,
      ⟨.sent 48, none⟩, ⟨.received exceeded, some 1⟩] := by
  refine (numbersTtl_iff .big threeHops openCtx ?_).mpr ?_
  · exact ⟨⟨rfl, fun j hj => nomatch hj⟩,
      ⟨⟨rfl, by decide, by decide⟩, fun j hj => by cases hj; decide⟩,
      ⟨rfl, fun j hj => nomatch hj⟩,
      ⟨⟨rfl, by decide, by decide⟩, fun j hj => by cases hj; decide⟩, trivial⟩
  · exact ⟨(fun h => nomatch h), fun _ => ⟨by decide, 0, 0, rfl, rfl, rfl⟩,
      (fun h => nomatch h), fun _ => ⟨by decide, 1, 1, rfl, rfl, rfl⟩, trivial⟩

/-- The first router is silent, and the second gets the number 1. -/
theorem number_behind_silence :
    ((heard .big threeHops openCtx).exec (traceStart threeHops) [⟨.sent 48, none⟩,
      ⟨.recvError true, none⟩, ⟨.sent 48, none⟩, ⟨.received exceeded, some 1⟩]).probes = [1, 2] ∧
      ((heard .big threeHops openCtx).exec (traceStart threeHops) [⟨.sent 48, none⟩,
        ⟨.recvError true, none⟩, ⟨.sent 48, none⟩,
        ⟨.received exceeded, some 1⟩]).lines = [.hop 1 exceeded.node.addr] ∧
      ¬ ∀ e opts ctx hs, (heard e opts ctx).Legal (traceStart opts) hs →
        NumbersTtl e opts ctx hs := by
  have hes : (heard .big threeHops openCtx).Legal (traceStart threeHops) [⟨.sent 48, none⟩,
      ⟨.recvError true, none⟩, ⟨.sent 48, none⟩, ⟨.received exceeded, some 1⟩] :=
    ⟨⟨rfl, fun j hj => nomatch hj⟩, ⟨rfl, fun j hj => nomatch hj⟩,
      ⟨rfl, fun j hj => nomatch hj⟩,
      ⟨⟨rfl, by decide, by decide⟩, fun j hj => by cases hj; decide⟩, trivial⟩
  refine ⟨rfl, rfl, fun hclaim => ?_⟩
  obtain ⟨j, ttl, hj, httl, hnumber⟩ := (hclaim _ _ _ _ hes).numbers.2.2.2.1 rfl
  obtain rfl : 1 = j := Option.some.inj hj
  obtain rfl : 2 = ttl := Option.some.inj httl
  exact absurd hnumber (by decide)

end SsrlApps.MiscUtils
