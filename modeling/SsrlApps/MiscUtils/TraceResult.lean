/-
  Who owns the memory of `do_traceroute`.

  Model. Memory is a table of nodes and one of result records, by their addresses; the call
  starts in any memory. `Trace` is the loop, and beside it the nodes are linked as the
  source does it. An event adds the address that `calloc` returns when there is a node to
  make, one at which no node is live; allocations succeed.

  `NoLeak` is about the outcomes alone: no datagram is recorded, or the last outcome is a
  failure or a datagram that passes for the answer of the destination.

  Proved:
  * `holds_step`, `holds_run`: the record leads to a list of the recorded nodes, which are
    new, and no other memory is touched.
  * `owned_iff`: what the call allocated is handed out whole or released, exactly if there
    is no leak.
-/
import SsrlApps.Lib.Chain
import SsrlApps.MiscUtils.Traceroute

namespace SsrlApps.MiscUtils

open Trace ListCell

/-! ## Memory -/

/-- `struct traceroute_result`, as it is in memory. -/
structure ResultCell where
  hops : Int
  first : Option Nat

structure TraceMem where
  nodes : Nat → Option (ListCell Nat TracerouteNode)
  results : Nat → Option ResultCell

namespace TraceMem

/-- `n = calloc(1, sizeof(struct traceroute_node))` -/
def callocNode (m : TraceMem) (n : Nat) : TraceMem :=
  { m with nodes := Function.update m.nodes n (some ⟨⟨"", ⟨0, 0, 0, 0⟩⟩, none⟩) }

/-- `if (last) last->next = n` -/
def linkLast (m : TraceMem) (last : Option Nat) (n : Nat) : TraceMem :=
  match last with
  | none => m
  | some a =>
    { m with nodes := Function.update m.nodes a ((m.nodes a).map fun c => ⟨c.val, some n⟩) }

/-- `if (!result->first) result->first = last; ++result->hops` -/
def countNode (m : TraceMem) (result last : Nat) : TraceMem :=
  { m with results := Function.update m.results result
             ((m.results result).map fun c => ⟨c.hops + 1, c.first.or (some last)⟩) }

/-- `last->in_addr` and `last->addr` are set. -/
def fillNode (m : TraceMem) (last : Nat) (d : Datagram) : TraceMem :=
  { m with nodes := Function.update m.nodes last
             ((m.nodes last).map fun c => ⟨d.node, c.next⟩) }

end TraceMem

open TraceMem

/-- `traceroute_result_free`, for at most `k` nodes: the memory that it leaves, the nodes
    that it frees, and the record. -/
def tracerouteResultFree (k : Nat) (m : TraceMem) :
    Option Nat → Option (TraceMem × List Nat × List Nat)
  | none => some (m, [], [])
  | some result =>
    match m.results result with
    | none => none
    | some c => (release k m.nodes c.first).map fun r =>
        (⟨r.1, Function.update m.results result none⟩, r.2, [result])

/-! ## The call -/

/-- The loop with its memory. -/
structure TraceHeap where
  trace : Trace
  mem : TraceMem
  last : Option Nat

structure MemEvent where
  outcome : Outcome
  /-- What `calloc` returns if there is a node to make. -/
  node : Nat

variable (e : Endian) (opts : TracerouteOpts) (ctx : TracerouteCtx) (result : Nat)

def memGuard (s : TraceHeap) (ev : MemEvent) : Prop :=
  traceGuard s.trace ev.outcome ∧
    ((recordedOf e ctx.ident ev.outcome).isSome → s.mem.nodes ev.node = none)

def memStep (s : TraceHeap) (ev : MemEvent) : TraceHeap :=
  let trace := traceStep e opts ctx s.trace ev.outcome
  match recordedOf e ctx.ident ev.outcome with
  | none => { s with trace := trace }
  | some d =>
    let m := s.mem.callocNode ev.node
    let m := m.linkLast s.last ev.node
    let m := m.countNode result ev.node
    ⟨trace, m.fillNode ev.node d, some ev.node⟩

/-- `do_traceroute` behind `_tr_open`, with its result record at `result`. -/
def traceMem : Guarded TraceHeap MemEvent := ⟨memGuard e ctx, memStep e opts ctx result⟩

def memStart (m : TraceMem) : TraceHeap :=
  ⟨traceStart opts, { m with results := Function.update m.results result (some ⟨0, none⟩) }, none⟩

/-- What `do_traceroute` leaves. -/
structure ReturnedMem where
  rval : Bool
  /-- What it stored in `*resptr`. -/
  resptr : Option Nat
  closed : List Int
  mem : TraceMem

def finishMem (s : TraceHeap) : ReturnedMem :=
  if 0 < s.trace.hops then ⟨true, some result, [ctx.fd], s.mem⟩
  else ⟨false, none, [ctx.fd],
    { s.mem with results := Function.update s.mem.results result none }⟩

variable {e opts ctx result}

/-- A call of `do_traceroute` in the memory `m` returns `r` after the events `evs`. -/
def RunsMem (e : Endian) (opts : TracerouteOpts) (calls : OpenCalls) (result : Nat)
    (m : TraceMem) (evs : List MemEvent) (r : ReturnedMem) : Prop :=
  match (trOpen opts calls).ctx with
  | none => evs = [] ∧ r = ⟨false, none, (trOpen opts calls).closed, m⟩
  | some ctx =>
    m.results result = none ∧
      (traceMem e opts ctx result).Legal (memStart opts result m) evs ∧
      ((traceMem e opts ctx result).exec (memStart opts result m) evs).trace.phase = .exit ∧
      r = finishMem ctx result ((traceMem e opts ctx result).exec (memStart opts result m) evs)

/-- The caller gets a list that it can free, and with it all that the call allocated; or the
    call has released that itself. -/
structure Owned (calls : OpenCalls) (m : TraceMem) (r : ReturnedMem) : Prop where
  success : r.rval = true → ∃ result c l, r.resptr = some result ∧
    r.mem.results result = some c ∧ c.hops = (List.length l : Int) ∧
    Chain r.mem.nodes c.first l ∧ (l.map Prod.fst).Nodup ∧
    ∀ k, l.length ≤ k →
      tracerouteResultFree k r.mem r.resptr = some (m, l.map Prod.fst, [result])
  failure : r.rval = false → r.resptr = none ∧ r.mem = m
  closed : 0 ≤ calls.socket → r.closed = [calls.socket]

/-- No datagram is recorded, or the outcomes end with a failure or with what passes for the
    answer of the destination. -/
def NoLeak (e : Endian) (opts : TracerouteOpts) (os : List Outcome) : Prop :=
  recorded e traceIdent os = [] ∨
    ∃ o, os.getLast? = some o ∧ (Fails o ∨ Reaches e traceIdent opts o)

/-! ## What the record leads to -/

/-- In the memory of the loop the record leads to the new nodes `l`; `m` is the memory
    before the call. -/
structure Holds (m : TraceMem) (result : Nat) (s : TraceHeap)
    (l : List (Nat × TracerouteNode)) : Prop where
  record : s.mem.results =
    Function.update m.results result (some ⟨l.length, l.head?.map Prod.fst⟩)
  chain : Chain s.mem.nodes (l.head?.map Prod.fst) l
  last : s.last = l.getLast?.map Prod.fst
  fresh : ∀ x ∈ l, m.nodes x.1 = none
  other : without s.mem.nodes l = m.nodes

variable {m : TraceMem} {s : TraceHeap} {l : List (Nat × TracerouteNode)}

theorem holds_start (opts : TracerouteOpts) (result : Nat) (m : TraceMem) :
    Holds m result (memStart opts result m) [] :=
  ⟨rfl, rfl, rfl, (fun _ hx => nomatch hx), funext fun _ => if_neg List.not_mem_nil⟩

/-- The memory behind `++result->hops` and the new node. -/
def append (m : TraceMem) (result : Nat) (last : Option Nat) (n : Nat) (d : Datagram) : TraceMem :=
  (((m.callocNode n).linkLast last n).countNode result n).fillNode n d

/-- The first node. -/
theorem append_nodes_first (m : TraceMem) (result n : Nat) (d : Datagram) :
    (append m result none n d).nodes = Function.update m.nodes n (some ⟨d.node, none⟩) := by
  unfold append linkLast callocNode countNode fillNode
  dsimp only
  rw [Function.update_self, Function.update_idem]
  rfl

/-- A further node, behind the last one. -/
theorem append_nodes_last {a n : Nat} {v : TracerouteNode} {q : Option Nat}
    (ha : m.nodes a = some ⟨v, q⟩) (hne : a ≠ n) (result : Nat) (d : Datagram) :
    (append m result (some a) n d).nodes =
      Function.update (Function.update m.nodes n (some ⟨d.node, none⟩)) a (some ⟨v, some n⟩) := by
  unfold append linkLast callocNode countNode fillNode
  dsimp only
  rw [Function.update_of_ne hne, ha, Function.update_of_ne hne.symm, Function.update_self,
    Function.update_comm hne.symm, Function.update_idem]
  exact Function.update_comm hne _ _ _

theorem append_results {c : ResultCell} (hc : m.results result = some c) (last : Option Nat)
    (n : Nat) (d : Datagram) : (append m result last n d).results =
      Function.update m.results result (some ⟨c.hops + 1, c.first.or (some n)⟩) := by
  have hsame : ((m.callocNode n).linkLast last n).results = m.results := by
    unfold linkLast
    split <;> rfl
  unfold append countNode fillNode
  dsimp only
  rw [hsame, hc]
  rfl

/-- A node at a free address goes to the end of the list; nothing else changes. -/
theorem append_chain {n : Nat} (h : Chain m.nodes (l.head?.map Prod.fst) l)
    (hn : m.nodes n = none) (result : Nat) (d : Datagram) :
    Chain (append m result (l.getLast?.map Prod.fst) n d).nodes
        ((l ++ [(n, d.node)]).head?.map Prod.fst) (l ++ [(n, d.node)]) ∧
      ∀ a, a ∉ (l ++ [(n, d.node)]).map Prod.fst →
        (append m result (l.getLast?.map Prod.fst) n d).nodes a = m.nodes a := by
  rcases List.eq_nil_or_concat' l with rfl | ⟨l₀, y, rfl⟩
  · show Chain (append m result none n d).nodes _ _ ∧ _
    rw [append_nodes_first]
    refine ⟨⟨rfl, none, Function.update_self .., rfl⟩, fun a ha => ?_⟩
    have hne : a ≠ n := fun heq => ha (List.mem_singleton.mpr heq)
    exact (congrFun (append_nodes_first m result n d) a).trans (Function.update_of_ne hne ..)
  · have hnew : ∀ z ∈ l₀ ++ [y], z.1 ≠ n := by
      rintro z hz rfl
      obtain ⟨q, hq⟩ := chain_cell h hz
      rw [hn] at hq
      cases hq
    obtain ⟨q, hq⟩ := chain_cell h (List.mem_append_right _ (.head _))
    have hhead : (l₀ ++ [y] ++ [(n, d.node)]).head? = (l₀ ++ [y]).head? := by
      cases l₀ <;> rfl
    rw [List.getLast?_concat, hhead]
    show Chain (append m result (some y.1) n d).nodes _ _ ∧
      ∀ a, a ∉ _ → (append m result (some y.1) n d).nodes a = _
    rw [append_nodes_last hq (hnew y (List.mem_append_right _ (.head _)))]
    refine ⟨chain_snoc (x := (n, d.node)) h hnew, fun a ha => ?_⟩
    rw [Function.update_of_ne, Function.update_of_ne]
    · rintro rfl
      exact ha (List.mem_map_of_mem (f := Prod.fst) (a := (a, d.node)) (by simp))
    · rintro rfl
      exact ha (List.mem_map_of_mem (by simp))

/-- A recorded datagram adds its node to the list. -/
theorem holds_append {trace : Trace} (h : Holds m result s l) {n : Nat} (hn : s.mem.nodes n = none)
    (d : Datagram) :
    Holds m result ⟨trace, append s.mem result s.last n d, some n⟩ (l ++ [(n, d.node)]) := by
  have hold : m.nodes n = none := by
    rw [← h.other]
    unfold without
    rw [hn, ite_self]
  have hrecord : s.mem.results result = some ⟨l.length, l.head?.map Prod.fst⟩ := by
    rw [h.record, Function.update_self]
  obtain ⟨hchain, hsame⟩ := append_chain h.chain hn result d
  rw [← h.last] at hchain hsame
  refine ⟨?_, hchain, ?_, ?_, ?_⟩
  · rw [append_results hrecord, h.record, Function.update_idem, List.length_append]
    cases l <;> rfl
  · rw [List.getLast?_concat]
    rfl
  · intro x hx
    rcases List.mem_append.mp hx with hx | hx
    · exact h.fresh x hx
    · rw [List.mem_singleton.mp hx]
      exact hold
  · refine (without_snoc ?_ hsame).trans h.other
    rw [h.other]
    exact hold

theorem memStep_skip {ev : MemEvent} (hrec : recordedOf e ctx.ident ev.outcome = none) :
    memStep e opts ctx result s ev =
      { s with trace := traceStep e opts ctx s.trace ev.outcome } := by
  unfold memStep
  rw [hrec]

theorem memStep_record {ev : MemEvent} {d : Datagram}
    (hrec : recordedOf e ctx.ident ev.outcome = some d) :
    memStep e opts ctx result s ev = ⟨traceStep e opts ctx s.trace ev.outcome,
      append s.mem result s.last ev.node d, some ev.node⟩ := by
  unfold memStep
  rw [hrec]
  rfl

theorem memStep_trace (e : Endian) (opts : TracerouteOpts) (ctx : TracerouteCtx) (result : Nat)
    (s : TraceHeap) (ev : MemEvent) : (memStep e opts ctx result s ev).trace =
      traceStep e opts ctx s.trace ev.outcome := by
  cases hrec : recordedOf e ctx.ident ev.outcome with
  | none => rw [memStep_skip hrec]
  | some d => rw [memStep_record hrec]

/-- One event: the list grows by what is recorded. -/
theorem holds_step {ev : MemEvent} (h : Holds m result s l) (hg : memGuard e ctx s ev) :
    ∃ l', Holds m result (memStep e opts ctx result s ev) l' ∧
      l'.map Prod.snd =
        l.map Prod.snd ++ (recordedOf e ctx.ident ev.outcome).toList.map Datagram.node := by
  cases hrec : recordedOf e ctx.ident ev.outcome with
  | none =>
    rw [memStep_skip hrec]
    exact ⟨l, ⟨h.record, h.chain, h.last, h.fresh, h.other⟩, (List.append_nil _).symm⟩
  | some d =>
    rw [memStep_record hrec]
    have hn : s.mem.nodes ev.node = none := hg.2 (by rw [hrec]; rfl)
    exact ⟨_, holds_append h hn d, List.map_append⟩

/-! ## Runs -/

theorem mem_exec (s : TraceHeap) (evs : List MemEvent) :
    ((traceMem e opts ctx result).exec s evs).trace =
      (traceroute e opts ctx).exec s.trace (evs.map MemEvent.outcome) := by
  induction evs generalizing s with
  | nil => rfl
  | cons ev evs ih =>
    refine (ih (memStep e opts ctx result s ev)).trans ?_
    rw [memStep_trace]
    rfl

theorem mem_legal {evs : List MemEvent} (hes : (traceMem e opts ctx result).Legal s evs) :
    (traceroute e opts ctx).Legal s.trace (evs.map MemEvent.outcome) := by
  induction evs generalizing s with
  | nil => trivial
  | cons ev evs ih =>
    have hrest := ih hes.2
    rw [show (((traceMem e opts ctx result).step s ev).trace) = _ from
      memStep_trace e opts ctx result s ev] at hrest
    exact ⟨hes.1.1, hrest⟩

theorem holds_run {evs : List MemEvent} (h : Holds m result s l)
    (hes : (traceMem e opts ctx result).Legal s evs) :
    ∃ l', Holds m result ((traceMem e opts ctx result).exec s evs) l' ∧
      l'.map Prod.snd = l.map Prod.snd ++
        (recorded e ctx.ident (evs.map MemEvent.outcome)).map Datagram.node := by
  induction evs generalizing s l with
  | nil => exact ⟨l, h, (List.append_nil _).symm⟩
  | cons ev evs ih =>
    obtain ⟨l₁, hone, hval⟩ := holds_step h hes.1
    obtain ⟨l₂, htwo, hval'⟩ := ih hone hes.2
    refine ⟨l₂, htwo, ?_⟩
    rw [hval', hval, List.append_assoc, ← List.map_append]
    unfold recorded
    rw [List.map_cons, List.filterMap_cons]
    cases recordedOf e ctx.ident ev.outcome <;> rfl

/-! ## Ownership -/

theorem trOpen_fd {calls : OpenCalls} (h : (trOpen opts calls).ctx = some ctx) :
    ctx.fd = calls.socket := by
  unfold trOpen openFailed at h
  split_ifs at h
  obtain rfl := Option.some.inj h
  rfl

/-- A socket that `_tr_open` does not keep is closed. -/
theorem trOpen_closed {calls : OpenCalls} (h : (trOpen opts calls).ctx = none)
    (hsocket : 0 ≤ calls.socket) : (trOpen opts calls).closed = [calls.socket] := by
  unfold trOpen openFailed at h ⊢
  rw [if_neg (Int.not_lt.mpr hsocket)] at h ⊢
  split_ifs at h ⊢ <;> rfl

/-- The list of a run, handed out. -/
theorem free_holds (h : Holds m result s l) (hnew : m.results result = none) {k : Nat}
    (hk : l.length ≤ k) :
    tracerouteResultFree k s.mem (some result) = some (m, l.map Prod.fst, [result]) := by
  have hresults : Function.update s.mem.results result none = m.results := by
    rw [h.record, Function.update_idem, ← hnew, Function.update_eq_self]
  have hcell : s.mem.results result = some ⟨l.length, l.head?.map Prod.fst⟩ := by
    rw [h.record, Function.update_self]
  unfold tracerouteResultFree
  simp only [hcell, release_chain h.chain hk, Option.map_some, h.other, hresults]

/-- Where only the record is freed, all is released if there is no node. -/
theorem released_iff (h : Holds m result s l) (hnew : m.results result = none) :
    ({ s.mem with results := Function.update s.mem.results result none } : TraceMem) = m ↔
      l = [] := by
  have hresults : Function.update s.mem.results result none = m.results := by
    rw [h.record, Function.update_idem, ← hnew, Function.update_eq_self]
  constructor
  · intro hmem
    cases l with
    | nil => rfl
    | cons x l =>
      obtain ⟨q, hq⟩ := chain_cell h.chain (.head _)
      have hnodes := congrArg TraceMem.nodes hmem
      change s.mem.nodes = m.nodes at hnodes
      rw [hnodes, h.fresh x (.head _)] at hq
      cases hq
  · rintro rfl
    have hnodes : s.mem.nodes = m.nodes :=
      (funext fun _ => (without_eq List.not_mem_nil).symm).trans h.other
    show TraceMem.mk s.mem.nodes (Function.update s.mem.results result none) = m
    rw [hresults, hnodes]

/-- Hops are left exactly behind a failure or what passes for the answer. -/
theorem hops_left {os : List Outcome} (hes : (traceroute e opts ctx).Legal (traceStart opts) os)
    (hexit : ((traceroute e opts ctx).exec (traceStart opts) os).phase = .exit) :
    0 < ((traceroute e opts ctx).exec (traceStart opts) os).hops ↔
      ∃ o, os.getLast? = some o ∧ (Fails o ∨ Reaches e ctx.ident opts o) := by
  obtain ⟨hgo, -, hstop⟩ := traceStart_spec opts
  by_cases hphase : (traceStart opts).phase = .exit
  · cases os with
    | nil => exact iff_of_false (hstop hphase) (fun ⟨o, ho, _⟩ => nomatch ho)
    | cons o os => exact absurd hes.1 (not_guard_exit hphase)
  · obtain ⟨os', o, rfl, -, hlast⟩ := run_ends hgo hphase hes hexit
    rw [hlast, List.getLast?_concat]
    constructor
    · intro h
      exact ⟨o, rfl, h⟩
    · rintro ⟨o', ho, h⟩
      obtain rfl := Option.some.inj ho
      exact h

/-- **Nothing is lost**: what the call allocated is handed out as a list that
    `traceroute_result_free` releases whole, or is released when the call returns, exactly
    if no datagram is recorded or the outcomes end with a failure or with what passes for
    the answer of the destination. -/
theorem owned_iff (e : Endian) (opts : TracerouteOpts) (calls : OpenCalls) (result : Nat)
    (m : TraceMem) {evs : List MemEvent} {r : ReturnedMem}
    (hrun : RunsMem e opts calls result m evs r) :
    Owned calls m r ↔ NoLeak e opts (evs.map MemEvent.outcome) := by
  unfold RunsMem at hrun
  split at hrun
  · next hctx =>
    obtain ⟨rfl, rfl⟩ := hrun
    exact iff_of_true
      ⟨fun h => absurd h Bool.false_ne_true, fun _ => ⟨rfl, rfl⟩, trOpen_closed hctx⟩ (Or.inl rfl)
  · next ctx hctx =>
    obtain ⟨hnew, hes, hexit, rfl⟩ := hrun
    have hident := trOpen_ident hctx
    have hfd := trOpen_fd hctx
    obtain ⟨l, hl, hval⟩ := holds_run (holds_start opts result m) hes
    rw [mem_exec] at hexit
    have hleft := hops_left (mem_legal hes) hexit
    rw [hident] at hval hleft
    have hhops : ((traceMem e opts ctx result).exec (memStart opts result m) evs).trace.hops =
        ((traceroute e opts ctx).exec (traceStart opts) (evs.map MemEvent.outcome)).hops :=
      congrArg Trace.hops (mem_exec _ evs)
    generalize (traceMem e opts ctx result).exec (memStart opts result m) evs = s at *
    have hnil : l = [] ↔ recorded e traceIdent (evs.map MemEvent.outcome) = [] := by
      rw [← List.map_eq_nil_iff (f := Prod.snd), hval, List.map_nil, List.nil_append,
        List.map_eq_nil_iff]
    have hcell : s.mem.results result = some ⟨l.length, l.head?.map Prod.fst⟩ := by
      rw [hl.record, Function.update_self]
    by_cases hpos : 0 < s.trace.hops
    · have hfin : finishMem ctx result s = ⟨true, some result, [ctx.fd], s.mem⟩ := if_pos hpos
      rw [hfin, hfd]
      refine iff_of_true ⟨fun _ => ?_, (fun h => nomatch h), fun _ => rfl⟩
        (Or.inr (hleft.mp (hhops ▸ hpos)))
      exact ⟨result, _, l, rfl, hcell, rfl, hl.chain, chain_nodup hl.chain,
        fun k hk => free_holds hl hnew hk⟩
    · have hfin : finishMem ctx result s = ⟨false, none, [ctx.fd],
        { s.mem with results := Function.update s.mem.results result none }⟩ := if_neg hpos
      have hno : ¬ ∃ o, (evs.map MemEvent.outcome).getLast? = some o ∧
          (Fails o ∨ Reaches e traceIdent opts o) := fun h => hpos (hhops ▸ hleft.mpr h)
      have hleak : NoLeak e opts (evs.map MemEvent.outcome) ↔ l = [] :=
        (or_iff_left hno).trans hnil.symm
      rw [hleak, ← released_iff hl hnew, hfin, hfd]
      exact ⟨fun h => (h.failure rfl).2,
        fun h => ⟨(fun hr => nomatch hr), fun _ => ⟨rfl, h⟩, fun _ => rfl⟩⟩

/-- No node and no record. -/
def emptyMem : TraceMem := ⟨fun _ => none, fun _ => none⟩

/-- One hop in empty memory, with the record at 50 and a node at 100 for the datagram `d`. -/
def heapRun (d : Datagram) : TraceHeap :=
  (traceMem .big oneHop openCtx 50).exec (memStart oneHop 50 emptyMem)
    [⟨.sent 48, 0⟩, ⟨.received d, 100⟩]

/-- The destination answers, and the caller gets the node. -/
theorem owned_iff_echoReply :
    Owned openCalls emptyMem (finishMem openCtx 50 (heapRun echoReply)) := by
  have hrun : RunsMem .big oneHop openCalls 50 emptyMem
      [⟨.sent 48, 0⟩, ⟨.received echoReply, 100⟩]
      (finishMem openCtx 50 (heapRun echoReply)) :=
    ⟨rfl, ⟨⟨rfl, fun h => nomatch h⟩, ⟨⟨rfl, by decide, by decide⟩, fun _ => rfl⟩, trivial⟩,
      rfl, rfl⟩
  refine (owned_iff .big oneHop openCalls 50 emptyMem hrun).mpr (Or.inr ?_)
  exact ⟨.received echoReply, rfl, Or.inr ⟨echoReply, rfl, by decide⟩⟩

/-- A router answers, the only hop is over, and its node is lost. -/
theorem node_lost :
    (finishMem openCtx 50 (heapRun exceeded)).rval = false ∧
      (finishMem openCtx 50 (heapRun exceeded)).mem.nodes 100 = some ⟨exceeded.node, none⟩ ∧
      ¬ ∀ e opts calls result m evs r, RunsMem e opts calls result m evs r →
        Owned calls m r := by
  have hrun : RunsMem .big oneHop openCalls 50 emptyMem
      [⟨.sent 48, 0⟩, ⟨.received exceeded, 100⟩]
      (finishMem openCtx 50 (heapRun exceeded)) :=
    ⟨rfl, ⟨⟨rfl, fun h => nomatch h⟩, ⟨⟨rfl, by decide, by decide⟩, fun _ => rfl⟩, trivial⟩,
      rfl, rfl⟩
  have hnode : (finishMem openCtx 50 (heapRun exceeded)).mem.nodes 100 =
      some ⟨exceeded.node, none⟩ := rfl
  refine ⟨rfl, hnode, fun hclaim => ?_⟩
  have hmem := ((hclaim _ _ _ _ _ _ _ hrun).failure rfl).2
  rw [hmem] at hnode
  cases hnode

end SsrlApps.MiscUtils
