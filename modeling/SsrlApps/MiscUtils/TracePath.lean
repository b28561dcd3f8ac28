/-
  `do_traceroute` on a path: what it reports of the network.

  Model. The path is the list of its routers, from the host on, with the destination behind
  them. A router at which the TTL of a datagram runs out quotes the header and the first 8
  bytes in a TIME_EXCEEDED message, and the destination sends the data of an echo request
  back (`Answer`); both look at the bytes of the datagram alone, and drop it when a checksum
  is wrong. The header of an answer may have options, as long as the first 8 bytes of the
  message are among the 48 that are received.

  What is received is an answer to the probe that was sent last, or a datagram that makes no
  node. Any call may fail and any answer may be lost.

  Proved:
  * `answer_seen`: an answer passes the filter, and comes from the router of its TTL.
  * `nodes_path`: the nodes are those of the TTLs that were answered, in order.
  * `path_found`: with no answer lost, the nodes are the path, as far as `max_hops` goes.
-/
import SsrlApps.MiscUtils.TraceProbe
import Mathlib.Data.List.GetD

namespace SsrlApps.MiscUtils

open Bytes Trace

/-! ## The path -/

/-- Who answers a probe of the TTL `n`. -/
def hopAt (routers : List InAddr) (dst : InAddr) (n : Nat) : InAddr := routers.getD (n - 1) dst

/-- An IP header that leaves room for 8 bytes. -/
structure IsHeader (hdr : List UInt8) : Prop where
  length : (hdr.getD 0 0).toNat % 16 * 4 = hdr.length
  least : ipSize ≤ hdr.length
  most : hdr.length + 8 ≤ frameLen

/-- The checksums of a datagram with a header of 20 bytes are right. -/
structure Intact (frame : List UInt8) : Prop where
  header : networkSum (frame.take ipSize) = 0xffff
  message : networkSum (frame.drop ipSize) = 0xffff

/-- `x` answers `frame` with the datagram `whole`. -/
inductive Answer (routers : List InAddr) (frame : List UInt8) : InAddr → List UInt8 → Prop
  | exceeded {x : InAddr} {i : Nat} {hdr : List UInt8} (c0 c1 : UInt8) (intact : Intact frame)
      (router : routers[i]? = some x) (ttl : (frame.getD 8 0).toNat = i + 1)
      (header : IsHeader hdr) :
      Answer routers frame x
        (hdr ++ [icmpTimeExceeded, 0, c0, c1, 0, 0, 0, 0] ++ frame.take (ipSize + 8))
  | echo {x : InAddr} {hdr : List UInt8} (c0 c1 : UInt8) (intact : Intact frame)
      (ttl : routers.length < (frame.getD 8 0).toNat)
      (protocol : frame.getD 9 0 = ipprotoIcmp) (dst : (frame.drop 16).take 4 = x.bytes)
      (type : frame.getD ipSize 0 = icmpEcho) (header : IsHeader hdr) :
      Answer routers frame x (hdr ++ [icmpEchoReply, 0, c0, c1] ++ frame.drop (ipSize + 4))

section Path

variable (e : Endian) (opts : TracerouteOpts) (ctx : TracerouteCtx) (src : InAddr)
  (routers : List InAddr)

/-- The call is an answer to the probe that was sent last. -/
def Replies (s : Prober) (c : Call) : Prop :=
  ∃ frame sender whole, s.sent.getLast? = some frame ∧ Answer routers frame sender whole ∧
    c = .recvfrom sender (whole.take frameLen)

/-- A datagram is an answer or makes no node. -/
def pathGuard (s : Prober) (c : Call) : Prop :=
  (prober e opts ctx src).guard s c ∧ ∀ sender bs, c = .recvfrom sender bs →
    Replies routers s c ∨ recordedOf e ctx.ident (c.outcome s.data) = none

/-- `do_traceroute` on the path. -/
def path : Guarded Prober Call := ⟨pathGuard e opts ctx src routers, proberStep e opts ctx src⟩

end Path

/-- The TTL of an answer in the hop `n`. -/
def answerTtl (e : Endian) (ident n : Nat) (o : Outcome) : List Nat :=
  if (recordedOf e ident o).isSome then [n] else []

/-- The TTLs that were answered, from the hop `n` on. -/
def answered (e : Endian) (ident : Nat) : Nat → List Outcome → List Nat
  | _, [] => []
  | n, o :: os => answerTtl e ident n o ++ answered e ident (hopNext e ident n o) os

variable {e : Endian} {opts : TracerouteOpts} {ctx : TracerouteCtx} {src : InAddr}
  {routers : List InAddr}

/-! ## Answers -/

/-- A byte of a datagram of which the first `n` bytes were received. -/
theorem deliver_take (m : Bytes) {bs : List UInt8} {n i : Nat} (hn : i < n) (hi : i < bs.length) :
    deliver m (bs.take n) i = bs.getD i 0 := by
  have hlen : i < (bs.take n).length := by
    rw [List.length_take]
    omega
  rw [deliver_inside m hlen, List.getElem_take, List.getD_eq_getElem?_getD,
    List.getElem?_eq_getElem hi]
  rfl

/-- What was received of the datagram `whole`. -/
def seen (m : Bytes) (sender : InAddr) (whole : List UInt8) : Datagram :=
  ⟨sender, (whole.take frameLen).length, deliver m (whole.take frameLen)⟩

/-- The message stands behind the header, with its type and its code. -/
theorem seen_message (m : Bytes) (sender : InAddr) {hdr rest : List UInt8} (type code : UInt8)
    (hhdr : IsHeader hdr) (hrest : 6 ≤ rest.length) :
    longEnough (seen m sender (hdr ++ type :: code :: rest)) = true ∧
      (seen m sender (hdr ++ type :: code :: rest)).icmpType = type ∧
      (seen m sender (hdr ++ type :: code :: rest)).icmpCode = code := by
  obtain ⟨hlength, hleast, hmost⟩ := hhdr
  have hipSize : ipSize = 20 := rfl
  have hframe : frameLen = 48 := rfl
  have hlen : (hdr ++ type :: code :: rest).length = hdr.length + (rest.length + 2) :=
    List.length_append
  have hbyte : ∀ i, i < hdr.length + 8 → (seen m sender (hdr ++ type :: code :: rest)).data i =
      (hdr ++ type :: code :: rest).getD i 0 :=
    fun i hi => deliver_take m (by omega) (by omega)
  have hpacket : (seen m sender (hdr ++ type :: code :: rest)).packet = hdr.length := by
    unfold Datagram.packet
    rw [hbyte 0 (by omega), List.getD_append _ _ _ _ (by omega), hlength]
  refine ⟨?_, ?_, ?_⟩
  · refine decide_eq_true ?_
    show ipSize + 8 ≤ (List.take frameLen _).length
    rw [List.length_take]
    omega
  · unfold Datagram.icmpType
    rw [hpacket, hbyte _ (by omega), List.getD_append_right _ _ _ _ (le_refl _), Nat.sub_self]
    rfl
  · unfold Datagram.icmpCode
    rw [hpacket, hbyte _ (by omega), List.getD_append_right _ _ _ _ (Nat.le_add_right ..),
      Nat.add_sub_cancel_left]
    rfl

theorem InAddr.bytes_inj {x y : InAddr} (h : x.bytes = y.bytes) : x = y := by
  obtain ⟨a, b, c, d⟩ := x
  obtain ⟨a', b', c', d'⟩ := y
  simpa [InAddr.bytes] using h

/-- An answer is a header with an ICMP message of code 0. -/
theorem answer_shape {frame : List UInt8} {sender : InAddr} {whole : List UInt8}
    (h : Answer routers frame sender whole) (hframe : frame.length = frameLen) :
    ∃ hdr type rest, whole = hdr ++ type :: 0 :: rest ∧ IsHeader hdr ∧ 6 ≤ rest.length ∧
      (type = icmpTimeExceeded ∨ type = icmpEchoReply) := by
  cases h with
  | @exceeded i hdr c0 c1 intact router ttl header =>
    refine ⟨hdr, icmpTimeExceeded, [c0, c1, 0, 0, 0, 0] ++ frame.take (ipSize + 8), ?_, header,
      ?_, Or.inl rfl⟩
    · rw [List.append_assoc]
      rfl
    · rw [List.length_append]
      exact Nat.le_add_right 6 _
  | @echo hdr c0 c1 intact ttl protocol dst type header =>
    refine ⟨hdr, icmpEchoReply, [c0, c1] ++ frame.drop (ipSize + 4), ?_, header, ?_, Or.inr rfl⟩
    · rw [List.append_assoc]
      rfl
    · rw [List.length_append, List.length_drop, hframe]
      exact Nat.le_add_left 6 20

theorem length_probe (ttl : UInt8) : (probe e opts ctx src ttl).length = frameLen := rfl

theorem probe_ttl (ttl : UInt8) : (probe e opts ctx src ttl).getD 8 0 = ttl := rfl

theorem probe_dst (ttl : UInt8) : ((probe e opts ctx src ttl).drop 16).take 4 = opts.ip.bytes := rfl

/-- **An answer to a probe** makes a node, shows the code 0, and comes from whoever has its
    TTL. -/
theorem answer_seen {ttl : UInt8} {sender : InAddr} {whole : List UInt8} (m : Bytes)
    (h : Answer routers (probe e opts ctx src ttl) sender whole) :
    recordedOf e ctx.ident (.received (seen m sender whole)) = some (seen m sender whole) ∧
      (seen m sender whole).icmpCode = icmpEchoReply ∧ 0 < ttl.toNat ∧
      sender = hopAt routers opts.ip ttl.toNat := by
  obtain ⟨hdr, type, rest, rfl, hhdr, hrest, htype⟩ := answer_shape h (length_probe ttl)
  obtain ⟨hlong, hty, hcode⟩ := seen_message m sender type 0 hhdr hrest
  have hpasses : passes e ctx.ident (seen m sender (hdr ++ type :: 0 :: rest)) = true := by
    rcases htype with rfl | rfl <;> simp [passes, hty]
  refine ⟨recordedOf_some.mpr ⟨⟨hlong, hpasses⟩, rfl⟩, hcode, ?_⟩
  generalize hdr ++ type :: 0 :: rest = whole at h
  cases h with
  | @exceeded i _ _ _ _ router httl _ =>
    rw [probe_ttl] at httl
    refine ⟨by omega, ?_⟩
    unfold hopAt
    rw [httl, Nat.add_sub_cancel, List.getD_eq_getElem?_getD, router]
    rfl
  | echo _ _ _ httl _ dst _ _ =>
    rw [probe_ttl] at httl
    rw [probe_dst] at dst
    refine ⟨by omega, ?_⟩
    unfold hopAt
    rw [List.getD_eq_default _ _ (by omega)]
    exact InAddr.bytes_inj dst.symm

/-! ## One call -/

/-- The node of the TTL `n`. -/
def nodeAt (routers : List InAddr) (dst : InAddr) (n : Nat) : TracerouteNode :=
  ⟨inetNtoa (hopAt routers dst n), hopAt routers dst n⟩

/-- In the hop `n`, behind `k` failures and with the TTLs `ns` answered. -/
structure OnPath (e : Endian) (opts : TracerouteOpts) (ctx : TracerouteCtx) (src : InAddr)
    (routers : List InAddr) (n k : Nat) (ns : List Nat) (s : Prober) : Prop where
  book : Book opts.maxHops n k s.trace
  last : s.trace.phase = .recv → s.sent.getLast? = some (probe e opts ctx src s.trace.ttl)
  nodes : s.trace.result.nodes = ns.map (nodeAt routers opts.ip)
  /-- The destination ends the run. -/
  within : s.trace.phase ≠ .exit → ∀ i ∈ ns, i ≤ routers.length
  before : ∀ i ∈ ns.dropLast, i ≤ routers.length

variable {n k : Nat} {ns : List Nat} {s : Prober} {c : Call}

/-- A received datagram that makes a node is the answer of the hop `n`. -/
theorem recorded_hop (h : OnPath e opts ctx src routers n k ns s) (hm : opts.maxHops ≤ 255)
    (hg : (path e opts ctx src routers).guard s c) {d : Datagram}
    (hd : recordedOf e ctx.ident (c.outcome s.data) = some d) :
    d.sender = hopAt routers opts.ip n ∧ d.icmpCode = icmpEchoReply := by
  cases c with
  | sendto sec nsec r => cases hd
  | recvError again => cases hd
  | recvNothing => cases hd
  | recvfrom sender bs =>
    have hphase : s.trace.phase = .recv := hg.1.1
    obtain ⟨frame, sender', whole, hlast, hanswer, hcall⟩ | hnone := hg.2 sender bs rfl
    · obtain ⟨rfl, rfl⟩ : sender = sender' ∧ bs = whole.take frameLen := by
        cases hcall
        exact ⟨rfl, rfl⟩
      rw [h.last hphase] at hlast
      obtain rfl := Option.some.inj hlast
      obtain ⟨hrec, hcode, -, hsender⟩ := answer_seen s.data hanswer
      obtain rfl : seen s.data sender whole = d := Option.some.inj (hrec.symm.trans hd)
      obtain ⟨httl, -, -, hle, -⟩ := h.book.going (recv_ne_exit hphase)
      have hn : s.trace.ttl.toNat = n := by
        rw [httl, UInt8.toNat_ofNat']
        omega
      rw [hn] at hsender
      exact ⟨hsender, hcode⟩
    · rw [hnone] at hd
      cases hd

/-- The loop waits behind a call of `sendto`, or goes on waiting. -/
theorem waits_behind {t : Trace} {o : Outcome} (h : (traceStep e opts ctx t o).phase = .recv) :
    (traceStep e opts ctx t o).ttl = t.ttl ∧
      ((∃ r, o = .sent r) ∨ traceStep e opts ctx t o = t) := by
  cases o with
  | sent r =>
    refine ⟨?_, Or.inl ⟨r, rfl⟩⟩
    change (afterSend opts t r).phase = .recv at h
    show (afterSend opts t r).ttl = t.ttl
    unfold afterSend at h ⊢
    dsimp only at h ⊢
    split at h
    · exact (head_ne_recv _ _ h).elim
    · next hlong => rw [if_neg hlong]
  | recvError again =>
    cases again with
    | true => exact (head_ne_recv _ _ h).elim
    | false => exact (head_ne_recv _ _ h).elim
  | recvNothing => exact (head_ne_recv _ _ h).elim
  | received d =>
    have hsame : traceStep e opts ctx t (.received d) = t := by
      cases hrec : recordedOf e ctx.ident (.received d) with
      | none => exact afterRecv_none hrec
      | some d' =>
        obtain ⟨⟨hlong, hpass⟩, rfl⟩ := recordedOf_some.mp hrec
        change (afterRecv opts e ctx t d).phase = .recv at h
        unfold afterRecv at h
        rw [if_pos hlong, if_pos hpass] at h
        dsimp only at h
        split at h
        · cases h
        · exact (head_ne_recv _ _ h).elim
    exact ⟨congrArg Trace.ttl hsame, Or.inr hsame⟩

theorem going_of_book {m : Int} {t : Trace} (h : Book m n k t) : Going t := by
  intro hphase
  obtain ⟨-, hhops, hretries, hle, hk⟩ := h.going hphase
  omega

theorem answerTtl_none {ident : Nat} {o : Outcome} (h : recordedOf e ident o = none) :
    answerTtl e ident n o = [] := by
  unfold answerTtl
  rw [h]
  rfl

theorem answerTtl_some {ident : Nat} {o : Outcome} {d : Datagram}
    (h : recordedOf e ident o = some d) : answerTtl e ident n o = [n] := by
  unfold answerTtl
  rw [h]
  rfl

/-- Behind the routers there is only the destination, which is not taken for a router. -/
theorem reaches_behind (h : OnPath e opts ctx src routers n k ns s) (hm : opts.maxHops ≤ 255)
    (hg : (path e opts ctx src routers).guard s c) {d : Datagram}
    (hd : recordedOf e ctx.ident (c.outcome s.data) = some d) (hn : routers.length < n) :
    Reaches e ctx.ident opts (c.outcome s.data) := by
  obtain ⟨hsender, hcode⟩ := recorded_hop h hm hg hd
  have hdst : hopAt routers opts.ip n = opts.ip := List.getD_eq_default _ _ (by omega)
  exact ⟨d, hd, reached_iff.mpr ⟨hcode, hsender.trans hdst⟩⟩

theorem mem_answerTtl {ident i : Nat} {o : Outcome} (h : i ∈ answerTtl e ident n o) :
    i = n ∧ ∃ d, recordedOf e ident o = some d := by
  unfold answerTtl at h
  split at h
  · next hrec => exact ⟨List.mem_singleton.mp h, Option.isSome_iff_exists.mp hrec⟩
  · cases h

theorem hopNext_recorded {ident : Nat} {o : Outcome} {d : Datagram}
    (h : recordedOf e ident o = some d) : hopNext e ident n o = n + 1 := by
  cases o with
  | sent r => cases h
  | recvError again => cases h
  | recvNothing => cases h
  | received d' =>
    refine if_pos ?_
    show (recordedOf e ident (.received d')).isSome = true
    rw [h]
    rfl

/-- While the loop waits, the probe that was sent last has its TTL. -/
theorem last_step (h : OnPath e opts ctx src routers n k ns s)
    (hphase : (traceStep e opts ctx s.trace (c.outcome s.data)).phase = .recv) :
    (proberStep e opts ctx src s c).sent.getLast? = some
      (probe e opts ctx src (traceStep e opts ctx s.trace (c.outcome s.data)).ttl) := by
  obtain ⟨httl, hbehind⟩ := waits_behind hphase
  have hsame : (∀ r, c.outcome s.data ≠ .sent r) →
      s.sent.getLast? = some (probe e opts ctx src s.trace.ttl) := by
    intro hother
    rw [hbehind.resolve_left fun ⟨r, hr⟩ => hother r hr] at hphase
    exact h.last hphase
  rw [httl]
  cases c with
  | sendto sec nsec r =>
    show (s.sent ++ [_]).getLast? = _
    rw [List.getLast?_concat, buildProbe_slice]
  | recvError again => exact hsame fun r hr => nomatch hr
  | recvNothing => exact hsame fun r hr => nomatch hr
  | recvfrom sender bs => exact hsame fun r hr => nomatch hr

/-- The datagram of an answer makes the node of its TTL. -/
theorem nodes_answer (h : OnPath e opts ctx src routers n k ns s) (hm : opts.maxHops ≤ 255)
    (hg : (path e opts ctx src routers).guard s c) :
    (recordedOf e ctx.ident (c.outcome s.data)).toList.map Datagram.node =
      (answerTtl e ctx.ident n (c.outcome s.data)).map (nodeAt routers opts.ip) := by
  cases hrec : recordedOf e ctx.ident (c.outcome s.data) with
  | none =>
    rw [answerTtl_none hrec]
    rfl
  | some d =>
    obtain ⟨hsender, -⟩ := recorded_hop h hm hg hrec
    rw [answerTtl_some hrec]
    show [Datagram.node d] = [nodeAt routers opts.ip n]
    unfold Datagram.node
    rw [hsender]
    rfl

/-- **One call.** -/
theorem onPath_step (h : OnPath e opts ctx src routers n k ns s) (hm : opts.maxHops ≤ 255)
    (hg : (path e opts ctx src routers).guard s c) :
    OnPath e opts ctx src routers (hopNext e ctx.ident n (c.outcome s.data))
      (failNext e ctx.ident k (c.outcome s.data))
      (ns ++ answerTtl e ctx.ident n (c.outcome s.data))
      ((path e opts ctx src routers).step s c) := by
  have htrace : ((path e opts ctx src routers).step s c).trace =
    traceStep e opts ctx s.trace (c.outcome s.data) := proberStep_trace s c
  have hguard : (traceroute e opts ctx).guard s.trace (c.outcome s.data) := hg.1
  have hne : s.trace.phase ≠ .exit := fun hphase => not_guard_exit hphase hguard
  have hspec := traceStep_spec (going_of_book h.book) hne hguard
  have hentry : Entry e ctx.ident opts.maxHops n k _ _ _ := book_step h.book hguard
  refine ⟨?_, ?_, ?_, ?_, ?_⟩
  · rw [htrace]
    exact hentry.book
  · rw [htrace]
    exact last_step h
  · rw [htrace, List.map_append, ← h.nodes, ← nodes_answer h hm hg]
    exact hspec.nodes
  · rw [htrace]
    intro hphase i hi
    rcases List.mem_append.mp hi with hi | hi
    · exact h.within hne i hi
    · obtain ⟨rfl, d, hrec⟩ := mem_answerTtl hi
      by_contra hlt
      exact hspec.stays hphase (reaches_behind h hm hg hrec (by omega))
  · unfold answerTtl
    split
    · rw [List.dropLast_concat]
      exact h.within hne
    · rw [List.append_nil]
      exact h.before

/-! ## Runs -/

theorem onPath_start (hm : 0 ≤ opts.maxHops) (junk : Bytes) :
    OnPath e opts ctx src routers 1 0 [] (proberStart opts junk) where
  book := (book_start opts hm).1
  last := fun hphase => (head_ne_recv _ _ hphase).elim
  nodes := (traceStart_spec opts).2.1
  within := fun _ _ hi => nomatch hi
  before := fun _ hi => nomatch hi

/-- What a run of calls does. -/
structure Ran (e : Endian) (opts : TracerouteOpts) (ctx : TracerouteCtx) (src : InAddr)
    (routers : List InAddr) (n k : Nat) (ns : List Nat) (s : Prober) (cs : List Call) : Prop where
  onPath : ∃ n', OnPath e opts ctx src routers n'
    ((outcomes e opts ctx src s cs).foldl (failNext e ctx.ident) k)
    (ns ++ answered e ctx.ident n (outcomes e opts ctx src s cs))
    ((path e opts ctx src routers).exec s cs)
  due : ∀ i ∈ answered e ctx.ident n (outcomes e opts ctx src s cs),
    n ≤ i ∧ (i : Int) ≤ opts.maxHops
  rising : (answered e ctx.ident n (outcomes e opts ctx src s cs)).Pairwise (· < ·)

theorem onPath_run {cs : List Call} (h : OnPath e opts ctx src routers n k ns s)
    (hm : opts.maxHops ≤ 255) (hes : (path e opts ctx src routers).Legal s cs) :
    Ran e opts ctx src routers n k ns s cs := by
  induction cs generalizing s n k ns with
  | nil =>
    refine ⟨⟨n, ?_⟩, (fun _ hi => nomatch hi), List.Pairwise.nil⟩
    rw [show answered e ctx.ident n (outcomes e opts ctx src s []) = [] from rfl, List.append_nil]
    exact h
  | cons c cs ih =>
    obtain ⟨⟨n', hon⟩, hdue, hrising⟩ := ih (onPath_step h hm hes.1) hes.2
    have hguard : (traceroute e opts ctx).guard s.trace (c.outcome s.data) := hes.1.1
    have hle : (n : Int) ≤ opts.maxHops :=
      (h.book.going fun hphase => not_guard_exit hphase hguard).2.2.2.1
    rw [List.append_assoc] at hon
    refine ⟨⟨n', hon⟩, ?_, ?_⟩
    · intro i hi
      rcases List.mem_append.mp hi with hi | hi
      · obtain ⟨rfl, -⟩ := mem_answerTtl hi
        exact ⟨le_refl i, hle⟩
      · obtain ⟨hlow, hhigh⟩ := hdue i hi
        exact ⟨(hopNext_le ..).trans hlow, hhigh⟩
    · refine List.pairwise_append.mpr ⟨?_, hrising, ?_⟩
      · unfold answerTtl
        split <;> simp
      · intro i hi j hj
        obtain ⟨rfl, d, hrec⟩ := mem_answerTtl hi
        have hlow := (hdue j hj).1
        have hnext : hopNext e ctx.ident i (c.outcome s.data) = i + 1 := hopNext_recorded hrec
        omega

/-! ## Every answer is heard -/

/-- Whoever has the TTL of a probe can answer it, as its checksums are right. -/
theorem exists_answer {ttl : UInt8} (hpos : 0 < ttl.toNat) :
    ∃ sender whole, Answer routers (probe e opts ctx src ttl) sender whole := by
  have hintact : Intact (probe e opts ctx src ttl) :=
    ⟨(probe_verifies ttl).1, (probe_verifies ttl).2⟩
  have hhdr : IsHeader (0x45 :: List.replicate 19 0) := ⟨rfl, by decide, by decide⟩
  rcases Nat.lt_or_ge routers.length ttl.toNat with hlt | hge
  · exact ⟨_, _, .echo 0 0 hintact hlt rfl rfl rfl hhdr⟩
  · have hlen : ttl.toNat - 1 < routers.length := by omega
    refine ⟨_, _, .exceeded 0 0 hintact (List.getElem?_eq_getElem hlen) ?_ hhdr⟩
    rw [probe_ttl]
    omega

/-- An answer to the last probe passes the guard and makes a node. -/
theorem answer_heard (h : OnPath e opts ctx src routers n k ns s)
    (hphase : s.trace.phase = .recv) {sender : InAddr} {whole : List UInt8}
    (hanswer : Answer routers (probe e opts ctx src s.trace.ttl) sender whole) :
    (path e opts ctx src routers).guard s (.recvfrom sender (whole.take frameLen)) ∧
      Replies routers s (.recvfrom sender (whole.take frameLen)) ∧
      (recordedOf e ctx.ident (.received (seen s.data sender whole))).isSome := by
  have hreplies : Replies routers s (.recvfrom sender (whole.take frameLen)) :=
    ⟨_, sender, whole, h.last hphase, hanswer, rfl⟩
  obtain ⟨hdr, type, rest, hwhole, hhdr, -, -⟩ := answer_shape hanswer (length_probe _)
  have hleast := hhdr.least
  have hcount : (whole.take frameLen).length = min frameLen whole.length := List.length_take
  have hlong : ipSize ≤ whole.length := by
    rw [hwhole, List.length_append]
    omega
  refine ⟨⟨⟨hphase, ?_, ?_⟩, ?_⟩, hreplies, ?_⟩
  · show 0 < (whole.take frameLen).length
    rw [hcount, Nat.lt_min]
    exact ⟨by decide, Nat.lt_of_lt_of_le (by decide) hlong⟩
  · show (whole.take frameLen).length ≤ frameLen
    rw [hcount]
    exact Nat.min_le_left ..
  · rintro sender' bs hcall
    exact Or.inl hreplies
  · rw [(answer_seen s.data hanswer).1]
    rfl

/-- What `do_traceroute` makes of the answers of a path. -/
structure Reports (e : Endian) (opts : TracerouteOpts) (ctx : TracerouteCtx) (src : InAddr)
    (routers : List InAddr) (s : Prober) (cs : List Call) : Prop where
  /-- The nodes are those of the TTLs that were answered, in order. -/
  nodes : ((path e opts ctx src routers).exec s cs).trace.result.nodes =
    (answered e ctx.ident 1 (outcomes e opts ctx src s cs)).map (nodeAt routers opts.ip)
  rising : (answered e ctx.ident 1 (outcomes e opts ctx src s cs)).Pairwise (· < ·)
  bounded : ∀ n ∈ answered e ctx.ident 1 (outcomes e opts ctx src s cs),
    1 ≤ n ∧ (n : Int) ≤ opts.maxHops
  /-- Only the last node can be the destination. -/
  before : ∀ n ∈ (answered e ctx.ident 1 (outcomes e opts ctx src s cs)).dropLast,
    n ≤ routers.length
  /-- No answer is skipped. -/
  heard : (path e opts ctx src routers).Always
    (fun s c => Replies routers s c → (recordedOf e ctx.ident (c.outcome s.data)).isSome) s cs
  /-- Whenever the loop waits, there is an answer to come. -/
  answerable : ((path e opts ctx src routers).exec s cs).trace.phase = .recv →
    ∃ c, Replies routers ((path e opts ctx src routers).exec s cs) c ∧
      (path e opts ctx src routers).guard ((path e opts ctx src routers).exec s cs) c

theorem heard_run {cs : List Call} (h : OnPath e opts ctx src routers n k ns s)
    (hm : opts.maxHops ≤ 255) (hes : (path e opts ctx src routers).Legal s cs) :
    (path e opts ctx src routers).Always (fun s c => Replies routers s c →
      (recordedOf e ctx.ident (c.outcome s.data)).isSome) s cs := by
  refine (Guarded.always_of (F := fun _ _ => True)
    (I := fun s => ∃ n k ns, OnPath e opts ctx src routers n k ns s) ?_ ⟨n, k, ns, h⟩ hes
    (Guarded.always_true _ _)).1
  rintro s c ⟨n, k, ns, h⟩ hg -
  refine ⟨?_, _, _, _, onPath_step h hm hg⟩
  rintro ⟨frame, sender, whole, hlast, hanswer, rfl⟩
  have hphase : s.trace.phase = .recv := hg.1.1
  rw [h.last hphase] at hlast
  obtain rfl := Option.some.inj hlast
  exact (answer_heard h hphase hanswer).2.2

/-- **The nodes are the routers of the TTLs that were answered**, in the order of the path,
    with the destination last; no answer is skipped, and every probe can be answered. -/
theorem nodes_path (hm : 0 ≤ opts.maxHops ∧ opts.maxHops ≤ 255) {junk : Bytes} {cs : List Call}
    (hes : (path e opts ctx src routers).Legal (proberStart opts junk) cs) :
    Reports e opts ctx src routers (proberStart opts junk) cs := by
  have hstart : OnPath e opts ctx src routers 1 0 [] (proberStart opts junk) :=
    onPath_start hm.1 junk
  obtain ⟨⟨n, hon⟩, hdue, hrising⟩ := onPath_run hstart hm.2 hes
  rw [List.nil_append] at hon
  refine ⟨hon.nodes, hrising, hdue, hon.before, heard_run hstart hm.2 hes, fun hphase => ?_⟩
  obtain ⟨httl, -, -, hle, -⟩ := hon.book.going (recv_ne_exit hphase)
  have hfirst := hon.book.first
  have hpos : 0 < (UInt8.ofNat n).toNat := by
    rw [UInt8.toNat_ofNat']
    omega
  rw [← httl] at hpos
  obtain ⟨sender, whole, hanswer⟩ := exists_answer hpos
  obtain ⟨hguard, hreplies, -⟩ := answer_heard hon hphase hanswer
  exact ⟨_, hreplies, hguard⟩

def plainHeader : List UInt8 := 0x45 :: List.replicate 19 0

/-- A probe that cannot be sent, one that is answered by 10.0.0.9 behind somebody else's
    datagram, and one that is answered by 10.0.0.1. -/
def pathCalls : List Call := [
  .sendto 5 7 (-1),
  .sendto 5 8 48,
  .recvfrom ⟨10, 0, 0, 5⟩ [0x45, 0xff],
  .recvfrom ⟨10, 0, 0, 9⟩ ((plainHeader ++ [icmpTimeExceeded, 0, 1, 2, 0, 0, 0, 0] ++
    (probe .big twoHops openCtx ⟨10, 0, 0, 2⟩ 1).take (ipSize + 8)).take frameLen),
  .sendto 6 9 48,
  .recvfrom ⟨10, 0, 0, 1⟩ ((plainHeader ++ [icmpEchoReply, 0, 3, 4] ++
    (probe .big twoHops openCtx ⟨10, 0, 0, 2⟩ 2).drop (ipSize + 4)).take frameLen)]

theorem pathCalls_legal : (path .big twoHops openCtx ⟨10, 0, 0, 2⟩ [⟨10, 0, 0, 9⟩]).Legal
    (proberStart twoHops fun _ => 0xff) pathCalls := by
  have hintact : ∀ ttl, Intact (probe .big twoHops openCtx ⟨10, 0, 0, 2⟩ ttl) := fun ttl =>
    ⟨(probe_verifies ttl).1, (probe_verifies ttl).2⟩
  have hhdr : IsHeader plainHeader := ⟨rfl, by decide, by decide⟩
  refine ⟨⟨rfl, fun _ _ h => nomatch h⟩, ⟨rfl, fun _ _ h => nomatch h⟩, ⟨⟨rfl, ?_⟩, ?_⟩,
    ⟨⟨rfl, ?_⟩, ?_⟩, ⟨rfl, fun _ _ h => nomatch h⟩, ⟨⟨rfl, ?_⟩, ?_⟩, trivial⟩
  · exact ⟨by decide, by decide⟩
  · intro _ _ _
    exact Or.inr rfl
  · exact ⟨by decide, by decide⟩
  · intro _ _ _
    exact Or.inl ⟨_, _, _, congrArg some (buildProbe_slice ..),
      .exceeded 1 2 (hintact 1) rfl rfl hhdr, rfl⟩
  · exact ⟨by decide, by decide⟩
  · intro _ _ _
    exact Or.inl ⟨_, _, _, congrArg some (buildProbe_slice ..),
      .echo 3 4 (hintact 2) (by decide) rfl rfl rfl hhdr, rfl⟩

theorem nodes_path_pathCalls : Reports .big twoHops openCtx ⟨10, 0, 0, 2⟩ [⟨10, 0, 0, 9⟩]
    (proberStart twoHops fun _ => 0xff) pathCalls :=
  nodes_path (by decide) pathCalls_legal

/-- `traceroute_opts_init`, with the address that `traceroute` puts in. -/
def tracerouteOptsInit (ip : InAddr) : TracerouteOpts := ⟨ip, 128, 1⟩

/-- The command is within these bounds. -/
example (ip : InAddr) : 0 ≤ (tracerouteOptsInit ip).maxHops ∧
    (tracerouteOptsInit ip).maxHops ≤ 255 :=
  show 0 ≤ (128 : Int) ∧ (128 : Int) ≤ 255 by decide

/-! ## With no answer lost -/

/-- A receive without an answer. -/
def Silent (c : Call) : Prop := c = .recvError true ∨ c = .recvNothing

/-- Why the loop is left. -/
inductive Leaves (e : Endian) (opts : TracerouteOpts) (ident : Nat) (m : Int) (n k : Nat)
    (o : Outcome) (t' : Trace) : Prop
  | retries (ten : 10 ≤ failNext e ident k o)
  | destination (reaches : Reaches e ident opts o) (hops : 0 < t'.hops)
  | hops (last : (hopNext e ident n o : Int) = m + 1) (hops : ¬ 0 < t'.hops)

theorem leaves_retry {m : Int} {t t' : Trace} {o : Outcome} (h : Book m n k t)
    (hphase : t.phase ≠ .exit) (hsame : t'.hops = t.hops ∧ t'.retries = t.retries) {msg : String}
    (hfails : Fails o) (hexit : (retry opts t' msg).phase = .exit) :
    10 ≤ failNext e ctx.ident k o := by
  obtain ⟨-, hhops, hretries, hle, hk⟩ := h.going hphase
  have hout := (retry_frame opts t' msg).2.2.2.2.mp hexit
  have hnext : failNext e ctx.ident k o = k + 1 := if_pos hfails
  omega

theorem leaves_done {m : Int} {t t' : Trace} {o : Outcome} (h : Book m n k t)
    (hphase : t.phase ≠ .exit) (hsame : t'.hops = t.hops)
    (hfin : finishes e ctx.ident o = true) (hexit : (done opts t').phase = .exit) :
    Leaves e opts ctx.ident m n k o (done opts t') := by
  obtain ⟨-, hhops, -, hle, -⟩ := h.going hphase
  obtain ⟨-, hleft, -, -, hout⟩ := done_frame opts t'
  have hzero := hout.mp hexit
  have hnext : hopNext e ctx.ident n o = n + 1 := if_pos hfin
  exact .hops (by omega) (by omega)

/-- **The loop is left** after ten failures, at the destination, or with no hops left. -/
theorem leaves_step {m : Int} {t : Trace} {o : Outcome} (h : Book m n k t)
    (hg : (traceroute e opts ctx).guard t o)
    (hexit : (traceStep e opts ctx t o).phase = .exit) :
    Leaves e opts ctx.ident m n k o (traceStep e opts ctx t o) := by
  have hne : t.phase ≠ .exit := fun hphase => not_guard_exit hphase hg
  cases o with
  | sent r =>
    change (afterSend opts t r).phase = .exit at hexit
    unfold afterSend at hexit
    dsimp only at hexit
    split at hexit
    · next hshort =>
      refine .retries (leaves_retry h hne ?_ hshort hexit)
      exact ⟨rfl, rfl⟩
    · cases hexit
  | recvError again =>
    cases again with
    | true => exact leaves_done h hne rfl rfl hexit
    | false => exact .retries (leaves_retry (o := .recvError false) h hne ⟨rfl, rfl⟩ rfl hexit)
  | recvNothing => exact leaves_done h hne rfl rfl hexit
  | received d =>
    change (afterRecv opts e ctx t d).phase = .exit at hexit
    show Leaves e opts ctx.ident m n k _ (afterRecv opts e ctx t d)
    cases hrec : recordedOf e ctx.ident (.received d) with
    | none =>
      rw [afterRecv_none hrec] at hexit
      exact absurd hexit hne
    | some d' =>
      obtain ⟨⟨hlong, hpass⟩, rfl⟩ := recordedOf_some.mp hrec
      unfold afterRecv at hexit ⊢
      rw [if_pos hlong, if_pos hpass] at hexit ⊢
      dsimp only at hexit ⊢
      by_cases hreach : reached opts d = true
      · rw [if_pos hreach]
        exact .destination ⟨d, hrec, hreach⟩ (going_of_book h hne).1
      · rw [if_neg hreach] at hexit ⊢
        exact leaves_done h hne rfl (by rw [finishes, hrec]; rfl) hexit

/-- In the hop `n` of a run in which every TTL below was answered. -/
structure NoGap (opts : TracerouteOpts) (routers : List InAddr) (n k : Nat) (ns : List Nat)
    (t : Trace) : Prop where
  all : ns = List.range' 1 (n - 1)
  /-- Unless ten failures end it, a run ends behind the destination or the last hop. -/
  ends : t.phase = .exit → k < 10 →
    0 < t.hops ∧ n = routers.length + 2 ∨
      ¬ 0 < t.hops ∧ (n : Int) = opts.maxHops + 1 ∧ n ≤ routers.length + 1

/-- Only an answer or a silence finishes a hop. -/
theorem hopNext_none {ident : Nat} {data : Bytes} (h : recordedOf e ident (c.outcome data) = none)
    (hloud : ¬ Silent c) : hopNext e ident n (c.outcome data) = n := by
  refine if_neg ?_
  cases c with
  | sendto sec nsec r => exact Bool.false_ne_true
  | recvError again =>
    cases again with
    | true => exact absurd (Or.inl rfl) hloud
    | false => exact Bool.false_ne_true
  | recvNothing => exact absurd (Or.inr rfl) hloud
  | recvfrom sender bs =>
    show ¬ (recordedOf e ident ((Call.recvfrom sender bs).outcome data)).isSome = true
    rw [h]
    exact Bool.false_ne_true

theorem hopAt_mem {dst : InAddr} (hpos : 0 < n) (hn : n ≤ routers.length) :
    hopAt routers dst n ∈ routers := by
  unfold hopAt
  rw [List.getD_eq_getElem _ _ (by omega)]
  exact List.getElem_mem _

/-- The TTLs that were answered are below that of the destination. -/
theorem below_destination (h : OnPath e opts ctx src routers n k ns s)
    (hall : ns = List.range' 1 (n - 1)) (hne : s.trace.phase ≠ .exit) :
    n ≤ routers.length + 1 := by
  have hmem := h.within hne
  rw [hall] at hmem
  by_contra hlt
  have hlast := hmem (n - 1) (List.mem_range'_1.mpr (by omega))
  omega

theorem noGap_all (hfirst : 1 ≤ n) (hall : ns = List.range' 1 (n - 1)) (hloud : ¬ Silent c)
    (ident : Nat) (data : Bytes) :
    ns ++ answerTtl e ident n (c.outcome data) =
      List.range' 1 (hopNext e ident n (c.outcome data) - 1) := by
  cases hrec : recordedOf e ident (c.outcome data) with
  | none =>
    rw [answerTtl_none hrec, hopNext_none hrec hloud, List.append_nil]
    exact hall
  | some d =>
    obtain ⟨j, rfl⟩ : ∃ j, n = j + 1 := ⟨n - 1, by omega⟩
    rw [answerTtl_some hrec, hopNext_recorded hrec, hall, Nat.add_sub_cancel, Nat.add_sub_cancel,
      List.range'_1_concat, Nat.add_comm 1 j]

/-- Only the destination is behind the routers. -/
theorem reached_behind (h : OnPath e opts ctx src routers n k ns s) (hm : opts.maxHops ≤ 255)
    (hdst : opts.ip ∉ routers) (hg : (path e opts ctx src routers).guard s c) {d : Datagram}
    (hd : recordedOf e ctx.ident (c.outcome s.data) = some d) (hreach : reached opts d = true) :
    routers.length < n := by
  have hfirst := h.book.first
  by_contra hin
  refine hdst ?_
  rw [← (reached_iff.mp hreach).2, (recorded_hop h hm hg hd).1]
  exact hopAt_mem (by omega) (by omega)

theorem noGap_step (h : OnPath e opts ctx src routers n k ns s)
    (hgap : NoGap opts routers n k ns s.trace) (hm : opts.maxHops ≤ 255)
    (hdst : opts.ip ∉ routers) (hg : (path e opts ctx src routers).guard s c)
    (hloud : ¬ Silent c) :
    NoGap opts routers (hopNext e ctx.ident n (c.outcome s.data))
      (failNext e ctx.ident k (c.outcome s.data))
      (ns ++ answerTtl e ctx.ident n (c.outcome s.data))
      ((path e opts ctx src routers).step s c).trace := by
  have htrace : ((path e opts ctx src routers).step s c).trace =
    traceStep e opts ctx s.trace (c.outcome s.data) := proberStep_trace s c
  have hguard : (traceroute e opts ctx).guard s.trace (c.outcome s.data) := hg.1
  have hne : s.trace.phase ≠ .exit := fun hphase => not_guard_exit hphase hguard
  have hbelow := below_destination h hgap.all hne
  refine ⟨noGap_all h.book.first hgap.all hloud _ _, ?_⟩
  rw [htrace]
  intro hexit hk
  cases leaves_step h.book hguard hexit with
  | retries ten => exact absurd ten (Nat.not_le.mpr hk)
  | destination reaches hops =>
    obtain ⟨d, hrec, hreach⟩ := reaches
    have hbehind := reached_behind h hm hdst hg hrec hreach
    rw [hopNext_recorded hrec]
    exact Or.inl ⟨hops, by omega⟩
  | hops last hops =>
    refine Or.inr ⟨hops, last, ?_⟩
    cases hrec : recordedOf e ctx.ident (c.outcome s.data) with
    | none =>
      rw [hopNext_none hrec hloud]
      exact hbelow
    | some d =>
      have hspec := traceStep_spec (going_of_book h.book) hne hguard
      rw [hopNext_recorded hrec]
      by_contra hbehind
      exact hops ((hspec.exits hexit).mpr (Or.inr (reaches_behind h hm hg hrec (by omega))))

theorem noGap_start (hm : 0 ≤ opts.maxHops) (junk : Bytes) :
    NoGap opts routers 1 0 [] (proberStart opts junk).trace := by
  refine ⟨rfl, fun hexit _ => Or.inr ?_⟩
  have hpos := (traceStart_spec opts).2.2 hexit
  have hhops : (traceStart opts).hops = opts.maxHops := (head_spec opts _).1
  rw [hhops] at hpos
  refine ⟨?_, ?_, Nat.le_add_left 1 _⟩
  · show ¬ 0 < (traceStart opts).hops
    rw [hhops]
    exact hpos
  · show (1 : Int) = _
    omega

theorem noGap_run {cs : List Call} (h : OnPath e opts ctx src routers n k ns s)
    (hgap : NoGap opts routers n k ns s.trace) (hm : opts.maxHops ≤ 255)
    (hdst : opts.ip ∉ routers) (hes : (path e opts ctx src routers).Legal s cs)
    (hloud : ∀ c ∈ cs, ¬ Silent c) :
    ∃ n' ns', OnPath e opts ctx src routers n' (failing e ctx.ident k
        (outcomes e opts ctx src s cs)) ns' ((path e opts ctx src routers).exec s cs) ∧
      NoGap opts routers n' (failing e ctx.ident k (outcomes e opts ctx src s cs)) ns'
        ((path e opts ctx src routers).exec s cs).trace := by
  induction cs generalizing s n k ns with
  | nil => exact ⟨n, ns, h, hgap⟩
  | cons c cs ih =>
    have hhead : ¬ Silent c := hloud c List.mem_cons_self
    exact ih (onPath_step h hm hes.1) (noGap_step h hgap hm hdst hes.1 hhead) hes.2
      fun c' hc => hloud c' (List.mem_cons_of_mem c hc)

/-- The first `j` hops are the first of the path. -/
theorem hops_take {dst : InAddr} {j : Nat} (hj : j ≤ routers.length + 1) :
    (List.range' 1 j).map (hopAt routers dst) = (routers ++ [dst]).take j := by
  refine List.ext_getElem ?_ fun i hi hi' => ?_
  · simp
    omega
  · rw [List.length_map, List.length_range'] at hi
    have hhop : hopAt routers dst (1 + 1 * i) = routers.getD i dst := by
      unfold hopAt
      rw [show 1 + 1 * i - 1 = i by omega]
    rw [List.getElem_map, List.getElem_range', List.getElem_take, hhop]
    rcases Nat.lt_or_ge i routers.length with hlt | hge
    · rw [List.getD_eq_getElem _ _ hlt, List.getElem_append_left hlt]
    · rw [List.getD_eq_default _ _ hge, List.getElem_append_right hge, List.getElem_singleton]

/-- **With no answer lost** and no ten failures in a row, the call succeeds exactly if the
    destination is less than `max_hops` routers away, and its nodes are the path, as far as
    `max_hops` goes. -/
theorem path_found (hm : 0 ≤ opts.maxHops ∧ opts.maxHops ≤ 255) (hdst : opts.ip ∉ routers)
    {junk : Bytes} {cs : List Call}
    (hes : (path e opts ctx src routers).Legal (proberStart opts junk) cs)
    (hexit : ((path e opts ctx src routers).exec (proberStart opts junk) cs).trace.phase = .exit)
    (hloud : ∀ c ∈ cs, ¬ Silent c)
    (hfail : failing e ctx.ident 0 (outcomes e opts ctx src (proberStart opts junk) cs) < 10) :
    ((finish ctx ((path e opts ctx src routers).exec (proberStart opts junk) cs).trace).rval =
        true ↔ (routers.length : Int) < opts.maxHops) ∧
      ((path e opts ctx src routers).exec (proberStart opts junk) cs).trace.result.nodes.map
        TracerouteNode.inAddr = (routers ++ [opts.ip]).take opts.maxHops.toNat := by
  obtain ⟨n, ns, hon, hgap⟩ :=
    noGap_run (onPath_start hm.1 junk) (noGap_start hm.1 junk) hm.2 hdst hes hloud
  have hleft := hon.book.left
  have hrval : ∀ t : Trace, (finish ctx t).rval = true ↔ 0 < t.hops := by
    intro t
    unfold finish
    split
    · next hpos => exact iff_of_true rfl hpos
    · next hpos => exact iff_of_false Bool.false_ne_true hpos
  have hnodes : ns.map (hopAt routers opts.ip) = (routers ++ [opts.ip]).take (n - 1) := by
    rw [hgap.all, hops_take]
    obtain ⟨-, hn⟩ | ⟨-, -, hn⟩ := hgap.ends hexit hfail <;> omega
  have hmap : ns.map (TracerouteNode.inAddr ∘ nodeAt routers opts.ip) =
    ns.map (hopAt routers opts.ip) := rfl
  rw [hrval, hon.nodes, List.map_map, hmap, hnodes]
  obtain ⟨hpos, hn⟩ | ⟨hzero, hn, hle⟩ := hgap.ends hexit hfail
  · refine ⟨iff_of_true hpos (by omega), ?_⟩
    rw [List.take_of_length_le, List.take_of_length_le]
    · rw [List.length_append, List.length_singleton]
      omega
    · rw [List.length_append, List.length_singleton]
      omega
  · refine ⟨iff_of_false hzero (by omega), ?_⟩
    rw [show n - 1 = opts.maxHops.toNat by omega]

theorem path_found_pathCalls :
    ((finish openCtx ((path .big twoHops openCtx ⟨10, 0, 0, 2⟩ [⟨10, 0, 0, 9⟩]).exec
        (proberStart twoHops fun _ => 0xff) pathCalls).trace).rval = true ↔ (1 : Int) < 2) ∧
      ((path .big twoHops openCtx ⟨10, 0, 0, 2⟩ [⟨10, 0, 0, 9⟩]).exec
        (proberStart twoHops fun _ => 0xff) pathCalls).trace.result.nodes.map
          TracerouteNode.inAddr = [⟨10, 0, 0, 9⟩, ⟨10, 0, 0, 1⟩] := by
  refine path_found (by decide) (by decide) pathCalls_legal rfl ?_ (by decide)
  intro c hc
  simp only [pathCalls, List.mem_cons, List.not_mem_nil, or_false] at hc
  rcases hc with rfl | rfl | rfl | rfl | rfl | rfl <;> exact fun h => h.elim nofun nofun

end SsrlApps.MiscUtils
