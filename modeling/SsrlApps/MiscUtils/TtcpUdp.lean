/-
  The UDP transfers of miscUtils/ttcp.c.

  UDP has no end of the stream. The transmitter sends a sentinel, a datagram of four bytes,
  before its buffers, and up to five behind them; the receiver starts its clock at the first
  sentinel it sees and ends at the second. Whether it has seen one is in `going`, which is
  static in the loop: nothing sets it back for the next call of the command.

  Model. Of a datagram there is its length: the sink looks at nothing else. `results` is what
  the calls of `sendto` do; a sender that runs out of them is waiting in `Nwrite`. The network
  loses datagrams, and delivers the others in order. `nbuf` is an int there, and negative values
  of `-n`, from which the loop counts down past 0, are left out.

  Proved:
  * `transmit_shape`: what is sent, whatever fails.
  * `sink_counts`: a first receiver counts the data that arrive, and ends exactly if two
    sentinels do.
  * `goingAfter_seen`, `sink_stale`: behind a receiver that has seen a sentinel, all later ones
    end at their first one, and count what comes before it.
-/
import Mathlib.Data.List.Basic
import Mathlib.Algebra.GroupWithZero.Nat

namespace SsrlApps.TtcpUdp

/-! ## The transmitter -/

/-- What a `sendto` does: ENOBUFS is tried again, after a delay. -/
inductive Sendto where
  | sent
  | noBufs
  | failed

structure Sender where
  results : List Sendto
  /-- The lengths of the datagrams that have left, in order. -/
  wire : List Nat
  errno : Bool
  /-- It is in an `Nwrite` that has not returned. -/
  waiting : Bool

/-- The loop of `Nwrite` for UDP: whether it returns `count`. -/
def nwriteLoop (count : Nat) (wire : List Nat) (errno : Bool) : List Sendto → Bool × Sender
  | [] => (false, ⟨[], wire, errno, true⟩)
  | .sent :: results => (true, ⟨results, wire ++ [count], errno, false⟩)
  | .noBufs :: results => nwriteLoop count wire false results
  | .failed :: results => (false, ⟨results, wire, true, false⟩)

def nwrite (count : Nat) (s : Sender) : Bool × Sender :=
  if s.waiting then (false, s) else nwriteLoop count s.wire s.errno s.results

/-- `while (nbuf-- && Nwrite(fd, buf, buflen) == buflen) nbytes += buflen` -/
def sourceLoop (buflen : Nat) : Nat → Sender → Nat × Sender
  | 0, s => (0, s)
  | nbuf + 1, s =>
    let r := nwrite buflen s
    if r.1 then
      let q := sourceLoop buflen nbuf r.2
      (buflen + q.1, q.2)
    else (0, r.2)

/-- The length of a sentinel. -/
def sentinel : Nat := 4

/-- The buffers are longer than a sentinel. -/
def udpBuflen (buflen : Nat) : Nat := if buflen < 5 then 5 else buflen

/-- The transmitter, in sink mode: `nbytes`, and what it leaves behind. -/
def transmit (buflen nbuf : Nat) (results : List Sendto) : Nat × Sender :=
  let s := (nwrite sentinel ⟨results, [], false, false⟩).2
  let r := sourceLoop (udpBuflen buflen) nbuf s
  let s := (nwrite sentinel r.2).2
  if s.errno then (r.1, s)
  else
    let s := (nwrite sentinel s).2
    let s := (nwrite sentinel s).2
    let s := (nwrite sentinel s).2
    (r.1, (nwrite sentinel s).2)

theorem nwriteLoop_wire (count : Nat) (wire : List Nat) (errno : Bool) (results : List Sendto) :
    (nwriteLoop count wire errno results).2.wire =
      wire ++ if (nwriteLoop count wire errno results).1 then [count] else [] := by
  fun_induction nwriteLoop count wire errno results with
  | case1 errno => exact (List.append_nil wire).symm
  | case2 errno results => rfl
  | case3 errno results ih => exact ih
  | case4 errno results => exact (List.append_nil wire).symm

/-- `Nwrite` sends one datagram exactly if it returns its length. -/
theorem nwrite_wire (count : Nat) (s : Sender) :
    (nwrite count s).2.wire = s.wire ++ if (nwrite count s).1 then [count] else [] := by
  unfold nwrite
  split
  · exact (List.append_nil s.wire).symm
  · exact nwriteLoop_wire count s.wire s.errno s.results

/-- The loop sends the buffers that it counts. -/
theorem sourceLoop_wire (buflen nbuf : Nat) (s : Sender) :
    ∃ k ≤ nbuf, (sourceLoop buflen nbuf s).1 = k * buflen ∧
      (sourceLoop buflen nbuf s).2.wire = s.wire ++ List.replicate k buflen := by
  induction nbuf generalizing s with
  | zero => exact ⟨0, Nat.le_refl 0, (Nat.zero_mul buflen).symm, (List.append_nil s.wire).symm⟩
  | succ nbuf ih =>
    have hwire := nwrite_wire buflen s
    unfold sourceLoop
    dsimp only
    split
    · next hsent =>
      rw [if_pos hsent] at hwire
      obtain ⟨k, hk, hcount, hrest⟩ := ih (nwrite buflen s).2
      refine ⟨k + 1, Nat.succ_le_succ hk, ?_, ?_⟩
      · rw [hcount, Nat.succ_mul, Nat.add_comm]
      · rw [hrest, hwire, List.append_assoc]
        rfl
    · next hfail =>
      rw [if_neg hfail] at hwire
      exact ⟨0, Nat.zero_le _, (Nat.zero_mul buflen).symm, hwire⟩

/-- Several sentinels, some of which are sent. -/
theorem sentinels_wire {s : Sender} {wire : List Nat} {b : Nat}
    (h : s.wire = wire ++ List.replicate b sentinel) :
    ∃ b', b' ≤ b + 1 ∧ (nwrite sentinel s).2.wire = wire ++ List.replicate b' sentinel := by
  have hwire := nwrite_wire sentinel s
  rw [h, List.append_assoc] at hwire
  cases hsent : (nwrite sentinel s).1 with
  | true =>
    rw [hsent, if_pos rfl, ← List.replicate_succ'] at hwire
    exact ⟨b + 1, Nat.le_refl _, hwire⟩
  | false =>
    rw [hsent, if_neg Bool.false_ne_true, List.append_nil] at hwire
    exact ⟨b, Nat.le_succ b, hwire⟩

/-- Sentinels, the buffers that are counted, sentinels: whatever fails, or makes the sender
    wait. -/
theorem transmit_shape (buflen nbuf : Nat) (results : List Sendto) :
    ∃ a k b, a ≤ 1 ∧ k ≤ nbuf ∧ b ≤ 5 ∧
      (transmit buflen nbuf results).1 = k * udpBuflen buflen ∧
      (transmit buflen nbuf results).2.wire = List.replicate a sentinel ++
        List.replicate k (udpBuflen buflen) ++ List.replicate b sentinel := by
  have hfirst : ∃ a, a ≤ 0 + 1 ∧ (nwrite sentinel ⟨results, [], false, false⟩).2.wire =
      [] ++ List.replicate a sentinel := sentinels_wire rfl
  obtain ⟨a, ha, hstart⟩ := hfirst
  obtain ⟨k, hk, hcount, hloop⟩ := sourceLoop_wire (udpBuflen buflen) nbuf
    (nwrite sentinel ⟨results, [], false, false⟩).2
  rw [hstart, List.nil_append] at hloop
  obtain ⟨b1, hb1, h1⟩ := sentinels_wire (hloop.trans (List.append_nil _).symm : _ = _ ++
    List.replicate 0 sentinel)
  unfold transmit
  dsimp only
  split
  · exact ⟨a, k, b1, ha, hk, by omega, hcount, h1⟩
  · obtain ⟨b2, hb2, h2⟩ := sentinels_wire h1
    obtain ⟨b3, hb3, h3⟩ := sentinels_wire h2
    obtain ⟨b4, hb4, h4⟩ := sentinels_wire h3
    obtain ⟨b5, hb5, h5⟩ := sentinels_wire h4
    exact ⟨a, k, b5, ha, hk, by omega, hcount, h5⟩

/-! ## The receiver -/

/-- What a `recvfrom` returns: of a datagram of this length, what fits into the buffer. -/
inductive Recv where
  | datagram (len : Nat)
  | failed

/-- What a receiver leaves behind: `ended` unless it waits in `recvfrom`. -/
structure Sink where
  going : Bool
  nbytes : Nat
  ended : Bool
deriving DecidableEq

/-- The loop of the receiver in sink mode; `going` is what the last one has left. -/
def udpSink (buflen : Nat) (going : Bool) : List Recv → Sink
  | [] => ⟨going, 0, false⟩
  | .failed :: _ => ⟨going, 0, true⟩
  | .datagram len :: rest =>
    let cnt := min len buflen
    if cnt = 0 then ⟨going, 0, true⟩
    else if cnt ≤ 4 then
      if going then ⟨true, 0, true⟩ else udpSink buflen true rest
    else
      let r := udpSink buflen going rest
      { r with nbytes := cnt + r.nbytes }

/-- Receivers after each other, each with its buffer and what arrives for it. -/
def sessions : Bool → List (Nat × List Recv) → List Sink
  | _, [] => []
  | going, run :: runs =>
    let r := udpSink (udpBuflen run.1) going run.2
    r :: sessions r.going runs

/-- The bytes of data in these datagrams, as far as they fit. -/
def dataBytes (buflen : Nat) (arrived : List Nat) : Nat :=
  ((arrived.filter (4 < ·)).map (min · buflen)).sum

section Receiver

variable {m : Nat} (hm : 4 < m)
include hm

theorem udpSink_sentinel_first (rest : List Recv) :
    udpSink m false (.datagram sentinel :: rest) = udpSink m true rest := by
  have hcnt : min sentinel m = 4 := Nat.min_eq_left (Nat.le_of_lt hm)
  rw [udpSink]
  dsimp only
  rw [hcnt]
  rfl

theorem udpSink_sentinel_second (rest : List Recv) :
    udpSink m true (.datagram sentinel :: rest) = ⟨true, 0, true⟩ := by
  have hcnt : min sentinel m = 4 := Nat.min_eq_left (Nat.le_of_lt hm)
  rw [udpSink]
  dsimp only
  rw [hcnt]
  rfl

/-- Data are counted, and change nothing else. -/
theorem udpSink_data (going : Bool) {data : List Nat} (hdata : ∀ d ∈ data, 4 < d)
    (rest : List Recv) :
    udpSink m going (data.map .datagram ++ rest) =
      { udpSink m going rest with
        nbytes := (data.map (min · m)).sum + (udpSink m going rest).nbytes } := by
  induction data with
  | nil =>
    rw [List.map_nil, List.map_nil, List.sum_nil, Nat.zero_add]
    rfl
  | cons d data ih =>
    have hd : 4 < d := hdata d List.mem_cons_self
    have hpos : ¬ min d m = 0 := by omega
    have hlong : ¬ min d m ≤ 4 := by omega
    have hrest := ih fun e he => hdata e (List.mem_cons_of_mem d he)
    rw [List.map_cons, List.cons_append, udpSink, if_neg hpos, if_neg hlong, hrest, List.map_cons,
      List.sum_cons, Nat.add_assoc]

/-- The sentinels at the end: the first receiver needs two, or one behind the one it has. -/
theorem udpSink_sentinels (going : Bool) (b : Nat) :
    (udpSink m going ((List.replicate b sentinel).map .datagram)).nbytes = 0 ∧
      ((udpSink m going ((List.replicate b sentinel).map .datagram)).ended = true ↔
        2 ≤ b + if going then 1 else 0) := by
  match going, b with
  | going, 0 =>
    refine ⟨rfl, ?_⟩
    cases going with
    | false => exact iff_of_false Bool.false_ne_true (by decide)
    | true => exact iff_of_false Bool.false_ne_true (by decide)
  | true, b + 1 =>
    rw [List.replicate_succ, List.map_cons, udpSink_sentinel_second hm]
    exact ⟨rfl, iff_of_true rfl (Nat.le_add_left 2 b)⟩
  | false, 1 =>
    rw [List.replicate_one, List.map_cons, udpSink_sentinel_first hm]
    exact ⟨rfl, iff_of_false Bool.false_ne_true (by decide)⟩
  | false, b + 2 =>
    rw [List.replicate_succ, List.map_cons, udpSink_sentinel_first hm, List.replicate_succ,
      List.map_cons, udpSink_sentinel_second hm]
    exact ⟨rfl, iff_of_true rfl (Nat.le_add_left 2 b)⟩

end Receiver

theorem udpBuflen_gt (buflen : Nat) : 4 < udpBuflen buflen := by
  unfold udpBuflen
  split
  · decide
  · omega

theorem dataBytes_append (m : Nat) (xs ys : List Nat) :
    dataBytes m (xs ++ ys) = dataBytes m xs + dataBytes m ys := by
  unfold dataBytes
  rw [List.filter_append, List.map_append, List.sum_append]

theorem dataBytes_data (m : Nat) {data : List Nat} (h : ∀ d ∈ data, 4 < d) :
    dataBytes m data = (data.map (min · m)).sum := by
  unfold dataBytes
  rw [List.filter_eq_self.mpr fun d hd => decide_eq_true (h d hd)]

theorem dataBytes_sentinels (m b : Nat) : dataBytes m (List.replicate b sentinel) = 0 := by
  unfold dataBytes
  rw [List.filter_eq_nil_iff.mpr]
  · rfl
  · intro d hd
    rw [List.eq_of_mem_replicate hd]
    decide

/-- A first receiver, at what is left of sentinels, data and sentinels. -/
theorem udpSink_shape {m : Nat} (hm : 4 < m) {a : Nat} (ha : a ≤ 1) (b : Nat) {data : List Nat}
    (hdata : ∀ d ∈ data, 4 < d) {arrived : List Nat}
    (harrived : arrived = List.replicate a sentinel ++ data ++ List.replicate b sentinel) :
    (udpSink m false (arrived.map .datagram)).nbytes = (data.map (min · m)).sum ∧
      ((udpSink m false (arrived.map .datagram)).ended = true ↔ 2 ≤ a + b) := by
  have hbehind : ∀ going, (udpSink m going ((data ++ List.replicate b sentinel).map .datagram)).nbytes =
      (data.map (min · m)).sum ∧
        ((udpSink m going ((data ++ List.replicate b sentinel).map .datagram)).ended = true ↔
          2 ≤ b + if going then 1 else 0) := by
    intro going
    obtain ⟨hnone, hended⟩ := udpSink_sentinels hm going b
    rw [List.map_append, udpSink_data hm going hdata]
    refine ⟨?_, hended⟩
    show _ + _ = _
    rw [hnone, Nat.add_zero]
  subst harrived
  match a, ha with
  | 0, _ =>
    rw [List.replicate_zero, List.nil_append, Nat.zero_add]
    exact hbehind false
  | 1, _ =>
    rw [List.replicate_one, List.append_assoc, List.singleton_append, List.map_cons, udpSink_sentinel_first hm, Nat.add_comm]
    exact hbehind true

/-- The first receiver counts the data that arrive, and ends exactly if two sentinels do. -/
theorem sink_counts (buflen nbuf : Nat) (results : List Sendto) (m : Nat) {arrived : List Nat}
    (h : arrived.Sublist (transmit buflen nbuf results).2.wire) :
    let s := udpSink (udpBuflen m) false (arrived.map .datagram)
    s.nbytes = dataBytes (udpBuflen m) arrived ∧ s.nbytes ≤ (transmit buflen nbuf results).1 ∧
      (s.ended = true ↔ 2 ≤ arrived.count sentinel) := by
  intro s
  obtain ⟨a, k, b, ha, -, -, hcount, hwire⟩ := transmit_shape buflen nbuf results
  have hlong := udpBuflen_gt buflen
  rw [hwire, List.sublist_append_iff] at h
  obtain ⟨front, last, rfl, hfront, hlast⟩ := h
  rw [List.sublist_append_iff] at hfront
  obtain ⟨first, data, rfl, hfirst, hdata⟩ := hfront
  obtain ⟨a', ha', rfl⟩ := List.sublist_replicate_iff.mp hfirst
  obtain ⟨k', hk', rfl⟩ := List.sublist_replicate_iff.mp hdata
  obtain ⟨b', -, rfl⟩ := List.sublist_replicate_iff.mp hlast
  have hbuf : ∀ d ∈ List.replicate k' (udpBuflen buflen), 4 < d := by
    intro d hd
    rw [List.eq_of_mem_replicate hd]
    exact hlong
  have hother : (udpBuflen buflen == sentinel) = false := beq_false_of_ne (Nat.ne_of_gt hlong)
  obtain ⟨hbytes, hended⟩ := udpSink_shape (udpBuflen_gt m) (Nat.le_trans ha' ha) b' hbuf rfl
  refine ⟨?_, ?_, ?_⟩
  · rw [dataBytes_append, dataBytes_append, dataBytes_sentinels, dataBytes_sentinels,
      dataBytes_data _ hbuf, Nat.zero_add, Nat.add_zero]
    exact hbytes
  · rw [hcount]
    refine Nat.le_trans (Nat.le_of_eq hbytes) ?_
    rw [List.map_replicate, List.sum_replicate_nat]
    exact Nat.mul_le_mul hk' (Nat.min_le_left _ _)
  · rw [List.count_append, List.count_append, List.count_replicate_self, List.count_replicate_self,
      List.count_replicate, hother]
    exact hended

/-- One of three buffers is lost, and all sentinels but two. -/
theorem sink_counts_lossy :
    let s := udpSink (udpBuflen 8192) false ([4, 100, 100, 4].map .datagram)
    s.nbytes = dataBytes (udpBuflen 8192) [4, 100, 100, 4] ∧
      s.nbytes ≤ (transmit 100 3 (List.replicate 9 .sent)).1 ∧
      (s.ended = true ↔ 2 ≤ [4, 100, 100, 4].count sentinel) :=
  sink_counts 100 3 (List.replicate 9 .sent) 8192 (by decide)

/-! ## Receivers after each other -/

section Later

variable {m : Nat} (hm : 4 < m)
include hm

theorem udpSink_short {len : Nat} (hpos : 0 < len) (hshort : len ≤ 4) (going : Bool)
    (rest : List Recv) :
    udpSink m going (.datagram len :: rest) =
      if going then ⟨true, 0, true⟩ else udpSink m true rest := by
  have hcnt : min len m = len := Nat.min_eq_left (by omega)
  rw [udpSink]
  dsimp only
  rw [hcnt, if_neg (Nat.ne_of_gt hpos), if_pos hshort]

theorem udpSink_long {len : Nat} (hlong : 4 < len) (going : Bool) (rest : List Recv) :
    udpSink m going (.datagram len :: rest) =
      { udpSink m going rest with nbytes := min len m + (udpSink m going rest).nbytes } := by
  have hpos : ¬ min len m = 0 := by omega
  have hcnt : ¬ min len m ≤ 4 := by omega
  rw [udpSink]
  dsimp only
  rw [if_neg hpos, if_neg hcnt]

/-- `going` is set by the first sentinel. -/
theorem udpSink_seen (going : Bool) {arrived : List Nat} (hpos : ∀ d ∈ arrived, 0 < d)
    (hseen : going = true ∨ ∃ d ∈ arrived, d ≤ 4) :
    (udpSink m going (arrived.map .datagram)).going = true := by
  induction arrived generalizing going with
  | nil => exact hseen.resolve_right fun ⟨d, hd, _⟩ => absurd hd List.not_mem_nil
  | cons d arrived ih =>
    have hrest : ∀ e ∈ arrived, 0 < e := fun e he => hpos e (List.mem_cons_of_mem d he)
    rw [List.map_cons]
    by_cases hd : d ≤ 4
    · rw [udpSink_short hm (hpos d List.mem_cons_self) hd]
      split
      · rfl
      · exact ih true hrest (Or.inl rfl)
    · rw [udpSink_long hm (Nat.not_le.mp hd)]
      refine ih going hrest (hseen.imp_right ?_)
      rintro ⟨e, he, hle⟩
      rcases List.mem_cons.mp he with rfl | he
      · exact absurd hle hd
      · exact ⟨e, he, hle⟩

/-- A receiver that finds `going` set ends at its first sentinel. -/
theorem udpSink_going {arrived : List Nat} (hpos : ∀ d ∈ arrived, 0 < d) :
    udpSink m true (arrived.map .datagram) =
      ⟨true, dataBytes m (arrived.takeWhile (4 < ·)), arrived.any (· ≤ 4)⟩ := by
  induction arrived with
  | nil => rfl
  | cons d arrived ih =>
    have hrest := ih fun e he => hpos e (List.mem_cons_of_mem d he)
    rw [List.map_cons]
    by_cases hd : d ≤ 4
    · rw [udpSink_short hm (hpos d List.mem_cons_self) hd, if_pos rfl,
        List.takeWhile_cons_of_neg (by simpa using hd), List.any_cons, decide_eq_true hd]
      rfl
    · have hlong : 4 < d := Nat.not_le.mp hd
      have hbytes : dataBytes m (d :: arrived.takeWhile (4 < ·)) =
          min d m + dataBytes m (arrived.takeWhile (4 < ·)) := by
        unfold dataBytes
        rw [List.filter_cons_of_pos (by simpa using hlong), List.map_cons, List.sum_cons]
      rw [udpSink_long hm hlong, hrest, List.takeWhile_cons_of_pos (by simpa using hlong), hbytes,
        List.any_cons, decide_eq_false hd, Bool.false_or]

end Later

/-- `going` behind these receivers. -/
def goingAfter (going : Bool) (runs : List (Nat × List Recv)) : Bool :=
  runs.foldl (fun going run => (udpSink (udpBuflen run.1) going run.2).going) going

theorem sessions_last (going : Bool) (runs : List (Nat × List Recv)) (run : Nat × List Recv) :
    (sessions going (runs ++ [run])).getLast? =
      some (udpSink (udpBuflen run.1) (goingAfter going runs) run.2) := by
  induction runs generalizing going with
  | nil => rfl
  | cons first runs ih =>
    have hne : sessions (udpSink (udpBuflen first.1) going first.2).going (runs ++ [run]) ≠ [] := by
      cases runs <;> exact List.cons_ne_nil _ _
    rw [List.cons_append, sessions, List.getLast?_cons_of_ne_nil hne, ih]
    rfl

theorem udpSink_keeps (m : Nat) (recvs : List Recv) : (udpSink m true recvs).going = true := by
  induction recvs with
  | nil => rfl
  | cons r recvs ih =>
    cases r with
    | failed => rfl
    | datagram len =>
      rw [udpSink]
      dsimp only
      split
      · rfl
      · split
        · rfl
        · exact ih

/-- Nothing sets `going` back. -/
theorem goingAfter_keeps (runs : List (Nat × List Recv)) : goingAfter true runs = true := by
  induction runs with
  | nil => rfl
  | cons run runs ih =>
    unfold goingAfter
    rw [List.foldl_cons, udpSink_keeps]
    exact ih

theorem goingAfter_seen (going : Bool) {runs : List (Nat × List Recv)} {n : Nat} {seen : List Nat}
    (hrun : (n, seen.map .datagram) ∈ runs) (hpos : ∀ d ∈ seen, 0 < d)
    (hsentinel : ∃ d ∈ seen, d ≤ 4) : goingAfter going runs = true := by
  obtain ⟨before, behind, rfl⟩ := List.append_of_mem hrun
  have hset := udpSink_seen (udpBuflen_gt n) (goingAfter going before) hpos (Or.inr hsentinel)
  unfold goingAfter at hset ⊢
  rw [List.foldl_append, List.foldl_cons, hset]
  exact goingAfter_keeps behind

/-- Behind a receiver that has seen a sentinel, every later one ends at its first sentinel and
    counts what comes before it: nothing, unless the first sentinel is lost. -/
theorem sink_stale {runs : List (Nat × List Recv)} {n : Nat} {seen : List Nat}
    (hrun : (n, seen.map .datagram) ∈ runs) (hpos : ∀ d ∈ seen, 0 < d)
    (hsentinel : ∃ d ∈ seen, d ≤ 4) (m : Nat) {arrived : List Nat} (harrived : ∀ d ∈ arrived, 0 < d) :
    (sessions false (runs ++ [(m, arrived.map .datagram)])).getLast? =
      some ⟨true, dataBytes (udpBuflen m) (arrived.takeWhile (4 < ·)), arrived.any (· ≤ 4)⟩ := by
  rw [sessions_last, goingAfter_seen false hrun hpos hsentinel,
    udpSink_going (udpBuflen_gt m) harrived]

/-- Two good transfers: the second one counts nothing. -/
theorem sink_stale_second :
    (sessions false ([(8192, [4, 100, 4].map .datagram)] ++
      [(8192, [4, 100, 100, 4].map .datagram)])).getLast? = some ⟨true, 0, true⟩ :=
  sink_stale List.mem_cons_self (by decide) ⟨4, by decide, by decide⟩ 8192 (by decide)

end SsrlApps.TtcpUdp
