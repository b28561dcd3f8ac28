/-
  The probes of `do_traceroute`: how many there are, and their TTLs.

  Model. An outcome finishes a hop (`finishes`) when a receive is answered, times out or is
  empty; a failed call repeats the probe, and any other datagram is skipped. From the
  outcomes alone, `ttls` lists the TTL that each probe should have, and `failing` counts the
  failures since the last finished hop.

  Proved:
  * `book_step`, `book_run`: hops, retries, TTL and probes follow the outcomes, with at most
    ten probes for each hop and two outcomes for each probe.
  * `progress_iff`: a run makes bounded and monotone progress exactly if no probe should have
    a TTL above 255; by `progress_of_maxHops` none should if `max_hops` is at most 255.
-/
import SsrlApps.MiscUtils.Traceroute

namespace SsrlApps.MiscUtils

open Trace

/-! ## What the outcomes ask for -/

/-- A receive that is answered, times out or is empty. -/
def finishes (e : Endian) (ident : Nat) : Outcome → Bool
  | .sent _ => false
  | .recvError again => again
  | .recvNothing => true
  | .received d => (recordedOf e ident (.received d)).isSome

/-- A datagram that is not for this run. -/
def skipped (e : Endian) (ident : Nat) : Outcome → Bool
  | .received d => (recordedOf e ident (.received d)).isNone
  | _ => false

instance : DecidablePred Fails := fun o => by
  cases o <;> unfold Fails <;> infer_instance

section Counts

variable (e : Endian) (ident : Nat)

/-- The hop behind an outcome in the hop `n`. -/
def hopNext (n : Nat) (o : Outcome) : Nat := if finishes e ident o then n + 1 else n

/-- The failures behind an outcome, `k` of them before it. -/
def failNext (k : Nat) (o : Outcome) : Nat :=
  if Fails o then k + 1 else if finishes e ident o then 0 else k

/-- The TTL of a probe in the hop `n`. -/
def sentTtl (n : Nat) : Outcome → List Nat
  | .sent _ => [n]
  | _ => []

/-- The TTLs that the probes should have, from the hop `n` on. -/
def ttls : Nat → List Outcome → List Nat
  | _, [] => []
  | n, o :: os => sentTtl n o ++ ttls (hopNext e ident n o) os

/-- The failures since a hop was finished, with `k` before. -/
def failing (k : Nat) (os : List Outcome) : Nat := os.foldl (failNext e ident) k

/-- The datagrams that are skipped. -/
def skips (os : List Outcome) : Nat := os.countP (skipped e ident)

end Counts

/-- What a run is to do, with what it received so far. -/
structure Progress (e : Endian) (opts : TracerouteOpts) (ctx : TracerouteCtx)
    (os : List Outcome) : Prop where
  /-- The TTLs start at 1, increase by 1 with each finished hop and repeat on failures. -/
  probes : ((traceroute e opts ctx).exec (traceStart opts) os).probes.map UInt8.toNat =
    ttls e ctx.ident 1 os
  monotone : (((traceroute e opts ctx).exec (traceStart opts) os).probes.map
    UInt8.toNat).Pairwise (· ≤ ·)
  bounded : ∀ p ∈ ((traceroute e opts ctx).exec (traceStart opts) os).probes,
    (p.toNat : Int) ≤ opts.maxHops
  sends : (((traceroute e opts ctx).exec (traceStart opts) os).probes.length : Int) ≤
    10 * opts.maxHops
  /-- Only skipped datagrams can prolong the run. -/
  ends : (os.length : Int) ≤ 20 * opts.maxHops + skips e ctx.ident os
  tenFailures : 10 ≤ failing e ctx.ident 0 os →
    ((traceroute e opts ctx).exec (traceStart opts) os).phase = .exit
  /-- The loop is left, or waits for a call. -/
  goesOn : ((traceroute e opts ctx).exec (traceStart opts) os).phase = .exit ∨
    ∃ o, (traceroute e opts ctx).guard ((traceroute e opts ctx).exec (traceStart opts) os) o

/-! ## The books of a run -/

/-- A probe is out. -/
def pending (t : Trace) : Nat := if t.phase = .recv then 1 else 0

/-- In the hop `n` of `m`, behind `k` failures. -/
structure Book (m : Int) (n k : Nat) (t : Trace) : Prop where
  first : 1 ≤ n
  going : t.phase ≠ .exit → t.ttl = UInt8.ofNat n ∧ t.hops = m + 1 - n ∧ t.retries = 10 - k ∧
    n ≤ m ∧ k ≤ 9
  left : 10 * ((n : Int) - 1) + k ≤ 10 * m
  sends : t.probes.length + 10 ≤ 10 * n + k + pending t

variable {e : Endian} {opts : TracerouteOpts} {ctx : TracerouteCtx} {t : Trace} {m : Int}
  {n k : Nat}

theorem head_ne_recv (opts : TracerouteOpts) (t : Trace) : (head opts t).phase ≠ .recv := by
  unfold head
  split
  · split <;> simp
  · simp

theorem pending_head (opts : TracerouteOpts) (t : Trace) : pending (head opts t) = 0 :=
  if_neg (head_ne_recv opts t)

theorem pending_le (t : Trace) : pending t ≤ 1 := by
  unfold pending
  split <;> omega

/-- A finished hop, on a state with the counters of `t`. -/
theorem book_done (h : Book m n k t) (hphase : t.phase ≠ .exit) {t' : Trace}
    (hsame : t'.ttl = t.ttl ∧ t'.hops = t.hops ∧ t'.probes = t.probes) :
    Book m (n + 1) 0 (done opts t') := by
  obtain ⟨httl, hhops, hretries, hle, hk⟩ := h.going hphase
  obtain ⟨httl', hhops', hretries', hprobes', hexit⟩ := done_frame opts t'
  have hsends := h.sends
  have hpend := pending_le t
  refine ⟨Nat.le_add_left 1 n, fun hne => ⟨?_, ?_, hretries', ?_, Nat.zero_le 9⟩, by omega, ?_⟩
  · rw [httl', hsame.1, httl]
    exact (UInt8.ofNat_add n 1).symm
  · rw [hhops', hsame.2.1, hhops]
    omega
  · have hpos : ¬ t'.hops - 1 ≤ 0 := mt hexit.mpr hne
    rw [hsame.2.1, hhops] at hpos
    omega
  · rw [hprobes', hsame.2.2, show pending (done opts t') = 0 from pending_head _ _]
    omega

/-- A failure, on a state with the counters of `t` and at most one probe more. -/
theorem book_retry (h : Book m n k t) (hphase : t.phase ≠ .exit) {t' : Trace}
    (hsame : t'.ttl = t.ttl ∧ t'.hops = t.hops ∧ t'.retries = t.retries)
    (hprobes : t'.probes.length + pending t ≤ t.probes.length + 1) (s : String) :
    Book m n (k + 1) (retry opts t' s) := by
  obtain ⟨httl, hhops, hretries, hle, hk⟩ := h.going hphase
  obtain ⟨httl', hhops', hretries', hprobes', hexit⟩ := retry_frame opts t' s
  have hsends := h.sends
  refine ⟨h.first, fun hne => ⟨httl'.trans (hsame.1.trans httl),
    hhops'.trans (hsame.2.1.trans hhops), ?_, hle, ?_⟩, by omega, ?_⟩
  · rw [hretries', hsame.2.2, hretries]
    omega
  · have hpos : ¬ t'.retries - 1 ≤ 0 := fun hz => mt hexit.mpr hne (Or.inr hz)
    rw [hsame.2.2, hretries] at hpos
    omega
  · rw [hprobes', show pending (retry opts t' s) = 0 from pending_head _ _]
    omega

/-- What one outcome does to the books. -/
structure Entry (e : Endian) (ident : Nat) (m : Int) (n k : Nat) (o : Outcome)
    (t t' : Trace) : Prop where
  book : Book m (hopNext e ident n o) (failNext e ident k o) t'
  probes : t'.probes = t.probes ++ (sentTtl n o).map UInt8.ofNat
  time : 1 + pending t' ≤
    pending t + 2 * (sentTtl n o).length + if skipped e ident o then 1 else 0

theorem done_probes (opts : TracerouteOpts) (t : Trace) : (done opts t).probes = t.probes :=
  (done_frame opts t).2.2.2.1

theorem retry_probes (opts : TracerouteOpts) (t : Trace) (s : String) :
    (retry opts t s).probes = t.probes :=
  (retry_frame opts t s).2.2.2.1

theorem entry_sent (h : Book m n k t) (hphase : t.phase = .send) (r : Int) :
    Entry e ctx.ident m n k (.sent r) t (afterSend opts t r) := by
  have hne := send_ne_exit hphase
  have hpend : pending t = 0 := if_neg (by rw [hphase]; decide)
  obtain ⟨httl, hhops, hretries, hle, hk⟩ := h.going hne
  have hprobes : t.probes ++ [t.ttl] = t.probes ++ (sentTtl n (.sent r)).map UInt8.ofNat := by
    rw [httl]
    rfl
  have hone : (sentTtl n (.sent r)).length = 1 := rfl
  have hsends := h.sends
  unfold afterSend
  dsimp only
  by_cases hfail : r < frameLen
  · have hbook : Book m n (k + 1) (retry opts { t with probes := t.probes ++ [t.ttl] }
        "Send failed") := by
      refine book_retry h hne ⟨?_, ?_, ?_⟩ ?_ _
      · rfl
      · rfl
      · rfl
      · simp [hpend]
    have hnext : failNext e ctx.ident k (.sent r) = k + 1 := if_pos hfail
    rw [if_pos hfail]
    refine ⟨?_, (retry_probes _ _ _).trans hprobes, ?_⟩
    · rw [hnext]
      exact hbook
    · rw [show pending (retry opts _ _) = 0 from pending_head _ _, hone]
      omega
  · have hnext : failNext e ctx.ident k (.sent r) = k := if_neg hfail
    have hlen : (t.probes ++ [t.ttl]).length = t.probes.length + 1 := by simp
    rw [if_neg hfail]
    refine ⟨⟨h.first, fun _ => ?_, ?_, ?_⟩, hprobes, ?_⟩
    · rw [hnext]
      exact ⟨httl, hhops, hretries, hle, hk⟩
    · rw [hnext]
      exact h.left
    · rw [hnext]
      show (t.probes ++ [t.ttl]).length + 10 ≤ 10 * n + k + 1
      omega
    · rw [hone]
      show 1 + 1 ≤ _
      omega

/-- A receive that times out or is empty. -/
theorem entry_silent (h : Book m n k t) (hphase : t.phase = .recv) {o : Outcome}
    (hfin : finishes e ctx.ident o = true) (hfail : ¬ Fails o) (hsent : sentTtl n o = []) :
    Entry e ctx.ident m n k o t (done opts t) := by
  have hne := recv_ne_exit hphase
  have hpend : pending t = 1 := if_pos hphase
  refine ⟨?_, ?_, ?_⟩
  · unfold hopNext failNext
    rw [if_pos hfin, if_neg hfail, if_pos hfin]
    exact book_done h hne ⟨rfl, rfl, rfl⟩
  · rw [hsent]
    exact (done_probes opts t).trans (List.append_nil _).symm
  · rw [show pending (done opts t) = 0 from pending_head _ _]
    omega

theorem entry_recvFails (h : Book m n k t) (hphase : t.phase = .recv) (s : String) :
    Entry e ctx.ident m n k (.recvError false) t (retry opts t s) := by
  have hne := recv_ne_exit hphase
  have hpend : pending t = 1 := if_pos hphase
  have hbook : Book m n (k + 1) (retry opts t s) :=
    book_retry h hne ⟨rfl, rfl, rfl⟩ (by omega) s
  refine ⟨hbook, (retry_probes opts t s).trans (List.append_nil _).symm, ?_⟩
  rw [show pending (retry opts t s) = 0 from pending_head _ _]
  omega

theorem entry_received (h : Book m n k t) (hphase : t.phase = .recv) (d : Datagram) :
    Entry e ctx.ident m n k (.received d) t (afterRecv opts e ctx t d) := by
  have hne := recv_ne_exit hphase
  have hpend : pending t = 1 := if_pos hphase
  have hhop : hopNext e ctx.ident n (.received d) =
    if (recordedOf e ctx.ident (.received d)).isSome then n + 1 else n := rfl
  have hfail : failNext e ctx.ident k (.received d) =
    if (recordedOf e ctx.ident (.received d)).isSome then 0 else k := if_neg id
  have hskip : skipped e ctx.ident (.received d) =
    (recordedOf e ctx.ident (.received d)).isNone := rfl
  cases hrec : recordedOf e ctx.ident (.received d) with
  | none =>
    rw [hrec] at hhop hfail hskip
    have hskipped : skipped e ctx.ident (.received d) = true := hskip
    rw [afterRecv_none hrec]
    refine ⟨?_, (List.append_nil _).symm, ?_⟩
    · rw [hhop, hfail]
      exact h
    · rw [if_pos hskipped]
      omega
  | some d' =>
    obtain ⟨⟨hlong, hpass⟩, rfl⟩ := recordedOf_some.mp hrec
    rw [hrec] at hhop hfail
    have hnext : hopNext e ctx.ident n (.received d) = n + 1 := hhop
    have hzero : failNext e ctx.ident k (.received d) = 0 := hfail
    unfold afterRecv
    rw [if_pos hlong, if_pos hpass]
    dsimp only
    by_cases hreach : reached opts d = true
    · rw [if_pos hreach]
      obtain ⟨-, -, -, hle, hk⟩ := h.going hne
      have hsends := h.sends
      refine ⟨⟨?_, fun hx => absurd rfl hx, ?_, ?_⟩, (List.append_nil _).symm, ?_⟩
      · omega
      · rw [hnext, hzero]
        omega
      · rw [hnext, hzero]
        show t.probes.length + 10 ≤ 10 * (n + 1) + 0 + 0
        omega
      · show 1 + 0 ≤ _
        omega
    · rw [if_neg hreach]
      refine ⟨?_, (done_probes opts _).trans (List.append_nil _).symm, ?_⟩
      · rw [hnext, hzero]
        exact book_done h hne ⟨rfl, rfl, rfl⟩
      · rw [show pending (done opts _) = 0 from pending_head _ _]
        omega

/-- **One outcome.** -/
theorem book_step {o : Outcome} (h : Book m n k t) (hg : (traceroute e opts ctx).guard t o) :
    Entry e ctx.ident m n k o t (traceStep e opts ctx t o) := by
  cases o with
  | sent r => exact entry_sent h hg r
  | recvError again =>
    cases again with
    | true => exact entry_silent h hg rfl (fun hf => nomatch hf) rfl
    | false => exact entry_recvFails h hg _
  | recvNothing => exact entry_silent h hg rfl id rfl
  | received d => exact entry_received h hg.1 d

theorem book_start (opts : TracerouteOpts) (hm : 0 ≤ opts.maxHops) :
    Book opts.maxHops 1 0 (traceStart opts) ∧ (traceStart opts).probes = [] := by
  obtain ⟨httl, hprobes⟩ :=
    head_frame opts ⟨opts.maxHops, maxRetries, 1, ⟨0, []⟩, [], [], .send⟩
  obtain ⟨hhops, hretries, -, hexit⟩ :=
    head_spec opts ⟨opts.maxHops, maxRetries, 1, ⟨0, []⟩, [], [], .send⟩
  refine ⟨⟨le_refl 1, fun hne => ?_, by omega, ?_⟩, hprobes⟩
  · have hpos : ¬ opts.maxHops ≤ 0 := fun hz => mt hexit.mpr hne (Or.inl hz)
    refine ⟨httl, hhops.trans ?_, hretries, ?_, Nat.zero_le 9⟩
    · show opts.maxHops = _
      omega
    · omega
  · have hlen : (traceStart opts).probes.length = 0 := congrArg List.length hprobes
    omega

/-- What a run does to the books. -/
structure Books (e : Endian) (ident : Nat) (m : Int) (n k : Nat) (os : List Outcome)
    (t t' : Trace) : Prop where
  book : ∃ n', Book m n' (os.foldl (failNext e ident) k) t'
  probes : t'.probes = t.probes ++ (ttls e ident n os).map UInt8.ofNat
  time : os.length + pending t' ≤
    pending t + 2 * (ttls e ident n os).length + skips e ident os
  due : ∀ i ∈ ttls e ident n os, (i : Int) ≤ m

theorem hopNext_le (e : Endian) (ident n : Nat) (o : Outcome) : n ≤ hopNext e ident n o := by
  unfold hopNext
  split <;> omega

theorem mem_sentTtl {o : Outcome} {i : Nat} (h : i ∈ sentTtl n o) : i = n ∧ ∃ r, o = .sent r := by
  cases o with
  | sent r => exact ⟨List.mem_singleton.mp h, r, rfl⟩
  | recvError again => cases h
  | recvNothing => cases h
  | received d => cases h

theorem book_run {os : List Outcome} (h : Book m n k t)
    (hes : (traceroute e opts ctx).Legal t os) :
    Books e ctx.ident m n k os t ((traceroute e opts ctx).exec t os) := by
  induction os generalizing t n k with
  | nil =>
    exact ⟨⟨n, h⟩, (List.append_nil _).symm, by simp [ttls, skips]; rfl,
      fun i hi => nomatch hi⟩
  | cons o os ih =>
    have hentry : Entry e ctx.ident m n k o t (traceStep e opts ctx t o) := book_step h hes.1
    have htail := ih hentry.book hes.2
    have hskips : skips e ctx.ident (o :: os) =
        skips e ctx.ident os + if skipped e ctx.ident o then 1 else 0 := List.countP_cons
    refine ⟨htail.book, ?_, ?_, ?_⟩
    · refine htail.probes.trans ?_
      rw [hentry.probes, List.append_assoc, ← List.map_append]
      rfl
    · have hthis := hentry.time
      have hrest := htail.time
      show os.length + 1 + pending ((traceroute e opts ctx).exec (traceStep e opts ctx t o) os) ≤
        pending t + 2 * (sentTtl n o ++ ttls e ctx.ident (hopNext e ctx.ident n o) os).length +
          skips e ctx.ident (o :: os)
      rw [List.length_append, hskips]
      change os.length + pending ((traceroute e opts ctx).exec (traceStep e opts ctx t o) os) ≤ _
        at hrest
      omega
    · intro i hi
      rcases List.mem_append.mp hi with hi | hi
      · obtain ⟨rfl, r, rfl⟩ := mem_sentTtl hi
        have hphase : t.phase = .send := hes.1
        exact (h.going (by rw [hphase]; decide)).2.2.2.1
      · exact htail.due i hi

/-! ## Progress -/

theorem ttls_sorted (e : Endian) (ident n : Nat) (os : List Outcome) :
    (ttls e ident n os).Pairwise (· ≤ ·) ∧ ∀ i ∈ ttls e ident n os, n ≤ i := by
  induction os generalizing n with
  | nil => exact ⟨List.Pairwise.nil, fun i hi => nomatch hi⟩
  | cons o os ih =>
    obtain ⟨hsorted, hlow⟩ := ih (hopNext e ident n o)
    have hnext := hopNext_le e ident n o
    refine ⟨List.pairwise_append.mpr ⟨?_, hsorted, ?_⟩, ?_⟩
    · cases o <;> simp [sentTtl]
    · intro i hi j hj
      rw [(mem_sentTtl hi).1]
      exact hnext.trans (hlow j hj)
    · intro i hi
      rcases List.mem_append.mp hi with hi | hi
      · exact (mem_sentTtl hi).1.ge
      · exact hnext.trans (hlow i hi)

theorem sends_le (h : Book m n k t) : (t.probes.length : Int) ≤ 10 * m := by
  have hsends := h.sends
  have hleft := h.left
  by_cases hphase : t.phase = .exit
  · have hpend : pending t = 0 := if_neg (by rw [hphase]; decide)
    omega
  · have hpend := pending_le t
    obtain ⟨-, -, -, hle, hk⟩ := h.going hphase
    omega

/-- What the outcomes ask for is done where it fits in 8 bits. -/
theorem progress_of_fits (hm : 0 ≤ opts.maxHops) {os : List Outcome}
    (hes : (traceroute e opts ctx).Legal (traceStart opts) os)
    (hfits : ∀ i ∈ ttls e ctx.ident 1 os, i ≤ 255) : Progress e opts ctx os := by
  obtain ⟨hstart, hnil⟩ := book_start opts hm
  have hbooks : Books e ctx.ident opts.maxHops 1 0 os _ _ := book_run hstart hes
  obtain ⟨n, hbook⟩ := hbooks.book
  have hprobes := hbooks.probes
  rw [hnil, List.nil_append] at hprobes
  have hsends := sends_le hbook
  have hexact : ((traceroute e opts ctx).exec (traceStart opts) os).probes.map UInt8.toNat =
      ttls e ctx.ident 1 os := by
    rw [hprobes, List.map_map]
    refine (List.map_congr_left fun i hi => ?_).trans (List.map_id _)
    have hlt := hfits i hi
    exact (UInt8.toNat_ofNat' (n := i)).trans (Nat.mod_eq_of_lt (by omega))
  refine ⟨hexact, ?_, ?_, hsends, ?_, ?_, ?_⟩
  · rw [hexact]
    exact (ttls_sorted e ctx.ident 1 os).1
  · intro p hp
    have hmem := List.mem_map_of_mem (f := UInt8.toNat) hp
    rw [hexact] at hmem
    exact hbooks.due _ hmem
  · have htime := hbooks.time
    have hpend : pending (traceStart opts) = 0 := pending_head _ _
    have hlen := congrArg List.length hexact
    rw [List.length_map] at hlen
    omega
  · intro hten
    by_contra hphase
    have hk := (hbook.going hphase).2.2.2.2
    exact absurd hten (Nat.not_le.mpr (Nat.lt_succ_of_le hk))
  · cases hphase : ((traceroute e opts ctx).exec (traceStart opts) os).phase with
    | exit => exact Or.inl rfl
    | send => exact Or.inr ⟨.sent 0, hphase⟩
    | recv => exact Or.inr ⟨.recvNothing, hphase⟩

/-- **A run makes bounded and monotone progress** exactly if no probe should have a TTL above
    255, which is so when `max_hops` is at most 255. -/
theorem progress_iff (e : Endian) {opts : TracerouteOpts} (ctx : TracerouteCtx)
    (hm : 0 ≤ opts.maxHops) {os : List Outcome}
    (hes : (traceroute e opts ctx).Legal (traceStart opts) os) :
    Progress e opts ctx os ↔ ∀ i ∈ ttls e ctx.ident 1 os, i ≤ 255 := by
  refine ⟨fun h i hi => ?_, progress_of_fits hm hes⟩
  rw [← h.probes] at hi
  obtain ⟨p, -, rfl⟩ := List.mem_map.mp hi
  exact Nat.le_of_lt_succ p.toNat_lt

/-- With at most 255 hops every run makes progress. -/
theorem progress_of_maxHops (hm : 0 ≤ opts.maxHops ∧ opts.maxHops ≤ 255) {os : List Outcome}
    (hes : (traceroute e opts ctx).Legal (traceStart opts) os) : Progress e opts ctx os := by
  have hbooks : Books e ctx.ident opts.maxHops 1 0 os _ _ :=
    book_run (book_start opts hm.1).1 hes
  refine progress_of_fits hm.1 hes fun i hi => ?_
  have hdue := hbooks.due i hi
  omega

/-- The answer to the first probe. -/
theorem progress_iff_echoReply : Progress .big oneHop openCtx
    [.sent 48, .received echoReply] := by
  refine (progress_iff .big openCtx (by decide) ?_).mpr ?_
  · exact ⟨rfl, ⟨rfl, by decide, by decide⟩, trivial⟩
  · decide

/-- 256 hops, to 10.0.0.1, without output. -/
def manyHops : TracerouteOpts := ⟨⟨10, 0, 0, 1⟩, 256, 0⟩

/-- `k` probes that nobody answers. -/
def silence (k : Nat) : List Outcome := (List.replicate k [.sent 48, .recvError true]).flatten

theorem silence_succ (k : Nat) : silence (k + 1) = .sent 48 :: .recvError true :: silence k := rfl

theorem silence_run (hphase : t.phase = .send) {k : Nat} (hhops : (k : Int) < t.hops) :
    (traceroute e opts ctx).Legal t (silence k) ∧
      ((traceroute e opts ctx).exec t (silence k)).phase = .send := by
  induction k generalizing t with
  | zero => exact ⟨trivial, hphase⟩
  | succ k ih =>
    have hsent : afterSend opts t 48 =
        { t with probes := t.probes ++ [t.ttl], phase := .recv } := by
      unfold afterSend
      exact if_neg (by decide)
    obtain ⟨-, hleft, -, -, hexit⟩ := done_frame opts (afterSend opts t 48)
    have hhops' : (afterSend opts t 48).hops = t.hops := by rw [hsent]
    rw [hhops'] at hleft hexit
    have hgoes : (done opts (afterSend opts t 48)).phase = .send := by
      cases hp : (done opts (afterSend opts t 48)).phase with
      | send => rfl
      | recv => exact absurd hp (head_ne_recv _ _)
      | exit =>
        have hzero := hexit.mp hp
        omega
    obtain ⟨hes, hend⟩ := ih hgoes (by omega)
    rw [silence_succ]
    refine ⟨⟨hphase, ?_, hes⟩, hend⟩
    show (afterSend opts t 48).phase = .recv
    rw [hsent]

theorem ttls_silence (e : Endian) (ident n k : Nat) :
    n + k ∈ ttls e ident n (silence k ++ [.sent 48]) := by
  induction k generalizing n with
  | zero => exact List.mem_singleton.mpr rfl
  | succ k ih =>
    rw [silence_succ, show n + (k + 1) = n + 1 + k by omega]
    exact List.mem_append_right _ (ih (n + 1))

/-- The 256th probe has TTL 0. -/
theorem progress_wraps :
    (traceroute .big manyHops openCtx).Legal (traceStart manyHops)
        (silence 255 ++ [.sent 48]) ∧
      ¬ ∀ e opts ctx os, 0 ≤ opts.maxHops →
        (traceroute e opts ctx).Legal (traceStart opts) os → Progress e opts ctx os := by
  obtain ⟨hes, hend⟩ : (traceroute .big manyHops openCtx).Legal (traceStart manyHops)
      (silence 255) ∧ ((traceroute .big manyHops openCtx).exec (traceStart manyHops)
        (silence 255)).phase = .send := silence_run rfl (by decide)
  have hlegal := Guarded.legal_append hes
    (show (traceroute .big manyHops openCtx).Legal _ [.sent 48] from ⟨hend, trivial⟩)
  refine ⟨hlegal, fun hclaim => ?_⟩
  have hprobes := (hclaim .big manyHops openCtx _ (by decide) hlegal).probes
  have hmem := ttls_silence .big traceIdent 1 255
  rw [← show _ = ttls .big traceIdent 1 (silence 255 ++ [.sent 48]) from hprobes] at hmem
  obtain ⟨p, -, hp⟩ := List.mem_map.mp hmem
  have hlt := p.toNat_lt
  omega

end SsrlApps.MiscUtils
