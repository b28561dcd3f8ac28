/-
  `rtems_ping`: one value for a refused, a lossy and a successful run of pings.

  Model. `inet_addr` is a parameter: `dot` gives the address that a string stands for, or
  nothing; for nothing `inet_addr` returns INADDR_NONE. The outcomes of the single pings are
  a sequence, of which the loop takes as many as it needs. `int` wraps around at 32 bits,
  and a division by zero has no result.

  Proved:
  * `pingLoop_eq`: the do-while loop makes `pings retries` pings.
  * `countPings_eq`: what it has counted then.
  * `rtemsPing_contract_iff`: the contract of the return value holds, for all outcomes,
    exactly for the retries and strings that leave its three ranges apart.
-/
import SsrlApps.MiscUtils.Ping

namespace SsrlApps.MiscUtils

/-! ## The command -/

def inaddrAny : InAddr := ⟨0, 0, 0, 0⟩

def inaddrNone : InAddr := ⟨255, 255, 255, 255⟩

/-- `inet_addr`, where `dot` knows the valid strings. -/
def inetAddr (dot : String → Option InAddr) (s : String) : InAddr := (dot s).getD inaddrNone

def ntohl (x : InAddr) : Nat :=
  x.a.toNat * 2 ^ 24 + x.b.toNat * 2 ^ 16 + x.c.toNat * 2 ^ 8 + x.d.toNat

/-- What `rtems_ping_send` returned, and the trip time that it stored if that is 0. -/
structure PingOutcome where
  err : Int
  trip : UInt32

structure PingCount where
  errs : Int
  /-- `unsigned long long` -/
  atrip : Nat

/-- The body of the loop. -/
def countPing (t : PingCount) (o : PingOutcome) : PingCount :=
  if o.err ≠ 0 then { t with errs := wrapInt (t.errs + 1) }
  else { t with atrip := (t.atrip + o.trip.toNat) % 2 ^ 64 }

/-- The do-while loop, from the `i`-th ping on. -/
def pingLoop (o : Nat → PingOutcome) (i : Nat) (retries : Int) (t : PingCount) : PingCount :=
  if 0 ≤ wrapInt (retries - 1) then
    pingLoop o (i + 1) (wrapInt (retries - 1)) (countPing t (o i))
  else countPing t (o i)
termination_by if 0 ≤ retries ∧ retries < 2 ^ 31 then retries.toNat else 2 ^ 31
decreasing_by
  rename_i h
  unfold wrapInt at h ⊢
  split <;> split <;> omega

/-- `rtems_ping` -/
def rtemsPing (dot : String → Option InAddr) (e : Endian) (c : PingOpenCalls)
    (o : Nat → PingOutcome) (ipaddr : String) (nretries : Int) : Option Int :=
  let ipa := inetAddr dot ipaddr
  if ipa = inaddrAny then some (wrapInt (-wrapInt (nretries + 2)))
  else match rtemsPingOpen e (ntohl ipa) none c with
    | none => some (wrapInt (-wrapInt (nretries + 2)))
    | some _ =>
      let t := pingLoop o 0 nretries ⟨0, 0⟩
      -- the divisor is converted to `unsigned long long`
      let n := (wrapInt (nretries + 1) % 2 ^ 64).toNat
      if n = 0 then none
      else
        let atrip := t.atrip / n
        some (if t.errs ≠ 0 then wrapInt (-t.errs)
          else if atrip > 0x7fffffff then 0x7fffffff else atrip)

/-! ## The contract -/

/-- The string is the dot notation of a host's address. -/
def HostAddr (dot : String → Option InAddr) (s : String) : Prop :=
  ∃ a, dot s = some a ∧ a ≠ inaddrAny

/-- The number of pings that the loop makes. -/
def pings (retries : Int) : Nat := if retries = -2 ^ 31 then 2 ^ 31 + 1 else retries.toNat + 1

/-- How many of the first `m` pings failed. -/
def failed (o : Nat → PingOutcome) (m : Nat) : Nat :=
  (List.range m).countP fun i => decide ((o i).err ≠ 0)

/-- The trip times of the first `m` pings, those that failed left out. -/
def tripSum (o : Nat → PingOutcome) (m : Nat) : Nat :=
  ((List.range m).map fun i => if (o i).err ≠ 0 then 0 else (o i).trip.toNat).sum

/-- What the value `v` tells about a call with `n` retries. -/
structure PingContract (refused : Prop) (o : Nat → PingOutcome) (n v : Int) : Prop where
  refusal : v ≤ -(n + 2) ∧ v < 0 ↔ refused
  dropped : ∀ k : Nat, 1 ≤ k → (k : Int) ≤ n + 1 →
    (v = -k ↔ ¬ refused ∧ failed o (pings n) = k)
  answered : 0 ≤ v ↔ ¬ refused ∧ failed o (pings n) = 0
  average : 0 ≤ v → v = min (tripSum o (pings n) / pings n) 0x7fffffff

/-- There is no host to ping, or no ping to send. -/
def Refused (dot : String → Option InAddr) (e : Endian) (c : PingOpenCalls) (s : String) : Prop :=
  ¬ HostAddr dot s ∨ rtemsPingOpen e (ntohl (inetAddr dot s)) none c = none

/-! ## The loop -/

theorem pingLoop_last {o : Nat → PingOutcome} {i : Nat} {r : Int} {t : PingCount}
    (h : wrapInt (r - 1) < 0) : pingLoop o i r t = countPing t (o i) := by
  rw [pingLoop, if_neg (by omega)]

theorem pingLoop_more {o : Nat → PingOutcome} {i : Nat} {r : Int} {t : PingCount}
    (h : 0 ≤ wrapInt (r - 1)) :
    pingLoop o i r t = pingLoop o (i + 1) (wrapInt (r - 1)) (countPing t (o i)) := by
  rw [pingLoop, if_pos h]

/-- From the `i`-th ping on, `m` of them. -/
def countPings (o : Nat → PingOutcome) (i m : Nat) (t : PingCount) : PingCount :=
  (List.range' i m).foldl (fun t j => countPing t (o j)) t

theorem countPings_first (o : Nat → PingOutcome) (i m : Nat) (t : PingCount) :
    countPings o i (m + 1) t = countPings o (i + 1) m (countPing t (o i)) := rfl

theorem pingLoop_nat (o : Nat → PingOutcome) (i m : Nat) (t : PingCount) (hm : m < 2 ^ 31) :
    pingLoop o i m t = countPings o i (m + 1) t := by
  induction m generalizing i t with
  | zero => exact pingLoop_last (by decide)
  | succ m ih =>
    have hpred : wrapInt (((m + 1 : Nat) : Int) - 1) = m := by
      rw [wrapInt_eq (by omega)]
      omega
    rw [pingLoop_more (by omega), hpred, ih (i + 1) _ (by omega)]
    rfl

/-- The do-while loop makes `pings retries` pings, also where `--retries` wraps around. -/
theorem pingLoop_eq (o : Nat → PingOutcome) {n : Int} (hn : -2 ^ 31 ≤ n ∧ n < 2 ^ 31)
    (t : PingCount) : pingLoop o 0 n t = countPings o 0 (pings n) t := by
  unfold pings
  by_cases hmin : n = -2 ^ 31
  · have hmax : wrapInt (n - 1) = ((2 ^ 31 - 1 : Nat) : Int) := by
      subst hmin
      decide
    rw [if_pos hmin, pingLoop_more (by omega), hmax, pingLoop_nat _ _ _ _ (by decide)]
    exact (countPings_first o 0 (2 ^ 31 - 1 + 1) t).symm
  · rw [if_neg hmin]
    by_cases hneg : n < 0
    · have hzero : n.toNat = 0 := by omega
      rw [pingLoop_last (by rw [wrapInt_eq (by omega)]; omega), hzero]
      rfl
    · have hnat : n = (n.toNat : Int) := by omega
      rw [hnat, pingLoop_nat _ _ _ _ (by omega), Int.toNat_natCast]

theorem countPings_last (o : Nat → PingOutcome) (m : Nat) (t : PingCount) :
    countPings o 0 (m + 1) t = countPing (countPings o 0 m t) (o m) := by
  unfold countPings
  rw [List.range'_concat, List.foldl_append]
  simp

theorem failed_succ (o : Nat → PingOutcome) (m : Nat) :
    failed o (m + 1) = failed o m + if (o m).err ≠ 0 then 1 else 0 := by
  unfold failed
  rw [List.range_succ, List.countP_append, List.countP_singleton]
  simp only [decide_eq_true_eq]

theorem tripSum_succ (o : Nat → PingOutcome) (m : Nat) :
    tripSum o (m + 1) = tripSum o m + if (o m).err ≠ 0 then 0 else (o m).trip.toNat := by
  unfold tripSum
  rw [List.range_succ, List.map_append, List.sum_append]
  simp

/-- What the loop has counted, if the number of failures is an `int`. -/
theorem countPings_eq (o : Nat → PingOutcome) {m : Nat} (hm : m ≤ 2 ^ 31 + 1)
    (hfailed : failed o m < 2 ^ 31) :
    countPings o 0 m ⟨0, 0⟩ = ⟨failed o m, tripSum o m⟩ ∧ tripSum o m ≤ m * 2 ^ 32 := by
  induction m with
  | zero => exact ⟨rfl, Nat.zero_le _⟩
  | succ m ih =>
    have hstep := failed_succ o m
    have hsum := tripSum_succ o m
    have htrip : (o m).trip.toNat < 2 ^ 32 := (o m).trip.toNat_lt
    obtain ⟨hcount, hbound⟩ := ih (by omega) (by omega)
    rw [countPings_last, hcount]
    unfold countPing
    dsimp only
    by_cases hfail : (o m).err ≠ 0
    · rw [if_pos hfail] at hstep hsum ⊢
      refine ⟨?_, by omega⟩
      rw [wrapInt_eq (by omega), hstep, hsum]
      rfl
    · rw [if_neg hfail] at hstep hsum ⊢
      refine ⟨?_, by omega⟩
      rw [hstep, hsum, Nat.mod_eq_of_lt (by omega)]
      rfl

/-! ## The value returned -/

section Value

variable {dot : String → Option InAddr} {e : Endian} {c : PingOpenCalls} {s : String}
  {o : Nat → PingOutcome} {n : Int}

/-- Both refusals return the same. -/
theorem rtemsPing_refused (h : inetAddr dot s = inaddrAny ∨
    rtemsPingOpen e (ntohl (inetAddr dot s)) none c = none) :
    rtemsPing dot e c o s n = some (wrapInt (-wrapInt (n + 2))) := by
  unfold rtemsPing
  dsimp only
  by_cases hany : inetAddr dot s = inaddrAny
  · exact if_pos hany
  · rw [if_neg hany, h.resolve_left hany]

/-- An opened ping of any number of retries but -1. -/
theorem rtemsPing_opened (hany : inetAddr dot s ≠ inaddrAny)
    (hopen : rtemsPingOpen e (ntohl (inetAddr dot s)) none c ≠ none)
    (hn : -2 ^ 31 ≤ n ∧ n < 2 ^ 31) (hdiv : n ≠ -1) (hfailed : failed o (pings n) < 2 ^ 31) :
    rtemsPing dot e c o s n = some (if failed o (pings n) ≠ 0 then -(failed o (pings n) : Int)
      else (min (tripSum o (pings n) / (wrapInt (n + 1) % 2 ^ 64).toNat) 0x7fffffff : Nat)) := by
  have hpings : pings n ≤ 2 ^ 31 + 1 := by
    unfold pings
    split <;> omega
  have hcount := (countPings_eq o hpings hfailed).1
  have hnonzero : (wrapInt (n + 1) % 2 ^ 64).toNat ≠ 0 := by
    unfold wrapInt
    omega
  obtain ⟨ping, hping⟩ := Option.ne_none_iff_exists'.mp hopen
  unfold rtemsPing
  dsimp only
  rw [if_neg hany, hping]
  dsimp only
  rw [pingLoop_eq o hn, hcount, if_neg hnonzero]
  dsimp only
  generalize tripSum o (pings n) / (wrapInt (n + 1) % 2 ^ 64).toNat = avg
  congr 1
  by_cases hzero : failed o (pings n) = 0
  · have hcast : ¬ (failed o (pings n) : Int) ≠ 0 := by omega
    rw [if_neg hcast, if_neg (not_not_intro hzero)]
    split <;> omega
  · have hcast : (failed o (pings n) : Int) ≠ 0 := by omega
    rw [if_pos hcast, if_pos hzero, wrapInt_eq (by omega)]

/-- With -1 retries an opened ping divides by zero. -/
theorem rtemsPing_div (hany : inetAddr dot s ≠ inaddrAny)
    (hopen : rtemsPingOpen e (ntohl (inetAddr dot s)) none c ≠ none) :
    rtemsPing dot e c o s (-1) = none := by
  obtain ⟨ping, hping⟩ := Option.ne_none_iff_exists'.mp hopen
  unfold rtemsPing
  dsimp only
  rw [if_neg hany, hping]
  exact if_pos (by decide)

theorem refusal_value (h : -1 ≤ n ∧ n < 2 ^ 31 - 1) : wrapInt (-wrapInt (n + 2)) = -(n + 2) := by
  unfold wrapInt
  omega

theorem failed_le (o : Nat → PingOutcome) (m : Nat) : failed o m ≤ m :=
  List.countP_le_length.trans_eq List.length_range

theorem pings_nat (h : 0 ≤ n) : (pings n : Int) = n + 1 := by
  unfold pings
  rw [if_neg (by omega)]
  omega

/-! ## When the contract holds -/

/-- The refusals that the code knows of. -/
def Detected (dot : String → Option InAddr) (e : Endian) (c : PingOpenCalls) (s : String) : Prop :=
  inetAddr dot s = inaddrAny ∨ rtemsPingOpen e (ntohl (inetAddr dot s)) none c = none

theorem Detected.refused (h : Detected dot e c s) : Refused dot e c s := by
  refine h.imp_left fun hany => ?_
  rintro ⟨a, ha, hne⟩
  unfold inetAddr at hany
  rw [ha] at hany
  exact hne hany

/-- What the code detects, it reports. -/
theorem contract_detected (h : Detected dot e c s) (hn : -1 ≤ n ∧ n < 2 ^ 31 - 1) :
    ∃ v, rtemsPing dot e c o s n = some v ∧ PingContract (Refused dot e c s) o n v := by
  refine ⟨-(n + 2), (rtemsPing_refused h).trans (congrArg some (refusal_value hn)), ?_⟩
  exact ⟨iff_of_true ⟨le_refl _, by omega⟩ h.refused,
    fun k _ hk => iff_of_false (by omega) (fun hno => hno.1 h.refused),
    iff_of_false (by omega) (fun hno => hno.1 h.refused), fun hv => by omega⟩

/-- The value of pings to a host tells failures from trip times. -/
theorem contract_host (hhost : HostAddr dot s) (hd : ¬ Detected dot e c s)
    (hn : 0 ≤ n ∧ n < 2 ^ 31 - 1) :
    ∃ v, rtemsPing dot e c o s n = some v ∧ PingContract (Refused dot e c s) o n v := by
  have hok : ¬ Refused dot e c s := by
    rintro (hno | hnone)
    · exact hno hhost
    · exact hd (Or.inr hnone)
  have hpings := pings_nat hn.1
  have hle := failed_le o (pings n)
  have hdiv : (wrapInt (n + 1) % 2 ^ 64).toNat = pings n := by
    rw [wrapInt_eq (by omega)]
    omega
  have hval := rtemsPing_opened (o := o) (n := n) (fun hany => hd (Or.inl hany))
    (fun hnone => hd (Or.inr hnone)) ⟨by omega, by omega⟩ (by omega) (by omega)
  rw [hdiv] at hval
  refine ⟨_, hval, ?_⟩
  by_cases hzero : failed o (pings n) = 0
  · rw [if_neg (not_not_intro hzero)]
    have hpos := Int.natCast_nonneg (min (tripSum o (pings n) / pings n) 0x7fffffff)
    exact ⟨iff_of_false (fun h => absurd h.2 (Int.not_lt.mpr hpos)) hok,
      fun k hk _ => iff_of_false (fun h => by rw [h] at hpos; omega) (fun h => by omega),
      iff_of_true hpos ⟨hok, hzero⟩, fun _ => rfl⟩
  · rw [if_pos hzero]
    exact ⟨iff_of_false (by omega) hok,
      fun k _ _ => ⟨fun h => ⟨hok, by omega⟩, fun h => by omega⟩,
      iff_of_false (by omega) (fun h => hzero h.2), fun h => by omega⟩

/-! ## When it fails -/

theorem failed_none (m t : Nat) : failed (fun _ => ⟨0, UInt32.ofNat t⟩) m = 0 := by
  simp [failed]

theorem tripSum_ones (m : Nat) : tripSum (fun _ => ⟨0, 1⟩) m = m := by
  simp [tripSum, List.map_const']

/-- Only the first ping fails. -/
def firstFails (i : Nat) : PingOutcome := if i = 0 then ⟨116, 0⟩ else ⟨0, 0⟩

theorem failed_first (m : Nat) : failed firstFails (m + 1) = 1 := by
  induction m with
  | zero => decide
  | succ m ih => rw [failed_succ, ih, if_neg (by simp [firstFails])]

/-- What is kept for all outcomes is kept for these. -/
theorem detected_of_contract (hn : -2 ^ 31 ≤ n ∧ n < 2 ^ 31)
    (h : ∀ o, ∃ v, rtemsPing dot e c o s n = some v ∧ PingContract (Refused dot e c s) o n v)
    (hd : Detected dot e c s) : -1 ≤ n ∧ n < 2 ^ 31 - 1 := by
  obtain ⟨v, hv, hcontract⟩ := h firstFails
  obtain rfl := Option.some.inj ((rtemsPing_refused hd).symm.trans hv)
  have hrefusal := hcontract.refusal.mpr hd.refused
  unfold wrapInt at hrefusal
  omega

theorem host_of_contract (hn : -2 ^ 31 ≤ n ∧ n < 2 ^ 31)
    (h : ∀ o, ∃ v, rtemsPing dot e c o s n = some v ∧ PingContract (Refused dot e c s) o n v)
    (hd : ¬ Detected dot e c s) : (0 ≤ n ∧ n < 2 ^ 31 - 1) ∧ HostAddr dot s := by
  have hany : inetAddr dot s ≠ inaddrAny := fun hany => hd (Or.inl hany)
  have hopen : rtemsPingOpen e (ntohl (inetAddr dot s)) none c ≠ none :=
    fun hnone => hd (Or.inr hnone)
  have hdiv : n ≠ -1 := by
    rintro rfl
    obtain ⟨v, hv, -⟩ := h firstFails
    rw [rtemsPing_div hany hopen] at hv
    cases hv
  -- all pings succeed
  have hgood : failed (fun _ => ⟨0, 1⟩) (pings n) = 0 := failed_none _ 1
  obtain ⟨v, hv, hcontract⟩ := h fun _ => ⟨0, 1⟩
  rw [rtemsPing_opened hany hopen hn hdiv (by omega), if_neg (not_not_intro hgood),
    tripSum_ones] at hv
  have hhost : HostAddr dot s := by
    by_contra hno
    have hneg := (hcontract.refusal.mpr (Or.inl hno)).2
    rw [← Option.some.inj hv] at hneg
    exact absurd hneg (Int.not_lt.mpr (Int.natCast_nonneg _))
  have hok : ¬ Refused dot e c s := by
    rintro (hno | hnone)
    · exact hno hhost
    · exact hopen hnone
  refine ⟨⟨?_, ?_⟩, hhost⟩
  · -- with one failure among them, the value is -1
    by_contra hneg
    obtain ⟨v', hv', hcontract'⟩ := h firstFails
    have hone : failed firstFails (pings n) = 1 := by
      unfold pings
      split
      · exact failed_first (2 ^ 31)
      · exact failed_first _
    rw [rtemsPing_opened hany hopen hn hdiv (by omega), hone] at hv'
    obtain rfl := Option.some.inj hv'
    refine hok (hcontract'.refusal.mp ?_)
    rw [if_pos Nat.one_ne_zero]
    omega
  · -- with the most retries, the average of trips of 1 microsecond is 0
    by_contra hmax
    obtain rfl : n = 2 ^ 31 - 1 := by omega
    have hpos : 0 ≤ v := by
      rw [← Option.some.inj hv]
      exact Int.natCast_nonneg _
    have havg := hcontract.average hpos
    rw [← Option.some.inj hv, tripSum_ones] at havg
    exact absurd havg (by decide)

/-- **The return value keeps its three ranges apart**, whatever the pings do, exactly if
    `retries` is at least -1 and below the largest `int`, and either the call is refused by
    the tests of the code or it is about a host and has no negative retries. -/
theorem rtemsPing_contract_iff (dot : String → Option InAddr) (e : Endian) (c : PingOpenCalls)
    (s : String) {n : Int} (hn : -2 ^ 31 ≤ n ∧ n < 2 ^ 31) :
    (∀ o, ∃ v, rtemsPing dot e c o s n = some v ∧ PingContract (Refused dot e c s) o n v) ↔
      (-1 ≤ n ∧ n < 2 ^ 31 - 1) ∧ (Detected dot e c s ∨ 0 ≤ n ∧ HostAddr dot s) := by
  by_cases hd : Detected dot e c s
  · refine ⟨fun h => ⟨detected_of_contract hn h hd, Or.inl hd⟩, fun h o => ?_⟩
    exact contract_detected hd h.1
  · constructor
    · intro h
      obtain ⟨hrange, hhost⟩ := host_of_contract hn h hd
      exact ⟨⟨by omega, hrange.2⟩, Or.inr ⟨hrange.1, hhost⟩⟩
    · rintro ⟨hrange, hdet | ⟨hpos, hhost⟩⟩ o
      · exact absurd hdet hd
      · exact contract_host hhost hd ⟨hpos, hrange.2⟩

end Value

/-- Knows one host. -/
def dotOne (s : String) : Option InAddr := if s = "10.0.0.1" then some ⟨10, 0, 0, 1⟩ else none

/-- With memory and a socket. -/
def pingOpens : PingOpenCalls := ⟨some 0x10000, true, true, 0, 5⟩

/-- Three pings of that host, of which the first fails. -/
theorem rtemsPing_contract_iff_one :
    ∃ v, rtemsPing dotOne .big pingOpens firstFails "10.0.0.1" 2 = some v ∧
      PingContract (Refused dotOne .big pingOpens "10.0.0.1") firstFails 2 v :=
  (rtemsPing_contract_iff dotOne .big pingOpens "10.0.0.1" (n := 2) (by decide)).mpr
    ⟨by decide, Or.inr ⟨by decide, ⟨10, 0, 0, 1⟩, by decide, by decide⟩⟩ firstFails

/-- What is no address is pinged at 255.255.255.255. -/
theorem rtemsPing_invalid :
    dotOne "10.0.0.256" = none ∧
      rtemsPing dotOne .big pingOpens (fun _ => ⟨0, 5⟩) "10.0.0.256" 0 = some 5 ∧
      ¬ ∀ dot e c s n o, -2 ^ 31 ≤ n ∧ n < 2 ^ 31 →
        ∃ v, rtemsPing dot e c o s n = some v ∧ PingContract (Refused dot e c s) o n v := by
  have hval : rtemsPing dotOne .big pingOpens (fun _ => ⟨0, 5⟩) "10.0.0.256" 0 = some 5 :=
    (rtemsPing_opened (by decide) (by simp [rtemsPingOpen, pingOpens]) (by decide) (by decide)
      (by decide)).trans (by decide)
  refine ⟨by decide, hval, fun hclaim => ?_⟩
  obtain ⟨v, hv, hcontract⟩ :=
    hclaim dotOne .big pingOpens "10.0.0.256" 0 (fun _ => ⟨0, 5⟩) (by decide)
  obtain rfl := Option.some.inj (hval.symm.trans hv)
  have hno : ¬ HostAddr dotOne "10.0.0.256" := by
    rintro ⟨a, ha, -⟩
    cases ha
  exact absurd (hcontract.refusal.mpr (Or.inl hno)).2 (by decide)

end SsrlApps.MiscUtils
