/-
  The deadline of `rtems_ping_send`, in ticks of a 32-bit clock.

  Model. Time since sending is counted modulo 2^32 (`elapsed`); the timeout in ticks is a
  number (`PingCall.ticks`), which the code computes modulo 2^32. What a call owes
  (`KeepsTime`) is about the time of its last look at the clock, and about every timeout
  that it sets for the socket.

  Proved:
  * `ticksToTimeval_gap`, `ticksToTimeval_pos`: the time that is set for a number of ticks.
  * `WaitOk.notLess`, `WaitOk.exact`: how far it is below the time that is left.
  * `headOk_start`, `headOk_iff`: when the head of the loop judges the time rightly.
  * `keepsTime_iff`: a call keeps time exactly if no product or sum of it wraps, no foreign
    datagram comes when the clock has wrapped since sending, and no wait is shorter than a
    second at more than a million ticks per second.
-/
import Mathlib.Tactic.Ring
import SsrlApps.MiscUtils.Ping

namespace SsrlApps.MiscUtils

/-! ## What a call owes -/

/-- The ticks from `send` to `now`. -/
def elapsed (send now : Nat) : Nat := (now + 2 ^ 32 - send) % 2 ^ 32

/-- The timeout in ticks. -/
def PingCall.ticks (c : PingCall) : Nat :=
  c.ping.timeout.sec * c.tps + c.ping.timeout.usec * c.tps / 1000000

/-- Microseconds -/
def Timeval.us (tv : Timeval) : Nat := tv.sec * 1000000 + tv.usec

/-- `n` ticks, with a whole number of microseconds for each. -/
def ticksToTimeval (tps n : Nat) : Timeval := ⟨n / tps, n % tps * (1000000 / tps)⟩

/-- The timeout `tv`, set at the time `now`, is for the ticks that are left then. -/
structure WaitOk (c : PingCall) (now ticks : Nat) (tv : Timeval) : Prop where
  pending : elapsed c.sendTime now < c.ticks
  remaining : ticks = c.ticks - elapsed c.sendTime now
  corresponds : tv = ticksToTimeval c.tps ticks
  notMore : tv.us * c.tps ≤ ticks * 1000000
  notZero : 0 < tv.us

/-- Every timeout that was set is right. -/
def WaitsOk (c : PingCall) (acts : List PingAct) : Prop :=
  ∀ now ticks tv, PingAct.rcvTimeo now ticks tv ∈ acts → WaitOk c now ticks tv

/-- The last time that the code knows of. -/
def lastReading : Nat → List PingEvent → Nat
  | t, [] => t
  | _, .received _ now :: evs => lastReading now evs
  | t, _ :: evs => lastReading t evs

/-- The call gave up in time, and set the right timeouts. -/
structure KeepsTime (c : PingCall) (t : Nat) (evs : List PingEvent) (l : PingLoop) : Prop where
  late : l.retval = some etimedout → PingEvent.recvFails ∉ evs →
    c.ticks ≤ elapsed c.sendTime (lastReading t evs)
  waits : WaitsOk c l.acts

/-! ## What must not go wrong -/

/-- No foreign datagram comes before the time of sending, as the clock shows it, or, with
    more than a million ticks per second, less than a second before the deadline. -/
def InTime (e : Endian) (c : PingCall) : Bytes → List PingEvent → Prop
  | _, [] => True
  | m, .received d now :: evs =>
    (isReply e c.ping (responseImage c.ping m d) d.sender = false → c.sendTime ≤ now ∧
      (c.tps ≤ 1000000 ∨ c.sendTime + c.ticks ≤ now ∨ c.tps ≤ c.sendTime + c.ticks - now)) ∧
    InTime e c (responseImage c.ping m d) evs
  | m, _ :: evs => InTime e c m evs

/-- Neither the product for the microseconds nor the deadline wraps, and the first wait is
    not too short for the tick rate. -/
structure NoWrap (c : PingCall) : Prop where
  product : c.ping.timeout.usec * c.tps < 2 ^ 32
  deadline : c.sendTime + c.ticks < 2 ^ 32
  rate : c.tps ≤ 1000000 ∨ c.ticks = 0 ∨ c.tps ≤ c.ticks

/-! ## Timeouts -/

/-- What the conversion loses, in microseconds times `tps`. -/
theorem ticksToTimeval_gap (tps n : Nat) :
    (ticksToTimeval tps n).us * tps + n % tps * (1000000 % tps) = n * 1000000 := by
  have hrate : 1000000 / tps * tps + 1000000 % tps = 1000000 := Nat.div_add_mod' _ _
  calc (ticksToTimeval tps n).us * tps + n % tps * (1000000 % tps)
      = n / tps * tps * 1000000 + n % tps * (1000000 / tps * tps + 1000000 % tps) := by
        simp only [ticksToTimeval, Timeval.us]
        ring
    _ = n * 1000000 := by
        rw [hrate, ← Nat.add_mul, Nat.div_add_mod']

theorem ticksToTimeval_le (tps n : Nat) : (ticksToTimeval tps n).us * tps ≤ n * 1000000 := by
  rw [← ticksToTimeval_gap tps n]
  exact Nat.le_add_right _ _

theorem ticksToTimeval_pos {tps n : Nat} (htps : 0 < tps) (hn : 0 < n) :
    0 < (ticksToTimeval tps n).us ↔ tps ≤ 1000000 ∨ tps ≤ n := by
  have hus : (ticksToTimeval tps n).us = n / tps * 1000000 + n % tps * (1000000 / tps) := rfl
  rw [hus]
  by_cases hlong : tps ≤ n
  · have hsec : 0 < n / tps := Nat.div_pos hlong htps
    exact iff_of_true (by omega) (Or.inr hlong)
  · have hlt : n < tps := Nat.not_le.mp hlong
    rw [Nat.div_eq_of_lt hlt, Nat.mod_eq_of_lt hlt, Nat.zero_mul, Nat.zero_add,
      Nat.mul_pos_iff_of_pos_left hn, Nat.div_pos_iff]
    omega

/-- The time that is set is at most `1000000 % tps` microseconds below the time that is left. -/
theorem WaitOk.notLess {c : PingCall} {now ticks : Nat} {tv : Timeval} (h : WaitOk c now ticks tv)
    (htps : 0 < c.tps) : ticks * 1000000 ≤ (tv.us + 1000000 % c.tps) * c.tps := by
  have hmod : ticks % c.tps ≤ c.tps := (Nat.mod_lt ticks htps).le
  rw [h.corresponds, ← ticksToTimeval_gap c.tps ticks, Nat.add_mul, Nat.mul_comm (1000000 % c.tps)]
  exact Nat.add_le_add_left (Nat.mul_le_mul_right _ hmod) _

/-- A rate that divides a million loses nothing. -/
theorem WaitOk.exact {c : PingCall} {now ticks : Nat} {tv : Timeval} (h : WaitOk c now ticks tv)
    (htps : c.tps ∣ 1000000) : tv.us * c.tps = ticks * 1000000 := by
  rw [h.corresponds, ← ticksToTimeval_gap c.tps ticks, Nat.mod_eq_zero_of_dvd htps, Nat.mul_zero,
    Nat.add_zero]

/-! ## The head of the loop -/

/-- At the time `now` the head of the loop does what it should. -/
structure HeadOk (c : PingCall) (now : Nat) : Prop where
  late : c.timeout ≤ now → c.ticks ≤ elapsed c.sendTime now
  wait : now < c.timeout →
    WaitOk c now (c.timeout - now) (ticksToTimeval c.tps (c.timeout - now))

/-- What the caller is promised by the types. -/
structure InRange (c : PingCall) : Prop where
  rate : 0 < c.tps
  send : c.sendTime < 2 ^ 32
  ticks : c.ticks < 2 ^ 31

variable {e : Endian} {c : PingCall}

theorem waitOk_iff {now ticks : Nat} (hr : InRange c) (hpos : 0 < ticks) :
    WaitOk c now ticks (ticksToTimeval c.tps ticks) ↔
      elapsed c.sendTime now < c.ticks ∧ ticks = c.ticks - elapsed c.sendTime now ∧
        (c.tps ≤ 1000000 ∨ c.tps ≤ ticks) := by
  constructor
  · intro h
    exact ⟨h.pending, h.remaining, (ticksToTimeval_pos hr.rate hpos).mp h.notZero⟩
  · rintro ⟨hpending, hremaining, hrate⟩
    exact ⟨hpending, hremaining, rfl, ticksToTimeval_le _ _,
      (ticksToTimeval_pos hr.rate hpos).mpr hrate⟩

theorem elapsed_self (t : Nat) : elapsed t t = 0 := by
  unfold elapsed
  omega

/-- Without a wrap the code's deadline is the real one. -/
theorem timeout_eq (hw : NoWrap c) : c.timeout = c.sendTime + c.ticks := by
  have hprod := hw.product
  have hsum := hw.deadline
  have hticks : c.ticks = c.ping.timeout.sec * c.tps + c.ping.timeout.usec * c.tps / 1000000 :=
    rfl
  unfold PingCall.timeout
  omega

/-- At the time of sending, the deadline is judged rightly only if nothing wraps. -/
theorem headOk_start (hr : InRange c) : HeadOk c c.sendTime ↔ NoWrap c := by
  have hticks : c.ticks = c.ping.timeout.sec * c.tps + c.ping.timeout.usec * c.tps / 1000000 :=
    rfl
  have hlt := hr.ticks
  have hsend := hr.send
  constructor
  · intro h
    by_cases hle : c.timeout ≤ c.sendTime
    · have hzero := h.late hle
      rw [elapsed_self] at hzero
      exact ⟨by omega, by omega, Or.inr (Or.inl (by omega))⟩
    · have hgt : c.sendTime < c.timeout := Nat.not_le.mp hle
      obtain ⟨hpending, hremaining, hrate⟩ := (waitOk_iff hr (by omega)).mp (h.wait hgt)
      rw [elapsed_self] at hpending hremaining
      have htimeout : c.timeout = (c.sendTime + c.ping.timeout.sec * c.tps % 2 ^ 32 +
        c.ping.timeout.usec * c.tps % 2 ^ 32 / 1000000) % 2 ^ 32 := rfl
      refine ⟨?_, by omega, by omega⟩
      -- a product that wraps brings the deadline forward
      omega
  · intro hw
    have heq := timeout_eq hw
    refine ⟨fun hle => by omega, fun hgt => (waitOk_iff hr (by omega)).mpr ?_⟩
    rw [elapsed_self, heq]
    have hrate := hw.rate
    exact ⟨by omega, by omega, by omega⟩

theorem headOk_iff (hr : InRange c) (hw : NoWrap c) {now : Nat} (hnow : now < 2 ^ 32) :
    HeadOk c now ↔ c.sendTime ≤ now ∧ (c.tps ≤ 1000000 ∨ c.sendTime + c.ticks ≤ now ∨
      c.tps ≤ c.sendTime + c.ticks - now) := by
  have heq := timeout_eq hw
  have hsum := hw.deadline
  by_cases hle : c.sendTime ≤ now
  · have hel : elapsed c.sendTime now = now - c.sendTime := by
      unfold elapsed
      omega
    constructor
    · intro h
      refine ⟨hle, ?_⟩
      by_cases hlate : c.sendTime + c.ticks ≤ now
      · exact Or.inr (Or.inl hlate)
      · have hrate := ((waitOk_iff hr (by omega)).mp (h.wait (by omega))).2.2
        rw [heq] at hrate
        exact hrate.imp_right Or.inr
    · rintro ⟨-, hrate⟩
      refine ⟨fun hlate => by omega, fun hwait => (waitOk_iff hr (by omega)).mpr ?_⟩
      rw [hel, heq]
      exact ⟨by omega, by omega, by omega⟩
  · -- the clock has wrapped, so the deadline is over, but the code waits on
    have hel : elapsed c.sendTime now = now + 2 ^ 32 - c.sendTime := by
      unfold elapsed
      omega
    refine iff_of_false (fun h => ?_) (fun h => hle h.1)
    have hpending := (h.wait (by omega)).pending
    omega

/-! ## The record of a run -/

theorem waitsOk_append {xs ys : List PingAct} :
    WaitsOk c (xs ++ ys) ↔ WaitsOk c xs ∧ WaitsOk c ys := by
  constructor
  · intro h
    exact ⟨fun now ticks tv hmem => h now ticks tv (List.mem_append_left _ hmem),
      fun now ticks tv hmem => h now ticks tv (List.mem_append_right _ hmem)⟩
  · rintro ⟨hx, hy⟩ now ticks tv hmem
    exact (List.mem_append.mp hmem).elim (hx now ticks tv) (hy now ticks tv)

theorem waitsOk_one {now ticks : Nat} {tv : Timeval} :
    WaitsOk c [.rcvTimeo now ticks tv] ↔ WaitOk c now ticks tv := by
  constructor
  · intro h
    exact h now ticks tv (List.mem_singleton.mpr rfl)
  · intro h now' ticks' tv' hmem
    obtain ⟨rfl, rfl, rfl⟩ := PingAct.rcvTimeo.inj (List.mem_singleton.mp hmem)
    exact h

/-- Accesses set no timeout. -/
def IsAccess : PingAct → Prop
  | .read _ _ _ | .write _ _ _ => True
  | _ => False

theorem waitsOk_access {xs : List PingAct} (h : ∀ a ∈ xs, IsAccess a) : WaitsOk c xs :=
  fun _ _ _ hmem => (h _ hmem).elim

theorem isReplyActs_access (e : Endian) (ping : RtemsPing) (m : Bytes) :
    ∀ a ∈ isReplyActs e ping m, IsAccess a := by
  unfold isReplyActs
  split
  · split <;> simp [IsAccess]
  · simp [IsAccess]

theorem requestActs_access (ping : RtemsPing) : ∀ a ∈ requestActs ping, IsAccess a := by
  unfold requestActs cksumActs
  split <;> simp [IsAccess]

theorem waitsOk_store {l : PingLoop} {d : Packet} {now : Nat} :
    WaitsOk c (storeResponse e c l d now).acts ↔ WaitsOk c l.acts := by
  unfold storeResponse
  dsimp only
  rw [waitsOk_append, waitsOk_append]
  refine ⟨fun h => h.1.1, fun h => ⟨⟨h, waitsOk_access ?_⟩, waitsOk_access ?_⟩⟩
  · simp [IsAccess]
  · exact isReplyActs_access e c.ping _

/-- What is on record stays there. -/
theorem acts_kept {l : PingLoop} {evs : List PingEvent} (hes : (pingWait e c).Legal l evs)
    {a : PingAct} (ha : a ∈ l.acts) : a ∈ ((pingWait e c).exec l evs).acts := by
  refine Guarded.invariant (I := fun l => a ∈ l.acts) ?_ ha hes
  intro l ev ha _
  show a ∈ (pingTurn e c l ev).acts
  unfold pingTurn pingHead storeResponse
  split
  · exact ha
  · exact List.mem_append_left _ ha
  · dsimp only
    split
    · simp [ha]
    · split <;> simp [ha]

/-! ## Runs -/

theorem headOk_late {now : Nat} (h : c.timeout ≤ now) :
    HeadOk c now ↔ c.ticks ≤ elapsed c.sendTime now :=
  ⟨fun hok => hok.late h, fun hlate => ⟨fun _ => hlate, fun hlt => absurd h (Nat.not_le.mpr hlt)⟩⟩

theorem headOk_wait {now : Nat} (h : now < c.timeout) : HeadOk c now ↔
    WaitOk c now (c.timeout - now) (ticksToTimeval c.tps (c.timeout - now)) :=
  ⟨fun hok => hok.wait h, fun hwait => ⟨fun hle => absurd h (Nat.not_lt.mpr hle), fun _ => hwait⟩⟩

/-- The head of the loop, as it is found at the time `t`, and the events behind it. -/
theorem keeps_head {l : PingLoop} {evs : List PingEvent} (hl : l.retval = none)
    (hes : (pingWait e c).Legal (pingHead c l) evs)
    (ih : ∀ {l' : PingLoop}, l'.retval = none → (pingWait e c).Legal l' evs →
      (KeepsTime c l.rcvTime evs ((pingWait e c).exec l' evs) ↔
        WaitsOk c l'.acts ∧ InTime e c l'.rawResp evs)) :
    KeepsTime c l.rcvTime evs ((pingWait e c).exec (pingHead c l) evs) ↔
      WaitsOk c l.acts ∧ HeadOk c l.rcvTime ∧ InTime e c l.rawResp evs := by
  by_cases hle : c.timeout ≤ l.rcvTime
  · rw [pingHead_late hle] at hes ⊢
    obtain rfl := ends_of_retval rfl hes
    rw [headOk_late hle]
    have hacts : WaitsOk c (l.acts ++ [.expired l.rcvTime]) ↔ WaitsOk c l.acts :=
      waitsOk_append.trans (and_iff_left fun _ _ _ hmem => nomatch List.mem_singleton.mp hmem)
    constructor
    · intro h
      exact ⟨hacts.mp h.waits, h.late rfl (List.not_mem_nil), trivial⟩
    · rintro ⟨hwaits, hlate, -⟩
      exact ⟨fun _ _ => hlate, hacts.mpr hwaits⟩
  · have hlt : l.rcvTime < c.timeout := Nat.not_le.mp hle
    rw [pingHead_wait hlt] at hes ⊢
    rw [ih (by exact hl) hes, headOk_wait hlt]
    dsimp only
    rw [waitsOk_append, waitsOk_one, and_assoc]
    rfl

/-- A reply ends the call, and sets no timeout. -/
theorem keeps_reply {l : PingLoop} {d : Packet} {now : Nat} {evs : List PingEvent}
    (hreply : isReply e c.ping (responseImage c.ping l.rawResp d) d.sender = true)
    (hes : (pingWait e c).Legal (pingTurn e c l (.received d now)) evs) :
    KeepsTime c now evs ((pingWait e c).exec (pingTurn e c l (.received d now)) evs) ↔
      WaitsOk c l.acts ∧ InTime e c l.rawResp (.received d now :: evs) := by
  rw [pingTurn_reply hreply] at hes ⊢
  obtain rfl := ends_of_retval rfl hes
  have hin : InTime e c l.rawResp [.received d now] :=
    ⟨fun hforeign => absurd (hreply.symm.trans hforeign) (by decide), trivial⟩
  have hacts : WaitsOk c ((storeResponse e c l d now).acts ++
      replyActs c.ping (responseImage c.ping l.rawResp d)) ↔ WaitsOk c l.acts :=
    (waitsOk_append.trans (and_iff_left (waitsOk_access (by simp [replyActs, IsAccess])))).trans
      waitsOk_store
  rw [and_iff_left hin, ← hacts]
  refine ⟨fun h => h.waits, fun h => ⟨fun hret => ?_, h⟩⟩
  have hcode : (if payloadMatches c.ping (responseImage c.ping l.rawResp d) then 0 else eio) =
      etimedout := Option.some.inj hret
  exact absurd hcode (by split <;> decide)

theorem keeps_run (hr : InRange c) (hw : NoWrap c) {l : PingLoop} {t : Nat}
    {evs : List PingEvent} (hl : l.retval = none) (hes : (pingWait e c).Legal l evs) :
    KeepsTime c t evs ((pingWait e c).exec l evs) ↔
      WaitsOk c l.acts ∧ InTime e c l.rawResp evs := by
  induction evs generalizing l t with
  | nil =>
    refine ⟨fun h => ⟨h.waits, trivial⟩, fun h => ⟨fun hret => ?_, h.1⟩⟩
    rw [show l.retval = some etimedout from hret] at hl
    cases hl
  | cons ev evs ih =>
    have hrest : (pingWait e c).Legal (pingTurn e c l ev) evs := hes.2
    show KeepsTime c t (ev :: evs) ((pingWait e c).exec (pingTurn e c l ev) evs) ↔ _
    cases ev with
    | setsockoptFails =>
      obtain rfl := ends_of_retval rfl hrest
      refine ⟨fun h => ⟨h.waits, trivial⟩, fun h => ⟨fun hret => ?_, h.1⟩⟩
      exact absurd (show (some (-1) : Option Int) = some etimedout from hret) (by decide)
    | recvFails =>
      obtain rfl := ends_of_retval rfl hrest
      have hacts : WaitsOk c (l.acts ++ [.write .response 0 c.ping.reqSize, .read .response 0 1]) ↔
          WaitsOk c l.acts :=
        waitsOk_append.trans (and_iff_left (waitsOk_access (by simp [IsAccess])))
      constructor
      · intro h
        exact ⟨hacts.mp h.waits, trivial⟩
      · intro h
        exact ⟨fun _ hno => absurd (List.mem_singleton.mpr rfl) hno, hacts.mpr h.1⟩
    | received d now =>
      have hin : KeepsTime c t (.received d now :: evs)
            ((pingWait e c).exec (pingTurn e c l (.received d now)) evs) ↔
          KeepsTime c now evs ((pingWait e c).exec (pingTurn e c l (.received d now)) evs) :=
        ⟨fun h => ⟨fun hret hno => h.late hret (by simpa using hno), h.waits⟩,
          fun h => ⟨fun hret hno => h.late hret (by simpa using hno), h.waits⟩⟩
      rw [hin]
      cases hreply : isReply e c.ping (responseImage c.ping l.rawResp d) d.sender with
      | true => exact keeps_reply hreply hrest
      | false =>
        rw [pingTurn_foreign hreply] at hrest ⊢
        have hhead := keeps_head (l := storeResponse e c l d now) hl hrest
          (fun hl' hes' => ih hl' hes')
        refine hhead.trans ?_
        show WaitsOk c (storeResponse e c l d now).acts ∧ HeadOk c now ∧
          InTime e c (responseImage c.ping l.rawResp d) evs ↔ _
        rw [waitsOk_store, headOk_iff hr hw hes.1.2.2]
        refine and_congr_right fun _ => and_congr_left fun _ => ?_
        exact ⟨fun h _ => h, fun h => h hreply⟩

/-- A call that keeps time judges the time of sending rightly. -/
theorem headOk_of_keeps {evs : List PingEvent} (hes : (pingWait e c).Legal (pingStart c) evs)
    (h : KeepsTime c c.sendTime evs ((pingWait e c).exec (pingStart c) evs)) :
    HeadOk c c.sendTime := by
  by_cases hle : c.timeout ≤ c.sendTime
  · have hstart : pingStart c = _ := pingHead_late hle
    rw [hstart] at hes h
    obtain rfl := ends_of_retval rfl hes
    exact (headOk_late hle).mpr (h.late rfl List.not_mem_nil)
  · have hlt : c.sendTime < c.timeout := Nat.not_le.mp hle
    have hstart : pingStart c = _ := pingHead_wait hlt
    have hset : PingAct.rcvTimeo c.sendTime (c.timeout - c.sendTime)
        (ticksToTimeval c.tps (c.timeout - c.sendTime)) ∈ (pingStart c).acts := by
      rw [hstart]
      exact List.mem_append_right _ (List.mem_singleton.mpr rfl)
    exact (headOk_wait hlt).mpr (h.waits _ _ _ (acts_kept hes hset))

/-- **A ping does not time out early**, and sets the timeouts that are left, exactly if
    nothing wraps and every foreign datagram comes in time. -/
theorem keepsTime_iff (e : Endian) (ping : RtemsPing) {tps sendTime : Nat}
    (hr : InRange (pingCall e ping tps sendTime)) {evs : List PingEvent}
    (hes : (pingWait e (pingCall e ping tps sendTime)).Legal
      (pingStart (pingCall e ping tps sendTime)) evs) :
    KeepsTime (pingCall e ping tps sendTime) sendTime evs
        ((pingWait e (pingCall e ping tps sendTime)).exec
          (pingStart (pingCall e ping tps sendTime)) evs) ↔
      NoWrap (pingCall e ping tps sendTime) ∧
        InTime e (pingCall e ping tps sendTime) ping.rawResp evs := by
  have hacts : WaitsOk (pingCall e ping tps sendTime) (requestActs (pingRequest e ping)) :=
    waitsOk_access (requestActs_access _)
  by_cases hw : NoWrap (pingCall e ping tps sendTime)
  · refine (keeps_head (by rfl) hes (fun hl hes' => keeps_run hr hw hl hes')).trans ?_
    exact (and_iff_right hacts).trans (and_congr_left fun _ => headOk_start hr)
  · -- the first look at the clock is already judged wrongly
    refine iff_of_false (fun h => hw ((headOk_start hr).mp ?_)) (fun h => hw h.1)
    exact headOk_of_keeps hes h

/-- A foreign datagram comes after 10 ticks, and nothing else. -/
theorem keepsTime_iff_standard :
    KeepsTime (pingCall .big standardPing 100 0) 0
      [.received ⟨⟨10, 0, 0, 2⟩, []⟩ 10, .recvFails]
      ((pingWait .big (pingCall .big standardPing 100 0)).exec
        (pingStart (pingCall .big standardPing 100 0))
        [.received ⟨⟨10, 0, 0, 2⟩, []⟩ 10, .recvFails]) := by
  have hwaits : (pingTurn .big (pingCall .big standardPing 100 0)
      (pingStart (pingCall .big standardPing 100 0))
      (.received ⟨⟨10, 0, 0, 2⟩, []⟩ 10)).retval = none := by
    decide +kernel
  refine (keepsTime_iff .big standardPing ⟨by decide, by decide, by decide⟩ ?_).mpr ?_
  · exact ⟨⟨by decide +kernel, by decide, by decide⟩, hwaits, trivial⟩
  · exact ⟨⟨by decide, by decide, Or.inl (by decide)⟩,
      fun _ => ⟨by decide, Or.inl (by decide)⟩, trivial⟩

/-- At the last tick before the clock wraps, a ping times out before it has waited. -/
theorem ping_early :
    PingSends .big (some standardPing) 100 0xffffffff [] etimedout ∧
      ¬ ∀ e ping tps sendTime evs, InRange (pingCall e ping tps sendTime) →
        (pingWait e (pingCall e ping tps sendTime)).Legal
          (pingStart (pingCall e ping tps sendTime)) evs →
        KeepsTime (pingCall e ping tps sendTime) sendTime evs
          ((pingWait e (pingCall e ping tps sendTime)).exec
            (pingStart (pingCall e ping tps sendTime)) evs) := by
  refine ⟨⟨trivial, by decide +kernel⟩, fun hclaim => ?_⟩
  have hkeeps := hclaim .big standardPing 100 0xffffffff [] ⟨by decide, by decide, by decide⟩
    trivial
  have hticks := hkeeps.late (by decide +kernel) List.not_mem_nil
  exact absurd hticks (by decide)

end SsrlApps.MiscUtils
