/-
  What `do_traceroute` puts into its buffer, and what of it goes out.

  Model. One buffer holds the probe and then the reply. A turn of the loop builds the frame
  at the start of the buffer, over whatever stands there, and hands the first 48 bytes to
  `sendto`; `recvfrom` stores a datagram from the start on. `struct icmp` has 28 bytes, so
  the two words with the time lie behind what is sent. Fields of 16 bits are stored in the
  order of the host, but for the checksums, which are the same in every order.

  Proved:
  * `trMakeIpFrame_slice`, `trMakeIcmp_slice`: the bytes of the header and of the message.
  * `networkSum_sealed`: the sum of a packet with its checksum is all ones.
  * `probes_sent`: what a run sends are the probes of its TTLs, whatever was in the buffer.
-/
import SsrlApps.MiscUtils.Ping
import SsrlApps.MiscUtils.TraceProgress

namespace SsrlApps.MiscUtils

open Bytes

/-! ## The frame -/

/-- A word of 32 bits in the order of the host. -/
def store32 (e : Endian) (m : Bytes) (p v : Nat) : Bytes :=
  match e with
  | .big => m.store 4 p v
  | .little => m.storeLE 4 p v

/-- A `struct in_addr` at `p`. -/
def storeAddr (m : Bytes) (p : Nat) (x : InAddr) : Bytes :=
  Function.update (Function.update (Function.update (Function.update m p x.a) (p + 1) x.b)
    (p + 2) x.c) (p + 3) x.d

def ipprotoIcmp : UInt8 := 1

/-- `ipf->ip_v = v`: the upper half of the first byte. -/
def storeIpV (m : Bytes) (v : Nat) : Bytes :=
  Function.update m 0 (UInt8.ofNat (v * 16 + (m 0).toNat % 16))

/-- `ipf->ip_hl = hl`: the lower half. -/
def storeIpHl (m : Bytes) (hl : Nat) : Bytes :=
  Function.update m 0 (UInt8.ofNat ((m 0).toNat / 16 * 16 + hl))

section Frame

variable (e : Endian) (opts : TracerouteOpts) (ctx : TracerouteCtx) (src : InAddr)

/-- `_tr_make_ip_frame`, up to the checksum. -/
def ipFields (m : Bytes) (ttl : UInt8) (datalen : Nat) : Bytes :=
  let m := storeAddr m 16 opts.ip
  let m := storeIpV m 4
  let m := Function.update m 1 0
  let m := store16 e m 4 ctx.ident
  let m := Function.update m 9 ipprotoIcmp
  let m := storeAddr m 12 src
  let m := Function.update m 8 ttl
  let m := storeIpHl m (ipSize / 4)
  let m := store16 e m 2 (datalen + ipSize)
  let m := store16 e m 6 0
  store16 e m 10 0

/-- `_tr_make_ip_frame`, with `ipf` at the start of the buffer and `src` for
    `ctx->local.sin_addr`. -/
def trMakeIpFrame (m : Bytes) (ttl : UInt8) (datalen : Nat) : Bytes :=
  let m := ipFields e opts ctx src m ttl datalen
  store16 e m 10 (ipCksum e m 0 ipSize)

/-- `_tr_make_icmp`, up to the checksum. -/
def icmpFields (m : Bytes) (packet sec nsec : Nat) : Bytes :=
  let m := m.fill packet 0 (icmpSize + 8)
  let m := Function.update m packet icmpEcho
  let m := Function.update m (packet + 1) 0
  let m := store16 e m (packet + 4) ctx.ident
  let m := store16 e m (packet + 6) 0
  let m := store32 e m (packet + icmpSize) sec
  let m := store32 e m (packet + icmpSize + 4) nsec
  store16 e m (packet + 2) 0

/-- `_tr_make_icmp`, at the time of `sec` and `nsec`. -/
def trMakeIcmp (m : Bytes) (packet sec nsec : Nat) : Bytes :=
  let m := icmpFields e ctx m packet sec nsec
  store16 e m (packet + 2) (ipCksum e m packet icmpSize)

end Frame

/-! ## The loop with its buffer -/

structure Prober where
  trace : Trace
  data : Bytes
  /-- The datagrams that were handed to `sendto`. -/
  sent : List (List UInt8)

/-- A call, with its result. -/
inductive Call
  /-- `sendto`, behind a reading of the clock. -/
  | sendto (sec nsec : Nat) (n : Int)
  | recvError (again : Bool)
  | recvNothing
  | recvfrom (sender : InAddr) (bs : List UInt8)

/-- What the loop sees of a call when `data` is in the buffer. -/
def Call.outcome (data : Bytes) : Call → Outcome
  | .sendto _ _ n => .sent n
  | .recvError again => .recvError again
  | .recvNothing => .recvNothing
  | .recvfrom sender bs => .received ⟨sender, bs.length, deliver data bs⟩

section Loop

variable (e : Endian) (opts : TracerouteOpts) (ctx : TracerouteCtx) (src : InAddr)

/-- The frame of a turn. -/
def buildProbe (m : Bytes) (ttl : UInt8) (sec nsec : Nat) : Bytes :=
  trMakeIcmp e ctx (trMakeIpFrame e opts ctx src m ttl icmpSize) ipSize sec nsec

def proberStep (s : Prober) (c : Call) : Prober :=
  let trace := traceStep e opts ctx s.trace (c.outcome s.data)
  match c with
  | .sendto sec nsec _ =>
    let data := buildProbe e opts ctx src s.data s.trace.ttl sec nsec
    ⟨trace, data, s.sent ++ [data.slice 0 frameLen]⟩
  | .recvfrom _ bs => ⟨trace, deliver s.data bs, s.sent⟩
  | _ => ⟨trace, s.data, s.sent⟩

/-- `do_traceroute` with its buffer. -/
def prober : Guarded Prober Call :=
  ⟨fun s c => traceGuard s.trace (c.outcome s.data), proberStep e opts ctx src⟩

/-- The buffer is not initialized. -/
def proberStart (junk : Bytes) : Prober := ⟨traceStart opts, junk, []⟩

/-- What the loop sees of a run. -/
def outcomes : Prober → List Call → List Outcome
  | _, [] => []
  | s, c :: cs => c.outcome s.data :: outcomes (proberStep e opts ctx src s c) cs

end Loop

/-! ## Packets with a checksum -/

/-- The two bytes of a number, the more significant first. -/
def be16 (v : Nat) : List UInt8 := [UInt8.ofNat (v / 256), UInt8.ofNat v]

/-- The bytes `pre` and `post`, with the checksum of the whole between them. -/
def sealed (pre post : List UInt8) : List UInt8 :=
  pre ++ be16 (rfc1071 (pre ++ be16 0 ++ post)) ++ post

theorem store16_apply (e : Endian) (m : Bytes) (p v b : Nat) : store16 e m p v b =
    if b = p then UInt8.ofNat (e.ntohs v / 256)
    else if b = p + 1 then UInt8.ofNat (e.ntohs v) else m b := by
  unfold store16 store
  by_cases h0 : b = p
  · subst h0
    simp
  · by_cases h1 : b = p + 1
    · subst h1
      simp
    · rw [if_neg (by omega), if_neg h0, if_neg h1]

theorem slice_store16 (e : Endian) (m : Bytes) (p k n v : Nat) :
    (store16 e m (p + k) v).slice p (k + 2 + n) =
      m.slice p k ++ be16 (e.ntohs v) ++ m.slice (p + k + 2) n := by
  have hbefore : (store16 e m (p + k) v).slice p k = m.slice p k :=
    slice_congr fun b _ hb => store16_outside (Or.inl hb)
  have hbehind : (store16 e m (p + k) v).slice (p + (k + 2)) n = m.slice (p + k + 2) n :=
    slice_congr fun b hb _ => store16_outside (Or.inr hb)
  have hfield : (store16 e m (p + k) v).slice (p + k) 2 = be16 (e.ntohs v) := by
    simp [slice, store16_apply, be16]
  rw [slice_add, slice_add, hbefore, hfield, hbehind]

/-- Storing the checksum of a packet with zeros in the field. -/
theorem slice_ipCksum {e : Endian} {m : Bytes} {p k len : Nat} {pre post : List UInt8}
    (hlen : k + 2 + post.length = len)
    (h : m.slice p len = pre ++ be16 0 ++ post) :
    (store16 e m (p + k) (ipCksum e m p len)).slice p len = sealed pre post := by
  subst hlen
  have hparts := h
  rw [slice_add, slice_add] at hparts
  obtain ⟨hfront, hpost⟩ := List.append_inj' hparts (length_slice ..)
  obtain ⟨hpre, -⟩ := List.append_inj' hfront rfl
  rw [slice_store16, ipCksum_network, h, hpre, Nat.add_assoc p, hpost]
  rfl

theorem slice_deliver (m : Bytes) (bs : List UInt8) : (deliver m bs).slice 0 bs.length = bs := by
  refine List.ext_getElem (length_slice ..) fun i hi _ => ?_
  have hlen : i < bs.length := by rwa [length_slice] at hi
  have hget := getElem?_slice (deliver m bs) (a := 0) hlen
  rw [Nat.zero_add, deliver_inside m hlen, List.getElem?_eq_getElem hi] at hget
  exact Option.some.inj hget

/-- The sum of a packet with its checksum is all ones. -/
theorem networkSum_sealed {pre : List UInt8} (hpre : pre.length % 2 = 0) (post : List UInt8) :
    networkSum (sealed pre post) = 0xffff := by
  have hlen : (pre ++ be16 0 ++ post).length = pre.length + 2 + post.length := by
    rw [List.length_append, List.length_append]
    rfl
  obtain ⟨m, hm⟩ : ∃ m : Bytes, m.slice 0 (pre.length + 2 + post.length) =
      pre ++ be16 0 ++ post := ⟨deliver (fun _ => 0) _, hlen ▸ slice_deliver _ _⟩
  have hzero : ∀ i < 2, m (0 + (pre.length + i)) = 0 := by
    intro i hi
    have hget := getElem?_slice m (a := 0) (show pre.length + i < pre.length + 2 + post.length by
      omega)
    rw [hm, List.append_assoc, List.getElem?_append_right (Nat.le_add_right ..),
      Nat.add_sub_cancel_left] at hget
    obtain rfl | rfl : i = 0 ∨ i = 1 := by omega
    · exact (Option.some.inj hget).symm
    · exact (Option.some.inj hget).symm
  rw [← slice_ipCksum (e := .big) rfl hm]
  exact networkSum_verified hpre (Nat.le_add_right ..) (hzero 0 (by decide)) (hzero 1 (by decide))

/-! ## Probes -/

def InAddr.bytes (x : InAddr) : List UInt8 := [x.a, x.b, x.c, x.d]

section Probe

variable (e : Endian) (opts : TracerouteOpts) (ctx : TracerouteCtx) (src : InAddr)

/-- The header up to its checksum, with the length and the identifier in the order of the
    host. -/
def headerPre (ttl : UInt8) : List UInt8 :=
  [0x45, 0] ++ be16 (e.ntohs frameLen) ++ be16 (e.ntohs ctx.ident) ++ [0, 0, ttl, ipprotoIcmp]

def headerPost : List UInt8 := src.bytes ++ opts.ip.bytes

/-- The message behind its checksum: the identifier, and zeros. -/
def echoPost : List UInt8 := be16 (e.ntohs ctx.ident) ++ List.replicate 22 0

/-- The 48 bytes of a probe: an IP header and an echo request. -/
def probe (ttl : UInt8) : List UInt8 :=
  sealed (headerPre e ctx ttl) (headerPost opts src) ++ sealed [icmpEcho, 0] (echoPost e ctx)

end Probe

/-- The first probe from 10.0.0.2 to 10.0.0.1, on a big-endian host. -/
example : probe .big oneHop openCtx ⟨10, 0, 0, 2⟩ 1 =
    [0x45, 0, 0, 48, 0x17, 0x2a, 0, 0, 1, 1, 0x8e, 0xa1, 10, 0, 0, 2, 10, 0, 0, 1] ++
      [8, 0, 0xe0, 0xd5, 0x17, 0x2a] ++ List.replicate 22 0 := by decide

variable {e : Endian} {opts : TracerouteOpts} {ctx : TracerouteCtx} {src : InAddr}

theorem ntohs_zero (e : Endian) : e.ntohs 0 = 0 := by
  cases e with
  | big => rfl
  | little => rfl

/-- The two halves of the first byte, whatever was there. -/
theorem versionAndLength (x : UInt8) :
    UInt8.ofNat ((UInt8.ofNat (4 * 16 + x.toNat % 16)).toNat / 16 * 16 + 5) = 0x45 := by
  have hx : (UInt8.ofNat (4 * 16 + x.toNat % 16)).toNat = 64 + x.toNat % 16 := by
    rw [UInt8.toNat_ofNat']
    omega
  rw [hx, show (64 + x.toNat % 16) / 16 * 16 + 5 = 0x45 by omega]
  rfl

theorem ipFields_slice (m : Bytes) (ttl : UInt8) :
    (ipFields e opts ctx src m ttl icmpSize).slice 0 20 =
      headerPre e ctx ttl ++ be16 0 ++ headerPost opts src := by
  have hfirst := versionAndLength (m 0)
  simp [slice, ipFields, store16_apply, storeAddr, storeIpV, storeIpHl, headerPre, headerPost,
    be16, InAddr.bytes, ipSize, icmpSize, frameLen, ntohs_zero] at hfirst ⊢
  exact hfirst

/-- The bytes of the header. -/
theorem trMakeIpFrame_slice (m : Bytes) (ttl : UInt8) :
    (trMakeIpFrame e opts ctx src m ttl icmpSize).slice 0 20 =
      sealed (headerPre e ctx ttl) (headerPost opts src) :=
  slice_ipCksum (k := 10) rfl (ipFields_slice m ttl)

theorem icmpFields_slice (m : Bytes) (sec nsec : Nat) :
    (icmpFields e ctx m ipSize sec nsec).slice 20 28 =
      [icmpEcho, 0] ++ be16 0 ++ echoPost e ctx := by
  cases e <;>
    simp [slice, icmpFields, store16_apply, store32, store, storeLE, fill, echoPost, be16, ipSize,
      icmpSize, ntohs_zero, List.replicate]

/-- The bytes of the message. -/
theorem trMakeIcmp_slice (m : Bytes) (sec nsec : Nat) :
    (trMakeIcmp e ctx m ipSize sec nsec).slice 20 28 = sealed [icmpEcho, 0] (echoPost e ctx) :=
  slice_ipCksum (k := 2) rfl (icmpFields_slice m sec nsec)

/-- The message leaves the header alone. -/
theorem trMakeIcmp_before (m : Bytes) {packet sec nsec b : Nat} (hb : b < packet) :
    trMakeIcmp e ctx m packet sec nsec b = m b := by
  have hne : ∀ k, b ≠ packet + k := fun k => by omega
  have h16 : ∀ m k v, store16 e m (packet + k) v b = m b := fun m k v =>
    store16_outside (Or.inl (Nat.lt_add_right k hb))
  have h32 : ∀ m k v, store32 e m (packet + k) v b = m b := fun m k v => by
    cases e with
    | big => exact store_outside (Or.inl (Nat.lt_add_right k hb))
    | little => exact storeLE_outside (Or.inl (Nat.lt_add_right k hb))
  unfold trMakeIcmp icmpFields
  dsimp only
  rw [h16, h16, Nat.add_assoc, h32, h32, h16, h16, Function.update_of_ne (hne 1),
    Function.update_of_ne hb.ne, fill_outside (Or.inl hb)]

/-- **The frame of a turn**, whatever the buffer holds and whatever the time is. -/
theorem buildProbe_slice (m : Bytes) (ttl : UInt8) (sec nsec : Nat) :
    (buildProbe e opts ctx src m ttl sec nsec).slice 0 frameLen = probe e opts ctx src ttl := by
  have hheader : (buildProbe e opts ctx src m ttl sec nsec).slice 0 20 =
      (trMakeIpFrame e opts ctx src m ttl icmpSize).slice 0 20 :=
    slice_congr fun b _ hb => trMakeIcmp_before _ (by rwa [Nat.zero_add] at hb)
  show (buildProbe e opts ctx src m ttl sec nsec).slice 0 (20 + 28) = _
  rw [slice_add, hheader, trMakeIpFrame_slice]
  exact congrArg _ (trMakeIcmp_slice _ sec nsec)

theorem length_headerPre (e : Endian) (ctx : TracerouteCtx) (ttl : UInt8) :
    (headerPre e ctx ttl).length = 10 := rfl

theorem length_header (ttl : UInt8) :
    (sealed (headerPre e ctx ttl) (headerPost opts src)).length = 20 := rfl

/-- Both checksums of a probe verify. -/
theorem probe_verifies (ttl : UInt8) :
    networkSum ((probe e opts ctx src ttl).take 20) = 0xffff ∧
      networkSum ((probe e opts ctx src ttl).drop 20) = 0xffff := by
  unfold probe
  rw [List.take_left' (length_header ttl), List.drop_left' (length_header ttl)]
  exact ⟨networkSum_sealed (by rw [length_headerPre]) _, networkSum_sealed rfl _⟩

/-! ## Runs -/

theorem proberStep_trace (s : Prober) (c : Call) : (proberStep e opts ctx src s c).trace =
    traceStep e opts ctx s.trace (c.outcome s.data) := by
  cases c <;> rfl

/-- The buffer does not matter to the loop but for what is received. -/
theorem prober_trace {s : Prober} {cs : List Call} (hes : (prober e opts ctx src).Legal s cs) :
    (traceroute e opts ctx).Legal s.trace (outcomes e opts ctx src s cs) ∧
      ((prober e opts ctx src).exec s cs).trace =
        (traceroute e opts ctx).exec s.trace (outcomes e opts ctx src s cs) := by
  induction cs generalizing s with
  | nil => exact ⟨trivial, rfl⟩
  | cons c cs ih =>
    obtain ⟨hlegal, hexec⟩ := ih hes.2
    have htrace : ((prober e opts ctx src).step s c).trace =
      traceStep e opts ctx s.trace (c.outcome s.data) := proberStep_trace s c
    rw [htrace] at hlegal hexec
    exact ⟨⟨hes.1, hlegal⟩, hexec⟩

/-- A call of `sendto` takes the TTL of its turn. -/
theorem traceStep_probes (t : Trace) (o : Outcome) :
    (traceStep e opts ctx t o).probes =
      t.probes ++ match o with | .sent _ => [t.ttl] | _ => [] := by
  cases o with
  | sent n =>
    show (Trace.afterSend opts t n).probes = _
    unfold Trace.afterSend
    dsimp only
    split
    · exact retry_probes ..
    · rfl
  | recvError again =>
    rw [List.append_nil]
    cases again with
    | true => exact done_probes ..
    | false => exact retry_probes ..
  | recvNothing =>
    rw [List.append_nil]
    exact done_probes ..
  | received d =>
    rw [List.append_nil]
    show (Trace.afterRecv opts e ctx t d).probes = _
    unfold Trace.afterRecv
    split
    · split
      · dsimp only
        split
        · rfl
        · exact done_probes ..
      · rfl
    · rfl

/-- What was sent are the probes of the TTLs. -/
theorem sent_step {s : Prober} (c : Call)
    (h : s.sent = s.trace.probes.map (probe e opts ctx src)) :
    (proberStep e opts ctx src s c).sent =
      (proberStep e opts ctx src s c).trace.probes.map (probe e opts ctx src) := by
  have hnone : s.sent = (s.trace.probes ++ []).map (probe e opts ctx src) := by
    rw [List.append_nil, h]
  rw [proberStep_trace, traceStep_probes]
  cases c with
  | sendto sec nsec n =>
    show s.sent ++ [_] = _
    rw [buildProbe_slice, List.map_append, ← h]
    rfl
  | recvError again => exact hnone
  | recvNothing => exact hnone
  | recvfrom sender bs => exact hnone

theorem probes_ttls {os : List Outcome} (hes : (traceroute e opts ctx).Legal (traceStart opts) os) :
    ((traceroute e opts ctx).exec (traceStart opts) os).probes =
      (ttls e ctx.ident 1 os).map UInt8.ofNat := by
  by_cases hm : 0 ≤ opts.maxHops
  · obtain ⟨hstart, hnil⟩ := book_start opts hm
    have hbooks : Books e ctx.ident opts.maxHops 1 0 os _ _ := book_run hstart hes
    rw [hbooks.probes, hnil, List.nil_append]
  · have hexit : (traceStart opts).phase = .exit :=
      (Trace.head_spec opts _).2.2.2.mpr (Or.inl (show opts.maxHops ≤ 0 by omega))
    cases os with
    | nil => exact (Trace.head_frame opts _).2
    | cons o os => exact absurd hes.1 (not_guard_exit hexit)

/-- **What a run sends are the probes of its TTLs**, with both checksums right, whatever the
    buffer held and whatever was received into it. -/
theorem probes_sent {junk : Bytes} {cs : List Call}
    (hes : (prober e opts ctx src).Legal (proberStart opts junk) cs) :
    ((prober e opts ctx src).exec (proberStart opts junk) cs).sent =
        (ttls e ctx.ident 1 (outcomes e opts ctx src (proberStart opts junk) cs)).map
          (fun n => probe e opts ctx src (UInt8.ofNat n)) ∧
      ∀ frame ∈ ((prober e opts ctx src).exec (proberStart opts junk) cs).sent,
        networkSum (frame.take 20) = 0xffff ∧ networkSum (frame.drop 20) = 0xffff := by
  obtain ⟨hlegal, htrace⟩ := prober_trace hes
  have hstart : (proberStart opts junk).sent =
      (proberStart opts junk).trace.probes.map (probe e opts ctx src) := by
    rw [show (proberStart opts junk).trace.probes = [] from (Trace.head_frame opts _).2]
    rfl
  have hsent := Guarded.invariant (M := prober e opts ctx src)
    (I := fun s => s.sent = s.trace.probes.map (probe e opts ctx src))
    (fun s c h _ => sent_step c h) hstart hes
  rw [htrace, show (proberStart opts junk).trace = traceStart opts from rfl,
    probes_ttls hlegal, List.map_map] at hsent
  refine ⟨hsent, fun frame hframe => ?_⟩
  rw [hsent] at hframe
  obtain ⟨n, -, rfl⟩ := List.mem_map.mp hframe
  exact probe_verifies _

/-- Two hops, to 10.0.0.1, without output. -/
def twoHops : TracerouteOpts := ⟨⟨10, 0, 0, 1⟩, 2, 0⟩

/-- A probe, a datagram of somebody else's, a timeout, and a probe. -/
def disturbedCalls : List Call := [.sendto 5 7 48, .recvfrom ⟨10, 0, 0, 9⟩ [0x45, 0xff],
  .recvError true, .sendto 6 8 48]

/-- On a little-endian host, from 10.0.0.2. -/
theorem probes_sent_disturbed :
    ((prober .little twoHops openCtx ⟨10, 0, 0, 2⟩).exec (proberStart twoHops fun _ => 0xff)
          disturbedCalls).sent =
        [probe .little twoHops openCtx ⟨10, 0, 0, 2⟩ 1,
          probe .little twoHops openCtx ⟨10, 0, 0, 2⟩ 2] ∧
      ∀ frame ∈ ((prober .little twoHops openCtx ⟨10, 0, 0, 2⟩).exec
          (proberStart twoHops fun _ => 0xff) disturbedCalls).sent,
        networkSum (frame.take 20) = 0xffff ∧ networkSum (frame.drop 20) = 0xffff := by
  refine probes_sent ⟨rfl, ⟨?_, ?_, ?_⟩, ?_, ?_, trivial⟩
  · rfl
  · decide
  · decide
  · rfl
  · rfl

end SsrlApps.MiscUtils
