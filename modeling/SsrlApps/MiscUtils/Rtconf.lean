/-
  `rtconf`: an entry of the routing table is added or deleted.

  Model. An address is a word of 32 bits in network order, as `s_addr` holds it on a host of
  either byte order. `inet_aton` and `rtems_bsdnet_rtrequest` are parameters: which strings
  stand for which addresses, and which requests succeed. The result records the value that
  is returned, the request that was made, and what is printed.

  Proved:
  * `classMask_eq`, `host_iff`: without a mask the code finds that of the class, and looks at
    the same bits of the destination.
  * `rtconf_default`: `rtconf` without a mask is `rtconf` with the mask of the class.
-/
import SsrlApps.Lib.Inet
import SsrlApps.MiscUtils.Cksum

namespace SsrlApps.MiscUtils

/-- `ntohl`, which is also `htonl` -/
def Endian.ntohl : Endian → BitVec 32 → BitVec 32
  | big, x => x
  | little, x => Inet.bswap x

/-! ## The C library -/

def inetNetof (e : Endian) (inp : BitVec 32) : BitVec 32 := Inet.netof (e.ntohl inp)

def inetLnaof (e : Endian) (inp : BitVec 32) : BitVec 32 := Inet.lnaof (e.ntohl inp)

def inetMakeaddr (e : Endian) (net host : BitVec 32) : BitVec 32 :=
  e.ntohl (Inet.makeaddr net host)

def saddrAny : BitVec 32 := 0

/-! ## The function -/

inductive RtmCommand
  | add
  | delete
deriving DecidableEq

def rtfUp : BitVec 32 := 0x1
def rtfGateway : BitVec 32 := 0x2
def rtfHost : BitVec 32 := 0x4
def rtfStatic : BitVec 32 := 0x800

/-- The arguments of `rtems_bsdnet_rtrequest`. -/
structure RtRequest where
  command : RtmCommand
  dst : BitVec 32
  gwy : BitVec 32
  msk : BitVec 32
  flags : BitVec 32
deriving DecidableEq

/-- What is printed: "Need destination address", "%s: Invalid IP address '%s'", the line with
    the request, and the message of `perror` behind "Route request". -/
inductive RtLine
  | needDestination
  | invalid (what s : String)
  | debug (r : RtRequest)
  | routeRequest
deriving DecidableEq

structure RtResult where
  rval : Int
  request : Option RtRequest
  lines : List RtLine
deriving DecidableEq

section

variable (e : Endian) (inetAton : String → Option (BitVec 32)) (rtrequest : RtRequest → Bool)

/-- An argument that may be NULL. -/
def addrArg (what : String) : Option String → Except RtLine (BitVec 32)
  | none => .ok saddrAny
  | some s =>
    match inetAton s with
    | some a => .ok a
    | none => .error (.invalid what s)

/-- The flag for a host route and the mask, from what was parsed. -/
def hostAndMask (dst msk : BitVec 32) (mskS : Option String) : BitVec 32 × BitVec 32 :=
  match mskS with
  | some _ => (if dst &&& ~~~ msk ≠ 0 then rtfHost else 0, msk)
  | none =>
    let a := inetMakeaddr e (inetNetof e dst) 0
    let b := inetMakeaddr e (inetNetof e dst) (-1)
    (if inetLnaof e dst ≠ 0 then rtfHost else 0, ~~~ (a ^^^ b))

/-- The request that is made for the addresses that were parsed. -/
def routeOf (add : Int) (dst gwy msk : BitVec 32) (gwyS mskS : Option String) : RtRequest :=
  let flags := if gwyS.isSome then rtfGateway else 0
  let h := hostAndMask e dst msk mskS
  let flags := flags ||| h.1
  let flags := if add ≠ 0 then flags ||| rtfUp else flags
  let flags := flags ||| rtfStatic
  ⟨if add ≠ 0 then .add else .delete, dst, gwy, h.2, flags⟩

/-- The request is printed and made. -/
def requestRoute (r : RtRequest) : RtResult :=
  if rtrequest r then ⟨0, some r, [.debug r]⟩ else ⟨-1, some r, [.debug r, .routeRequest]⟩

/-- `rtconf` from the parsing on, with a destination. -/
def rtconfTo (add : Int) (dstS : String) (gwyS mskS : Option String) : RtResult :=
  match addrArg inetAton "Destination" (some dstS) with
  | .error l => ⟨-1, none, [l]⟩
  | .ok dst =>
    match addrArg inetAton "Gateway" gwyS with
    | .error l => ⟨-1, none, [l]⟩
    | .ok gwy =>
      match addrArg inetAton "Netmask" mskS with
      | .error l => ⟨-1, none, [l]⟩
      | .ok msk => requestRoute rtrequest (routeOf e add dst gwy msk gwyS mskS)

def rtconf (add : Int) (dstS gwyS mskS : Option String) : RtResult :=
  match dstS with
  | none => ⟨-1, none, [.needDestination]⟩
  | some dstS => rtconfTo e inetAton rtrequest add dstS gwyS mskS

end

/-! ## The mask of the class -/

/-- The mask of the class of an address, as an address. -/
def classMask (e : Endian) (dst : BitVec 32) : BitVec 32 := e.ntohl (Inet.classMask (e.ntohl dst))

theorem ntohl_xor (e : Endian) (x y : BitVec 32) : e.ntohl (x ^^^ y) = e.ntohl x ^^^ e.ntohl y := by
  cases e with
  | big => rfl
  | little => exact Inet.bswap_xor x y

theorem ntohl_and (e : Endian) (x y : BitVec 32) : e.ntohl (x &&& y) = e.ntohl x &&& e.ntohl y := by
  cases e with
  | big => rfl
  | little => exact Inet.bswap_and x y

theorem ntohl_not (e : Endian) (x : BitVec 32) : e.ntohl (~~~ x) = ~~~ e.ntohl x := by
  cases e with
  | big => rfl
  | little => exact Inet.bswap_not x

theorem ntohl_ntohl (e : Endian) (x : BitVec 32) : e.ntohl (e.ntohl x) = x := by
  cases e with
  | big => rfl
  | little => exact Inet.bswap_bswap x

theorem ntohl_eq_zero (e : Endian) (x : BitVec 32) : e.ntohl x = 0 ↔ x = 0 := by
  have hzero : e.ntohl 0 = 0 := by
    cases e with
    | big => rfl
    | little => decide
  constructor
  · intro h
    rw [← ntohl_ntohl e x, h, hzero]
  · rintro rfl
    exact hzero

/-- The two addresses that the code makes differ outside the mask. -/
theorem classMask_eq (e : Endian) (dst : BitVec 32) :
    ~~~ (inetMakeaddr e (inetNetof e dst) 0 ^^^ inetMakeaddr e (inetNetof e dst) (-1)) =
      classMask e dst := by
  unfold inetMakeaddr inetNetof classMask
  rw [← ntohl_xor, ← ntohl_not, Inet.mask_of_xor]

/-- The host part is nonzero exactly if the destination has a bit outside the mask. -/
theorem host_iff (e : Endian) (dst : BitVec 32) :
    inetLnaof e dst ≠ 0 ↔ dst &&& ~~~ classMask e dst ≠ 0 := by
  have hpart : inetLnaof e dst = e.ntohl (dst &&& ~~~ classMask e dst) := by
    unfold inetLnaof classMask
    rw [Inet.lnaof_eq, ntohl_and, ntohl_not, ntohl_ntohl]
  rw [hpart]
  exact not_congr (ntohl_eq_zero e _)

theorem hostAndMask_default (e : Endian) (dst : BitVec 32) (mskS : String) :
    hostAndMask e dst saddrAny none = hostAndMask e dst (classMask e dst) (some mskS) := by
  unfold hostAndMask
  dsimp only
  rw [classMask_eq]
  by_cases hhost : inetLnaof e dst = 0
  · have hno : dst &&& ~~~ classMask e dst = 0 := by
      by_contra hne
      exact (host_iff e dst).mpr hne hhost
    rw [hhost, hno]
  · rw [if_pos hhost, if_pos ((host_iff e dst).mp hhost)]

/-- Of the flags, RTF_HOST comes from there only. -/
theorem routeOf_host (e : Endian) (add : Int) (dst gwy msk : BitVec 32)
    (gwyS mskS : Option String) :
    (routeOf e add dst gwy msk gwyS mskS).flags &&& rtfHost =
      (hostAndMask e dst msk mskS).1 &&& rtfHost := by
  unfold routeOf
  dsimp only
  generalize (hostAndMask e dst msk mskS).1 = h
  have hor : ∀ x y : BitVec 32, (x ||| y) &&& rtfHost = (x &&& rtfHost) ||| (y &&& rtfHost) :=
    fun x y => by rw [BitVec.and_comm, BitVec.and_or_distrib_left, BitVec.and_comm x,
      BitVec.and_comm y]
  have hstatic : rtfStatic &&& rtfHost = 0 := by decide
  have hup : rtfUp &&& rtfHost = 0 := by decide
  have hgateway : rtfGateway &&& rtfHost = 0 := by decide
  split <;> split <;> simp [hor, hstatic, hup, hgateway]

/-- With an explicit mask, RTF_HOST is set exactly if a bit of the destination is outside it. -/
theorem routeOf_host_iff (e : Endian) (add : Int) (dst gwy msk : BitVec 32)
    (gwyS : Option String) (mskS : String) :
    (routeOf e add dst gwy msk gwyS (some mskS)).flags &&& rtfHost ≠ 0 ↔
      dst &&& ~~~ msk ≠ 0 := by
  rw [routeOf_host]
  unfold hostAndMask
  dsimp only
  split
  · next h => exact ⟨fun _ => h, fun _ => by decide⟩
  · next h => exact ⟨fun hne => absurd (by decide) hne, fun hne => absurd hne h⟩

theorem addrArg_some {inetAton : String → Option (BitVec 32)} {s : String} {a : BitVec 32}
    (h : inetAton s = some a) (what : String) : addrArg inetAton what (some s) = .ok a := by
  unfold addrArg
  dsimp only
  rw [h]

theorem requestRoute_request (rtrequest : RtRequest → Bool) (r : RtRequest) :
    (requestRoute rtrequest r).request = some r := by
  unfold requestRoute
  split <;> rfl

/-- A destination and a mask that were parsed. -/
theorem rtconf_parsed {e : Endian} {inetAton : String → Option (BitVec 32)}
    {rtrequest : RtRequest → Bool} {add : Int} {dstS : String} {gwyS mskS : Option String}
    {dst msk : BitVec 32} (hdst : inetAton dstS = some dst)
    (hmsk : addrArg inetAton "Netmask" mskS = .ok msk) :
    rtconf e inetAton rtrequest add (some dstS) gwyS mskS =
      match addrArg inetAton "Gateway" gwyS with
      | .error l => ⟨-1, none, [l]⟩
      | .ok gwy => requestRoute rtrequest (routeOf e add dst gwy msk gwyS mskS) := by
  show rtconfTo e inetAton rtrequest add dstS gwyS mskS = _
  unfold rtconfTo
  rw [addrArg_some hdst, hmsk]

/-- A gateway that is NULL or an address is parsed. -/
theorem addrArg_gateway {inetAton : String → Option (BitVec 32)} {gwyS : Option String}
    (h : ∀ s, gwyS = some s → (inetAton s).isSome) :
    ∃ gwy, addrArg inetAton "Gateway" gwyS = .ok gwy := by
  cases gwyS with
  | none => exact ⟨saddrAny, rfl⟩
  | some s =>
    obtain ⟨gwy, hgwy⟩ := Option.isSome_iff_exists.mp (h s rfl)
    exact ⟨gwy, addrArg_some hgwy "Gateway"⟩

/-- **The default mask.** For any destination and gateway, and a string for the mask of the
    destination's class, `rtconf` without a mask does what it does with that string: the
    request is the same, and so are the value and the lines. The request is made if the
    gateway is an address; its mask is that of the class, and RTF_HOST is set exactly if a bit
    of the destination is outside it. -/
theorem rtconf_default (e : Endian) (inetAton : String → Option (BitVec 32))
    (rtrequest : RtRequest → Bool) (add : Int) (dstS mskS : String) (gwyS : Option String)
    (dst : BitVec 32) (hdst : inetAton dstS = some dst)
    (hmsk : inetAton mskS = some (classMask e dst)) :
    let r := rtconf e inetAton rtrequest add (some dstS) gwyS none
    r = rtconf e inetAton rtrequest add (some dstS) gwyS (some mskS) ∧
    ((∀ s, gwyS = some s → (inetAton s).isSome) → r.request.isSome) ∧
    ∀ q, r.request = some q → q.dst = dst ∧ q.msk = classMask e dst ∧
      (q.flags &&& rtfHost ≠ 0 ↔ dst &&& ~~~ q.msk ≠ 0) := by
  intro r
  have hroute : ∀ gwy, routeOf e add dst gwy saddrAny gwyS none =
      routeOf e add dst gwy (classMask e dst) gwyS (some mskS) := by
    intro gwy
    unfold routeOf
    rw [hostAndMask_default e dst mskS]
  have hr : r = match addrArg inetAton "Gateway" gwyS with
      | .error l => ⟨-1, none, [l]⟩
      | .ok gwy => requestRoute rtrequest (routeOf e add dst gwy saddrAny gwyS none) :=
    rtconf_parsed hdst rfl
  refine ⟨?_, ?_, ?_⟩
  · rw [hr, rtconf_parsed hdst (addrArg_some hmsk "Netmask")]
    simp only [hroute]
  · intro hgwy
    obtain ⟨gwy, hok⟩ := addrArg_gateway hgwy
    rw [hr, hok]
    dsimp only
    rw [requestRoute_request]
    rfl
  · intro q hq
    cases hparse : addrArg inetAton "Gateway" gwyS with
    | error l =>
      rw [hr, hparse] at hq
      cases hq
    | ok gwy =>
      rw [hr, hparse] at hq
      dsimp only at hq
      rw [requestRoute_request, hroute] at hq
      obtain rfl := Option.some.inj hq
      exact ⟨rfl, rfl, routeOf_host_iff e add dst gwy (classMask e dst) gwyS mskS⟩

/-- Three strings that stand for addresses. -/
def threeNames : String → Option (BitVec 32)
  | "130.57.0.1" => some 0x82390001
  | "255.255.0.0" => some 0xffff0000
  | "10.0.0.1" => some 0x0a000001
  | _ => none

/-- A host of class B, through a gateway. -/
theorem rtconf_default_classB :
    let r := rtconf .big threeNames (fun _ => true) 1 (some "130.57.0.1") (some "10.0.0.1") none
    r = rtconf .big threeNames (fun _ => true) 1 (some "130.57.0.1") (some "10.0.0.1")
      (some "255.255.0.0") ∧
    ((∀ s, some "10.0.0.1" = some s → (threeNames s).isSome) → r.request.isSome) ∧
    ∀ q, r.request = some q → q.dst = 0x82390001 ∧ q.msk = classMask .big 0x82390001 ∧
      (q.flags &&& rtfHost ≠ 0 ↔ 0x82390001 &&& ~~~ q.msk ≠ 0) :=
  rtconf_default .big threeNames (fun _ => true) 1 "130.57.0.1" "255.255.0.0" (some "10.0.0.1")
    0x82390001 rfl (by decide)

end SsrlApps.MiscUtils
