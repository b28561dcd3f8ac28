/-
  `ifconf`: an interface is configured, or brought down.

  Model. An interface has flags, an address and a netmask. Every request of
  `rtems_bsdnet_ifconfig` either succeeds and does to its own component what it is for, or
  fails and changes nothing; which ones fail, and what `inet_aton` makes of a string, is
  decided by the environment (`IfEnv`). A call makes every request at most once, and the one
  for the flags once more if it has to undo.

  Proved:
  * `ifconfNamed_down`, `ifconfNamed_up`: a call without and with an address.
  * `ifconf_outcome`: the interface behind any call.
  * `ifconf_not_atomic`: a mistyped address takes a live interface down.
-/
import Mathlib.Logic.Basic

namespace SsrlApps.MiscUtils

/-! ## The function -/

structure Iface where
  flags : BitVec 32
  address : BitVec 32
  netmask : BitVec 32
deriving DecidableEq

def iffUp : BitVec 32 := 0x1

/-- What the calls of `ifconf` return: whether the requests succeed, and `inet_aton`. -/
structure IfEnv where
  /-- SIOCSIFFLAGS, the first one. -/
  setFlags : Bool
  getAddr : Bool
  getNetmask : Bool
  /-- RTM_DELETE -/
  deleteRoute : Bool
  setAddr : Bool
  setNetmask : Bool
  /-- SIOCSIFFLAGS, at `cleanup`. -/
  undo : Bool
  inetAton : String → Option (BitVec 32)

/-- What is printed to stderr. -/
inductive IfLine
  | usage
  | unableToBring (name : String) (up : Bool)
  | unableToGetAddress
  | unableToGetNetmask
  | unableToDeleteRoute
  | invalidAddress (addr : String)
  | unableToSetAddress (name : String)
  | invalidMask (msk : String)
  | unableToSetNetmask (name : String)
  | unableToUndo (name : String)
deriving DecidableEq

/-- The value, the interface, the route that is to be deleted (a destination and its mask),
    and what is printed. -/
structure IfResult where
  rval : Int
  iface : Iface
  route : Option (BitVec 32 × BitVec 32)
  lines : List IfLine
deriving DecidableEq

section

variable (env : IfEnv)

/-- `if ( !addr )`: the interface is down, and its route is deleted. -/
def deleteIfRoute (iface : Iface) : IfResult :=
  if !env.getAddr then ⟨-1, iface, none, [.unableToGetAddress]⟩
  else if !env.getNetmask then ⟨-1, iface, none, [.unableToGetNetmask]⟩
  else
    let route := (iface.address &&& iface.netmask, iface.netmask)
    if env.deleteRoute then ⟨0, iface, some route, []⟩
    else ⟨-1, iface, some route, [.unableToDeleteRoute]⟩

/-- The netmask, if one is given: what is printed if that fails. -/
def setMask (iface : Iface) (nam : String) : Option String → Iface × Option IfLine
  | none => (iface, none)
  | some mskS =>
    match env.inetAton mskS with
    | none => (iface, some (.invalidMask mskS))
    | some msk =>
      if env.setNetmask then ({ iface with netmask := msk }, none)
      else (iface, some (.unableToSetNetmask nam))

/-- The address and the netmask, up to `cleanup`. -/
def setAddrAndMask (iface : Iface) (nam addr : String) (mskS : Option String) :
    Iface × Option IfLine :=
  match env.inetAton addr with
  | none => (iface, some (.invalidAddress addr))
  | some a =>
    if env.setAddr then setMask env { iface with address := a } nam mskS
    else (iface, some (.unableToSetAddress nam))

/-- `cleanup`: whatever failed, the interface is brought down. -/
def cleanup (nam : String) : Iface × Option IfLine → IfResult
  | (iface, none) => ⟨0, iface, none, []⟩
  | (iface, some l) =>
    if env.undo then ⟨-1, { iface with flags := 0 }, none, [l]⟩
    else ⟨-1, iface, none, [l, .unableToUndo nam]⟩

def ifconfNamed (iface : Iface) (nam : String) (addr mskS : Option String) : IfResult :=
  if !env.setFlags then ⟨-1, iface, none, [.unableToBring nam addr.isSome]⟩
  else
    match addr with
    | none => deleteIfRoute env { iface with flags := 0 }
    | some addr => cleanup env nam (setAddrAndMask env { iface with flags := iffUp } nam addr mskS)

def ifconf (iface : Iface) (nam addr mskS : Option String) : IfResult :=
  match nam with
  | none => ⟨-1, iface, none, [.usage]⟩
  | some nam => ifconfNamed env iface nam addr mskS

end

/-! ## What a call leaves behind -/

/-- A call that fails changes nothing; one that succeeds with an address leaves the interface
    up, with that address and with the mask, if there is one. -/
structure AllOrNothing (env : IfEnv) (iface : Iface) (addr mskS : Option String)
    (r : IfResult) : Prop where
  failed : r.rval ≠ 0 → r.iface = iface
  done : r.rval = 0 → ∀ s, addr = some s → r.iface.flags = iffUp ∧
    env.inetAton s = some r.iface.address ∧
    ∀ t, mskS = some t → env.inetAton t = some r.iface.netmask

/-- The address was set: the string is valid and the request succeeded. -/
def AddressSet (env : IfEnv) (addr : Option String) (a : BitVec 32) : Prop :=
  env.setAddr = true ∧ ∃ s, addr = some s ∧ env.inetAton s = some a

/-- What a call does instead of it: a failure before the first request succeeded changes
    nothing, and any later one leaves the interface down, with the address as it was unless it
    was set, and with the netmask as it was. -/
structure DownOnFailure (env : IfEnv) (iface : Iface) (nam addr mskS : Option String)
    (r : IfResult) : Prop where
  early : nam = none ∨ env.setFlags = false → r.rval = -1 ∧ r.iface = iface
  failed : nam ≠ none → env.setFlags = true → r.rval ≠ 0 → r.iface.flags = 0 ∧
    r.iface.netmask = iface.netmask ∧
    (∀ a, AddressSet env addr a → r.iface.address = a) ∧
    ((¬ ∃ a, AddressSet env addr a) → r.iface.address = iface.address)
  done : r.rval = 0 → ∀ s, addr = some s → r.iface.flags = iffUp ∧
    env.inetAton s = some r.iface.address ∧
    (∀ t, mskS = some t → env.inetAton t = some r.iface.netmask) ∧
    (mskS = none → r.iface.netmask = iface.netmask)

variable {env : IfEnv} {iface : Iface}

theorem minusOne_ne : (-1 : Int) ≠ 0 := by decide

theorem addressSet_none {a : BitVec 32} : ¬ AddressSet env none a := by
  rintro ⟨-, s, hs, -⟩
  cases hs

theorem addressSet_some {s : String} {a : BitVec 32} :
    AddressSet env (some s) a ↔ env.setAddr = true ∧ env.inetAton s = some a := by
  constructor
  · rintro ⟨hset, t, ht, hat⟩
    obtain rfl := Option.some.inj ht
    exact ⟨hset, hat⟩
  · rintro ⟨hset, hat⟩
    exact ⟨hset, s, rfl, hat⟩

/-- The netmask is set, or it is as it was. -/
theorem setMask_cases (env : IfEnv) (iface : Iface) (nam : String) (mskS : Option String) :
    (setMask env iface nam mskS).1.flags = iface.flags ∧
      (setMask env iface nam mskS).1.address = iface.address ∧
      ((setMask env iface nam mskS).2 = none →
        (∀ t, mskS = some t → env.inetAton t = some (setMask env iface nam mskS).1.netmask) ∧
        (mskS = none → (setMask env iface nam mskS).1.netmask = iface.netmask)) ∧
      ((setMask env iface nam mskS).2 ≠ none →
        (setMask env iface nam mskS).1.netmask = iface.netmask) := by
  unfold setMask
  cases mskS with
  | none => exact ⟨rfl, rfl, fun _ => ⟨fun _ h => (nomatch h), fun _ => rfl⟩, fun _ => rfl⟩
  | some mskS =>
    dsimp only
    cases hmsk : env.inetAton mskS with
    | none => exact ⟨rfl, rfl, fun h => (nomatch h), fun _ => rfl⟩
    | some msk =>
      dsimp only
      split
      · refine ⟨rfl, rfl, fun _ => ⟨?_, fun h => (nomatch h)⟩, fun h => absurd rfl h⟩
        intro t ht
        rw [← Option.some.inj ht]
        exact hmsk
      · exact ⟨rfl, rfl, fun h => (nomatch h), fun _ => rfl⟩

/-- Without an address the interface is down behind the first request. -/
theorem ifconfNamed_down (hset : env.setFlags = true) (nam : String) (mskS : Option String) :
    (ifconfNamed env iface nam none mskS).iface = { iface with flags := 0 } := by
  have hcall : ifconfNamed env iface nam none mskS =
      deleteIfRoute env { iface with flags := 0 } := by
    unfold ifconfNamed
    rw [hset]
    rfl
  rw [hcall]
  unfold deleteIfRoute
  split
  · rfl
  · split
    · rfl
    · split <;> rfl

/-- With an address: nothing more is done if it is not set, and otherwise the mask follows. -/
theorem setAddrAndMask_cases (env : IfEnv) (iface : Iface) (nam s : String)
    (mskS : Option String) :
    ((¬ ∃ a, AddressSet env (some s) a) ∧ (setAddrAndMask env iface nam s mskS).1 = iface ∧
        (setAddrAndMask env iface nam s mskS).2 ≠ none) ∨
      ∃ a, AddressSet env (some s) a ∧ setAddrAndMask env iface nam s mskS =
        setMask env { iface with address := a } nam mskS := by
  unfold setAddrAndMask
  cases haddr : env.inetAton s with
  | none =>
    refine Or.inl ⟨?_, rfl, fun h => (nomatch h)⟩
    rintro ⟨a, ha⟩
    rw [addressSet_some, haddr] at ha
    exact nomatch ha.2
  | some a =>
    dsimp only
    cases hok : env.setAddr with
    | true => exact Or.inr ⟨a, addressSet_some.mpr ⟨hok, haddr⟩, rfl⟩
    | false =>
      refine Or.inl ⟨?_, rfl, fun h => (nomatch h)⟩
      rintro ⟨a, ha⟩
      rw [addressSet_some, hok] at ha
      exact nomatch ha.1

/-- `cleanup` succeeds exactly if nothing failed, and brings the interface down otherwise. -/
theorem cleanup_cases (hundo : env.undo = true) (nam : String) (p : Iface × Option IfLine) :
    (p.2 = none ∧ (cleanup env nam p).rval = 0 ∧ (cleanup env nam p).iface = p.1) ∨
      (p.2 ≠ none ∧ (cleanup env nam p).rval = -1 ∧
        (cleanup env nam p).iface = { p.1 with flags := 0 }) := by
  obtain ⟨i, l⟩ := p
  unfold cleanup
  cases l with
  | none => exact Or.inl ⟨rfl, rfl, rfl⟩
  | some l =>
    refine Or.inr ⟨fun h => (nomatch h), ?_⟩
    dsimp only
    rw [if_pos hundo]
    exact ⟨rfl, rfl⟩

/-- With an address, the first request having succeeded. -/
theorem ifconfNamed_up (hset : env.setFlags = true) (hundo : env.undo = true) (nam s : String)
    (mskS : Option String) :
    DownOnFailure env iface (some nam) (some s) mskS
      (ifconfNamed env iface nam (some s) mskS) := by
  have hcall : ifconfNamed env iface nam (some s) mskS =
      cleanup env nam (setAddrAndMask env { iface with flags := iffUp } nam s mskS) := by
    unfold ifconfNamed
    rw [hset]
    rfl
  have hearly : some nam = none ∨ env.setFlags = false → False := by
    rintro (h | h)
    · cases h
    · rw [hset] at h
      cases h
  rw [hcall]
  rcases setAddrAndMask_cases env { iface with flags := iffUp } nam s mskS with
    ⟨hno, hkept, hfail⟩ | ⟨a, ha, hmask⟩
  · rcases cleanup_cases hundo nam
      (setAddrAndMask env { iface with flags := iffUp } nam s mskS) with
      ⟨hnone, -⟩ | ⟨-, hrval, hiface⟩
    · exact absurd hnone hfail
    · rw [hkept] at hiface
      refine ⟨fun h => (hearly h).elim, fun _ _ _ => ?_, fun h => ?_⟩
      · rw [hiface]
        exact ⟨rfl, rfl, fun a ha => absurd ⟨a, ha⟩ hno, fun _ => rfl⟩
      · rw [hrval] at h
        exact absurd h minusOne_ne
  · obtain ⟨-, haddr⟩ := addressSet_some.mp ha
    obtain ⟨hflags, haddress, hgood, hbad⟩ :=
      setMask_cases env { iface with flags := iffUp, address := a } nam mskS
    rw [hmask]
    rcases cleanup_cases hundo nam
      (setMask env { iface with flags := iffUp, address := a } nam mskS) with
      ⟨hnone, hrval, hiface⟩ | ⟨hsome, hrval, hiface⟩
    · refine ⟨fun h => (hearly h).elim, fun _ _ h => absurd hrval h, fun _ t ht => ?_⟩
      obtain rfl := Option.some.inj ht
      rw [hiface]
      exact ⟨hflags, by rw [haddress]; exact haddr, hgood hnone⟩
    · refine ⟨fun h => (hearly h).elim, fun _ _ _ => ?_, fun h => ?_⟩
      · rw [hiface]
        refine ⟨rfl, hbad hsome, fun b hb => ?_, fun hno => absurd ⟨a, ha⟩ hno⟩
        obtain ⟨-, hb⟩ := addressSet_some.mp hb
        rw [haddr] at hb
        exact haddress.trans (Option.some.inj hb)
      · rw [hrval] at h
        exact absurd h minusOne_ne

/-- **The outcome of `ifconf`.** For every interface, name, address and mask, whichever
    requests fail, as long as the flags can be cleared at `cleanup`:

    * a call without a name, or whose first request fails, changes nothing and returns -1;
    * a call that fails later leaves the interface down, with its netmask, and with its
      address unless the new one was set;
    * a call with an address that succeeds leaves the interface up, with exactly that address
      and with the mask that was given, or the one it had. -/
theorem ifconf_outcome (env : IfEnv) (hundo : env.undo = true) (iface : Iface)
    (nam addr mskS : Option String) :
    DownOnFailure env iface nam addr mskS (ifconf env iface nam addr mskS) := by
  cases nam with
  | none =>
    exact ⟨fun _ => ⟨rfl, rfl⟩, fun h => absurd rfl h, fun h => absurd h minusOne_ne⟩
  | some nam =>
    show DownOnFailure env iface (some nam) addr mskS (ifconfNamed env iface nam addr mskS)
    cases hset : env.setFlags with
    | false =>
      have hcall : ifconfNamed env iface nam addr mskS =
          ⟨-1, iface, none, [.unableToBring nam addr.isSome]⟩ := by
        unfold ifconfNamed
        rw [hset]
        rfl
      rw [hcall]
      refine ⟨fun _ => ⟨rfl, rfl⟩, fun _ h => ?_, fun h => absurd h minusOne_ne⟩
      rw [hset] at h
      cases h
    | true =>
      cases addr with
      | some s => exact ifconfNamed_up hset hundo nam s mskS
      | none =>
        have hdown : (ifconfNamed env iface nam none mskS).iface = { iface with flags := 0 } :=
          ifconfNamed_down hset nam mskS
        refine ⟨?_, fun _ _ _ => ?_, fun _ s hs => (nomatch hs)⟩
        · rintro (h | h)
          · cases h
          · rw [hset] at h
            cases h
        · rw [hdown]
          exact ⟨rfl, rfl, fun a ha => absurd ha addressSet_none, fun _ => rfl⟩

/-- All requests succeed; one string is an address. -/
def goodNetwork : IfEnv where
  setFlags := true
  getAddr := true
  getNetmask := true
  deleteRoute := true
  setAddr := true
  setNetmask := true
  undo := true
  inetAton
    | "10.0.0.2" => some 0x0a000002
    | _ => none

/-- An interface in use, with the address 10.0.0.1 in 10.0.0.0/24. -/
def liveIface : Iface := ⟨iffUp, 0x0a000001, 0xffffff00⟩

/-- A bad mask behind a good address. -/
theorem ifconf_outcome_live :
    let r := ifconf goodNetwork liveIface (some "en0") (some "10.0.0.2") (some "255.255.255")
    r.rval = -1 ∧ r.iface = ⟨0, 0x0a000002, 0xffffff00⟩ := by
  intro r
  have hrval : r.rval = -1 := by decide
  obtain ⟨hflags, hmask, haddr, -⟩ := (ifconf_outcome goodNetwork rfl liveIface (some "en0")
    (some "10.0.0.2") (some "255.255.255")).failed nofun rfl (hrval.trans_ne minusOne_ne)
  have haddress : r.iface.address = 0x0a000002 := haddr _ (addressSet_some.mpr ⟨rfl, rfl⟩)
  refine ⟨hrval, ?_⟩
  show (⟨r.iface.flags, r.iface.address, r.iface.netmask⟩ : Iface) = _
  rw [show r.iface.flags = 0 from hflags, haddress, show r.iface.netmask = _ from hmask]
  rfl

/-- A mistyped address takes the interface down, and a mistyped mask changes its address as
    well. -/
theorem ifconf_not_atomic :
    (ifconf goodNetwork liveIface (some "en0") (some "10.0.0.256") none).iface =
      ⟨0, 0x0a000001, 0xffffff00⟩ ∧
    (ifconf goodNetwork liveIface (some "en0") (some "10.0.0.2") (some "255.255.255")).iface =
      ⟨0, 0x0a000002, 0xffffff00⟩ ∧
    ¬ ∀ env iface nam addr mskS, env.undo = true →
      AllOrNothing env iface addr mskS (ifconf env iface nam addr mskS) := by
  refine ⟨by decide, by decide, fun h => ?_⟩
  have hfail := (h goodNetwork liveIface (some "en0") (some "10.0.0.256") none rfl).failed
    (by decide)
  have hchanged : (ifconf goodNetwork liveIface (some "en0") (some "10.0.0.256") none).iface ≠
      liveIface := by decide
  exact hchanged hfail

end SsrlApps.MiscUtils
