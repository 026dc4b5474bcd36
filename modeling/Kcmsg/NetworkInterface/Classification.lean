import Kcmsg.NetworkInterface.Basic

/-!
# Which interfaces are classified by their flags

The flags of a record announce which member of the union is meaningful: the broadcast address if
`IFF_BROADCAST` is set, else the address of the peer if `IFF_POINTOPOINT` is set, else none. The
constructor tests `ifa_flags && IFF_BROADCAST`, which is a test for any flag at all. What it does
is `new_of_flags` and `new_of_no_flags`: with a flag set it takes the interface for a broadcast one
and follows the pointer, so it does what the flags say exactly where that happens to be right, and
where it does not overflow before (`classifiedByFlags_iff`).
-/

namespace Kcmsg

/-- The bytes of a storage that holds the address and nothing else: those of a `sockaddr_in` or a
`sockaddr_in6`, and zeros. -/
def Sockaddr.stored (host : ByteOrder) (a : Sockaddr) : List UInt8 :=
  (a.bytes host).take (sockaddrSize a.saFamily) ++
    List.replicate (sizeofSockaddrStorage - sockaddrSize a.saFamily) 0

theorem SockaddrStorage.toList_keep_zero (host : ByteOrder) {a : Sockaddr} (ha : a.IsIp) :
    (SockaddrStorage.zero.keep host a).toList = a.stored host := by
  rw [toList_keep host ha, toList_zero, List.drop_replicate, Sockaddr.stored]

namespace Ifaddrs

/-- `IFF_BROADCAST` is set. -/
def HasBroadcast (ifa : Ifaddrs) : Prop := ifa.ifaFlags &&& iffBroadcast ≠ 0

/-- `IFF_POINTOPOINT` is set. -/
def HasPeer (ifa : Ifaddrs) : Prop := ifa.ifaFlags &&& iffPointToPoint ≠ 0

instance (ifa : Ifaddrs) : Decidable ifa.HasBroadcast :=
  inferInstanceAs (Decidable (_ ≠ _))

instance (ifa : Ifaddrs) : Decidable ifa.HasPeer :=
  inferInstanceAs (Decidable (_ ≠ _))

/-- A record with an IPv4 or IPv6 address and netmask, in which the union holds an address if the
flags announce one; if they do not, it may hold anything. -/
structure IsIpRecord (ifa : Ifaddrs) : Prop where
  addr : ∃ a, ifa.ifaAddr = some a ∧ a.IsIp
  netmask : ∃ a, ifa.ifaNetmask = some a ∧ a.IsIp
  announced : ifa.HasBroadcast ∨ ifa.HasPeer → ∃ a, ifa.ifaIfu = some a ∧ a.IsIp

/-- The same record with something else in the union. -/
def withIfu (ifa : Ifaddrs) (u : Option Sockaddr) : Ifaddrs := { ifa with ifaIfu := u }

/-- The address that the flags announce: the broadcast address, or that of the peer. -/
def announced (ifa : Ifaddrs) : Option Sockaddr :=
  if ifa.HasBroadcast ∨ ifa.HasPeer then ifa.ifaIfu else none

/-- The bytes of the announced destination, all zeros if there is none. -/
def announcedDestination (host : ByteOrder) (ifa : Ifaddrs) : List UInt8 :=
  match ifa.announced with
  | some a => a.stored host
  | none => List.replicate sizeofSockaddrStorage 0

/-- The name fits where it is copied to, if it is copied. -/
def NameFits (ifa : Ifaddrs) (linked : Bool) : Prop :=
  linked = true → ifa.ifaName.length ≤ ifNamSiz

end Ifaddrs

namespace NetworkInterface

/-- The constructor goes by the flag bits: it looks into the union only if one of the two bits is
set (whatever stands there otherwise, also a pointer to nowhere, makes no difference), the
interface is a broadcast one if the bit says so, and its destination is the announced one. -/
structure ClassifiedByFlags (host : ByteOrder) (ifa : Ifaddrs) (wireless : WirelessAnswer)
    (linked served : Bool) : Prop where
  reads : ¬ ifa.HasBroadcast → ¬ ifa.HasPeer →
    ∀ u, new host (ifa.withIfu u) wireless linked served = new host ifa wireless linked served
  result : ∃ ni, new host ifa wireless linked served = .returns () ni ∧
    (ni.isBroadcast = true ↔ ifa.HasBroadcast) ∧
    ni.getNetworkDestination.toList = ifa.announcedDestination host

/-! ## What the constructor does -/

section Constructor

variable (host : ByteOrder) {ifa : Ifaddrs} (wireless : WirelessAnswer) {linked : Bool}
  (served : Bool)

/-- The test for a wireless interface sets members that the rest of the constructor ignores. -/
theorem run_testIsWireless (ni : NetworkInterface) :
    ∃ result ni', (testIsWireless wireless).run ni = .returns result ni' ∧
      ni'.mName = ni.mName ∧ ni'.mIsBroadcast = ni.mIsBroadcast ∧
      ni'.mNetworkDestination = ni.mNetworkDestination := by
  cases wireless with
  | noSocket => exact ⟨false, _, rfl, rfl, rfl, rfl⟩
  | refused => exact ⟨false, _, rfl, rfl, rfl, rfl⟩
  | named protocol => exact ⟨true, _, rfl, rfl, rfl, rfl⟩

theorem run_requestLink {ni : NetworkInterface}
    (h : linked = true → ni.mName.length ≤ ifNamSiz) :
    (requestLink linked).run ni = .returns () ni := by
  rw [requestLink, Program.run_get_bind]
  cases linked with
  | false => rfl
  | true =>
      rw [if_pos rfl, if_pos (h rfl)]
      rfl

theorem run_requestLink_of_gt {ni : NetworkInterface} (h : ifNamSiz < ni.mName.length) :
    (requestLink true).run ni = .faults := by
  rw [requestLink, Program.run_get_bind, if_pos rfl, if_neg (Nat.not_le_of_lt h)]
  rfl

/-- Up to the request for the link settings. -/
theorem exists_new_eq_request (ifa : Ifaddrs) :
    ∃ ni : NetworkInterface, ni.mName = ifa.ifaName ∧ ni.mIsBroadcast = false ∧
      ni.mNetworkDestination = .zero ∧
      ∀ (u : Option Sockaddr) (linked : Bool), new host (ifa.withIfu u) wireless linked served =
        (requestLink linked >>= fun _ => collectAddresses host (ifa.withIfu u) served).run ni := by
  obtain ⟨result, ni, hwireless, hname, hbroadcast, hdestination⟩ := run_testIsWireless wireless
    { mName := ifa.ifaName
      mFlags := ifa.ifaFlags }
  refine ⟨{ ni with mIsWireless := result }, hname, hbroadcast, hdestination,
    fun u linked => ?_⟩
  unfold new collect
  rw [Program.run_bind_returns _ (Program.run_modify _ _)]
  refine (Program.run_bind_returns _ hwireless).trans ?_
  rw [Program.run_bind_returns _ (Program.run_modify _ _)]

/-- A name that does not fit where it is copied to ends the constructor. -/
theorem new_of_overflow (hlong : ifNamSiz < ifa.ifaName.length) :
    new host ifa wireless true served = .faults := by
  obtain ⟨ni, hname, -, -, hnew⟩ := exists_new_eq_request host wireless served ifa
  have hrun : new host ifa wireless true served = _ := hnew ifa.ifaIfu true
  rw [hrun]
  exact Program.run_bind_faults _ (run_requestLink_of_gt (hname ▸ hlong))

/-- An IP address binds the interface. -/
theorem collectAddress_of_isIp {a : Sockaddr} (ha : a.IsIp) (ni : NetworkInterface) :
    (collectAddress host a ni).mIsBound = true ∧
      (collectAddress host a ni).mIsBroadcast = ni.mIsBroadcast ∧
      (collectAddress host a ni).mNetworkDestination = ni.mNetworkDestination := by
  unfold collectAddress
  split
  · exact ⟨rfl, rfl, rfl⟩
  · next hne =>
      rw [if_pos (ha.resolve_left hne)]
      exact ⟨rfl, rfl, rfl⟩

/-- The data of the driver have nothing to do with the destination. -/
theorem run_collectData (ifa : Ifaddrs) (ni : NetworkInterface) :
    ∃ ni', (collectData ifa served).run ni = .returns () ni' ∧
      ni'.mIsBroadcast = ni.mIsBroadcast ∧ ni'.mNetworkDestination = ni.mNetworkDestination := by
  unfold collectData
  split
  · exact ⟨ni, rfl, rfl, rfl⟩
  · split
    · exact ⟨_, rfl, rfl, rfl⟩
    · exact ⟨ni, rfl, rfl, rfl⟩

/-- Up to the destination, the union is not looked at. -/
theorem exists_new_eq (hip : ifa.IsIpRecord) (hname : ifa.NameFits linked) :
    ∃ ni : NetworkInterface, ni.mIsBroadcast = false ∧ ni.mNetworkDestination = .zero ∧
      ∀ u, new host (ifa.withIfu u) wireless linked served =
        (collectDestination host (ifa.withIfu u) >>= fun _ =>
          collectData (ifa.withIfu u) served).run ni := by
  obtain ⟨a, haddr, ha⟩ := hip.addr
  obtain ⟨mask, hmask, -⟩ := hip.netmask
  obtain ⟨ni, hname', hbroadcast, hdestination, hnew⟩ :=
    exists_new_eq_request host wireless served ifa
  obtain ⟨hbound, hbroadcast', hdestination'⟩ := collectAddress_of_isIp host ha ni
  refine ⟨{ collectAddress host a ni with
    mNetworkMask := (collectAddress host a ni).mNetworkMask.keep host mask },
    hbroadcast'.trans hbroadcast, hdestination'.trans hdestination, fun u => ?_⟩
  have haddr' : (ifa.withIfu u).ifaAddr = some a := haddr
  have hmask' : (ifa.withIfu u).ifaNetmask = some mask := hmask
  have hrequest : (requestLink linked).run ni = .returns () ni :=
    run_requestLink fun hlinked => hname' ▸ hname hlinked
  rw [hnew, Program.run_bind_returns _ hrequest, collectAddresses, haddr', hmask',
    Program.run_bind_returns _ (Program.run_orFault_some a _),
    Program.run_bind_returns _ (Program.run_modify _ _), Program.run_get_bind, if_pos hbound,
    Program.run_bind_returns _ (Program.run_orFault_some mask _),
    Program.run_bind_returns _ (Program.run_modify _ _)]

/-- No flag is set: the union is left alone. -/
theorem new_of_no_flags (hip : ifa.IsIpRecord) (hname : ifa.NameFits linked)
    (hflags : ifa.ifaFlags = 0) :
    ∃ ni, (∀ u, new host (ifa.withIfu u) wireless linked served = .returns () ni) ∧
      ni.isBroadcast = false ∧ ni.getNetworkDestination = .zero := by
  obtain ⟨ni, hbroadcast, hdestination, hnew⟩ :=
    exists_new_eq host wireless served hip hname
  obtain ⟨ni', hdata, hbroadcast', hdestination'⟩ := run_collectData served ifa ni
  refine ⟨ni', fun u => ?_, hbroadcast'.trans hbroadcast, hdestination'.trans hdestination⟩
  have hnone : (collectDestination host (ifa.withIfu u)).run ni = .returns () ni := by
    unfold collectDestination
    rw [if_neg fun h => h.1 hflags, if_neg fun h => h.1 hflags]
    rfl
  rw [hnew, Program.run_bind_returns _ hnone]
  exact hdata

/-- Some flag is set: the interface counts as a broadcast one, and the pointer is followed. -/
theorem new_of_flags (hip : ifa.IsIpRecord) (hname : ifa.NameFits linked)
    (hflags : ifa.ifaFlags ≠ 0) :
    match ifa.ifaIfu with
    | some a => ∃ ni, new host ifa wireless linked served = .returns () ni ∧
        ni.isBroadcast = true ∧ ni.getNetworkDestination = SockaddrStorage.zero.keep host a
    | none => new host ifa wireless linked served = .faults := by
  obtain ⟨ni, hbroadcast, hdestination, hnew⟩ :=
    exists_new_eq host wireless served hip hname
  have hrun : new host ifa wireless linked served = _ := hnew ifa.ifaIfu
  have hcollect : collectDestination host ifa = (do
      Program.modify fun ni => { ni with mIsBroadcast := true }
      keepDestination host ifa.ifaIfu) := if_pos ⟨hflags, by decide⟩
  split
  · next a hifu =>
      obtain ⟨ni', hdata, hbroadcast', hdestination'⟩ := run_collectData served ifa
        { ni with
          mIsBroadcast := true
          mNetworkDestination := ni.mNetworkDestination.keep host a }
      have hkeep : (collectDestination host ifa).run ni = .returns ()
          { ni with
            mIsBroadcast := true
            mNetworkDestination := ni.mNetworkDestination.keep host a } := by
        rw [hcollect, hifu]
        rfl
      refine ⟨ni', ?_, hbroadcast', ?_⟩
      · exact hrun.trans ((Program.run_bind_returns _ hkeep).trans hdata)
      · rw [← hdestination]
        exact hdestination'
  · next hifu =>
      have hkeep : (collectDestination host ifa).run ni = .faults := by
        rw [hcollect, hifu]
        rfl
      exact hrun.trans (Program.run_bind_faults _ hkeep)

end Constructor

/-- A record that is classified by its flags has a name that fits. -/
theorem ClassifiedByFlags.nameFits {host : ByteOrder} {ifa : Ifaddrs} {wireless : WirelessAnswer}
    {linked served : Bool} (h : ClassifiedByFlags host ifa wireless linked served) :
    ifa.NameFits linked := by
  intro hlinked
  subst hlinked
  obtain ⟨ni, hnew, -⟩ := h.result
  by_contra hlong
  cases hnew.symm.trans (new_of_overflow host wireless served (Nat.lt_of_not_le hlong))

/-- **An interface is classified by its flag bits exactly when no flag is set or the broadcast bit
is**, and its name fits where it is copied to. -/
theorem classifiedByFlags_iff (host : ByteOrder) {ifa : Ifaddrs} (hip : ifa.IsIpRecord)
    (wireless : WirelessAnswer) (linked served : Bool) :
    ClassifiedByFlags host ifa wireless linked served ↔
      (ifa.ifaFlags = 0 ∨ ifa.HasBroadcast) ∧ ifa.NameFits linked := by
  constructor
  · intro h
    have hname := h.nameFits
    refine ⟨?_, hname⟩
    by_cases hflags : ifa.ifaFlags = 0
    · exact .inl hflags
    · right
      obtain ⟨ni, hnew, hbroadcast, -⟩ := h.result
      have hrun := new_of_flags host wireless served hip hname hflags
      split at hrun
      · obtain ⟨ni', hnew', hbroadcast', -⟩ := hrun
        cases hnew.symm.trans hnew'
        exact hbroadcast.mp hbroadcast'
      · cases hnew.symm.trans hrun
  · rintro ⟨hflags | hbit, hname⟩
    · have hnone : ¬ ifa.HasBroadcast ∧ ¬ ifa.HasPeer := by
        simp [Ifaddrs.HasBroadcast, Ifaddrs.HasPeer, hflags]
      obtain ⟨ni, hnew, hbroadcast, hdestination⟩ :=
        new_of_no_flags host wireless served hip hname hflags
      have hself : new host ifa wireless linked served = .returns () ni := hnew ifa.ifaIfu
      refine ⟨fun _ _ u => (hnew u).trans hself.symm, ni, hself, ?_, ?_⟩
      · simp [hbroadcast, hnone.1]
      · rw [hdestination, Ifaddrs.announcedDestination, Ifaddrs.announced,
          if_neg (not_or.mpr hnone)]
        exact SockaddrStorage.toList_zero
    · have hflags : ifa.ifaFlags ≠ 0 := by
        intro hzero
        apply hbit
        simp [hzero]
      obtain ⟨a, hifu, ha⟩ := hip.announced (.inl hbit)
      have hrun := new_of_flags host wireless served hip hname hflags
      simp only [hifu] at hrun
      obtain ⟨ni, hnew, hbroadcast, hdestination⟩ := hrun
      refine ⟨fun hnot => absurd hbit hnot, ni, hnew, iff_of_true hbroadcast hbit, ?_⟩
      rw [hdestination, Ifaddrs.announcedDestination, Ifaddrs.announced, if_pos (.inl hbit), hifu]
      exact SockaddrStorage.toList_keep_zero host ha

/-- An IPv4 address, with port zero and the padding of `sockaddr_in`. -/
def ipv4 (a b c d : UInt8) : Sockaddr where
  saFamily := 2
  saData := [0, 0, a, b, c, d, 0, 0, 0, 0, 0, 0, 0, 0]
  complete := show sockaddrSize 2 ≤ 16 by decide

theorem ipv4_isIp (a b c d : UInt8) : (ipv4 a b c d).IsIp := .inl (by rfl)

/-- A record with an IPv4 address and a class C netmask. -/
def ipv4Record (flags : UInt32) (ifu : Option Sockaddr) : Ifaddrs where
  ifaName := [0x69, 0x66, 0x30]
  ifaFlags := flags
  ifaAddr := some (ipv4 192 168 1 7)
  ifaNetmask := some (ipv4 255 255 255 0)
  ifaIfu := ifu
  ifaData := none

theorem isIpRecord_ipv4Record {flags : UInt32} {ifu : Option Sockaddr}
    (h : (ipv4Record flags ifu).HasBroadcast ∨ (ipv4Record flags ifu).HasPeer →
      ∃ a, ifu = some a ∧ a.IsIp) : (ipv4Record flags ifu).IsIpRecord where
  addr := ⟨_, rfl, ipv4_isIp _ _ _ _⟩
  netmask := ⟨_, rfl, ipv4_isIp _ _ _ _⟩
  announced := h

/-- `UP`, `BROADCAST`, `RUNNING` and `MULTICAST`, with a broadcast address. -/
theorem classifiedByFlags_ethernet :
    ClassifiedByFlags .little (ipv4Record 0x1043 (some (ipv4 192 168 1 255))) .refused true true :=
  (classifiedByFlags_iff .little
    (isIpRecord_ipv4Record fun _ => ⟨_, rfl, ipv4_isIp _ _ _ _⟩) .refused true true).mpr
    ⟨.inr (by decide), fun _ => by decide⟩

/-- A loopback interface (`UP`, `LOOPBACK`, `RUNNING`) with nothing in the union is a fault, and a
tunnel (`UP`, `POINTOPOINT`, `RUNNING`, `NOARP`, `MULTICAST`) is a broadcast interface. -/
theorem not_classifiedByFlags_loopback :
    ¬ ClassifiedByFlags .little (ipv4Record 0x49 none) .refused true true ∧
      ¬ ClassifiedByFlags .little (ipv4Record 0x10D1 (some (ipv4 192 168 1 1))) .refused true
        true := by
  have hname (flags : UInt32) (ifu : Option Sockaddr) : (ipv4Record flags ifu).NameFits true :=
    fun _ => (by decide : 3 ≤ ifNamSiz)
  constructor
  · rintro ⟨-, ni, hnew, -, -⟩
    have hip : (ipv4Record 0x49 none).IsIpRecord :=
      isIpRecord_ipv4Record fun h => absurd h (by decide)
    have hfaults : new .little (ipv4Record 0x49 none) .refused true true = .faults :=
      new_of_flags .little .refused true hip (hname _ _) (by decide)
    cases hnew.symm.trans hfaults
  · rintro ⟨-, ni, hnew, hbroadcast, -⟩
    have hip : (ipv4Record 0x10D1 (some (ipv4 192 168 1 1))).IsIpRecord :=
      isIpRecord_ipv4Record fun _ => ⟨_, rfl, ipv4_isIp _ _ _ _⟩
    obtain ⟨ni', hnew', hbroadcast', -⟩ :=
      new_of_flags .little .refused true hip (hname _ _) (by decide)
    cases hnew.symm.trans hnew'
    exact absurd (hbroadcast.mp hbroadcast') (by decide)

end NetworkInterface

end Kcmsg
