import Kcmsg.Connection.Basic
import Kcmsg.Library.ByteOrder
import Kcmsg.Library.Program

/-!
# The network interface object

A `NetworkInterface` is filled by its constructor from one record of `getifaddrs`. The pointers of
the record are optional addresses: `none` is one that must not be dereferenced, and a program that
does so ends in `faults`. `ifu_broadaddr` and `ifu_dstaddr` are members of a union, two names of
one pointer, so the record has one component for both of them, and whether there is an address
behind it is what the flags of the record announce.

An address carries that it is as large as its family says, so that no copy reads beyond it.
-/

namespace Kcmsg

/-! ## Constants -/

def iffBroadcast : UInt32 := 0x2
def iffPointToPoint : UInt32 := 0x10

def sizeofSockaddrIn : Nat := 16
def sizeofSockaddrIn6 : Nat := 28
def sizeofSockaddrStorage : Nat := 128

/-- `IFNAMSIZ` -/
def ifNamSiz : Nat := 16

/-- `sizeof( ifa->ifa_data )`: the size of a pointer. -/
def sizeofIfaData : Nat := 8

/-! ## Addresses -/

/-- The size of an address of a family; of an unknown one there is only the family. -/
def sockaddrSize (family : UInt16) : Nat :=
  if (family.toNat : Int) = afInet then sizeofSockaddrIn
  else if (family.toNat : Int) = afInet6 then sizeofSockaddrIn6
  else 2

structure Sockaddr where
  saFamily : UInt16
  /-- The bytes behind the family. -/
  saData : List UInt8
  complete : sockaddrSize saFamily ≤ 2 + saData.length

/-- An IPv4 or an IPv6 address. -/
def Sockaddr.IsIp (a : Sockaddr) : Prop :=
  (a.saFamily.toNat : Int) = afInet ∨ (a.saFamily.toNat : Int) = afInet6

/-- The address as `memcpy` sees it. -/
def Sockaddr.bytes (host : ByteOrder) (a : Sockaddr) : List UInt8 :=
  host.encode 2 a.saFamily.toNat ++ a.saData

abbrev SockaddrStorage := Vector UInt8 sizeofSockaddrStorage

namespace SockaddrStorage

def zero : SockaddrStorage := Vector.replicate sizeofSockaddrStorage 0

/-- `memcpy( &storage, src, n )` -/
def copy (s : SockaddrStorage) (src : List UInt8) : SockaddrStorage :=
  Vector.ofFn fun i => (src[i.val]?).getD s[i]

/-- The `switch` on the family of an address that is to be kept; it stands four times in the
constructor. -/
def keep (host : ByteOrder) (a : Sockaddr) (s : SockaddrStorage) : SockaddrStorage :=
  if (a.saFamily.toNat : Int) = afInet then s.copy ((a.bytes host).take sizeofSockaddrIn)
  else if (a.saFamily.toNat : Int) = afInet6 then s.copy ((a.bytes host).take sizeofSockaddrIn6)
  else s

/-- What is copied is in front, and what was behind it is still there. -/
theorem toList_copy (s : SockaddrStorage) {src : List UInt8}
    (hsrc : src.length ≤ sizeofSockaddrStorage) :
    (s.copy src).toList = src ++ s.toList.drop src.length := by
  apply List.ext_getElem
  · rw [Vector.length_toList, List.length_append, List.length_drop, Vector.length_toList]
    omega
  · intro i hi hi'
    simp only [copy, Vector.getElem_toList, Vector.getElem_ofFn, List.getElem_append,
      List.getElem_drop]
    by_cases hlt : i < src.length
    · rw [dif_pos hlt, List.getElem?_eq_getElem hlt, Option.getD_some]
    · have hindex : src.length + (i - src.length) = i := by omega
      rw [dif_neg hlt, List.getElem?_eq_none (Nat.le_of_not_lt hlt), Option.getD_none]
      simp only [hindex]
      rfl

theorem toList_zero : zero.toList = List.replicate sizeofSockaddrStorage 0 :=
  Vector.toList_replicate

/-- An IP address is kept with all the bytes of its family, and no others. -/
theorem toList_keep (host : ByteOrder) {a : Sockaddr} (ha : a.IsIp) (s : SockaddrStorage) :
    (s.keep host a).toList = (a.bytes host).take (sockaddrSize a.saFamily) ++
      s.toList.drop (sockaddrSize a.saFamily) := by
  have hbytes : sockaddrSize a.saFamily ≤ (a.bytes host).length := by
    have hcomplete := a.complete
    rwa [Sockaddr.bytes, List.length_append, ByteOrder.length_encode]
  have hlength : ((a.bytes host).take (sockaddrSize a.saFamily)).length =
      sockaddrSize a.saFamily := List.length_take_of_le hbytes
  have hkeep : s.keep host a = s.copy ((a.bytes host).take (sockaddrSize a.saFamily)) := by
    rw [keep, sockaddrSize]
    by_cases hinet : (a.saFamily.toNat : Int) = afInet
    · rw [if_pos hinet, if_pos hinet]
    · rw [if_neg hinet, if_neg hinet, if_pos (ha.resolve_left hinet),
        if_pos (ha.resolve_left hinet)]
  have hsize : sockaddrSize a.saFamily ≤ sizeofSockaddrStorage := by
    rw [sockaddrSize]
    split
    · decide
    · split <;> decide
  rw [hkeep, toList_copy s (by rwa [hlength]), hlength]

end SockaddrStorage

/-! ## Records -/

/-- A record of `getifaddrs`. -/
structure Ifaddrs where
  ifaName : List UInt8
  ifaFlags : UInt32
  ifaAddr : Option Sockaddr
  ifaNetmask : Option Sockaddr
  /-- `ifu_broadaddr` and `ifu_dstaddr` -/
  ifaIfu : Option Sockaddr
  /-- What `ifa_data` points to; a null pointer is tested for. -/
  ifaData : Option { bytes : List UInt8 // sizeofIfaData ≤ bytes.length }

/-- The members that describe the link; no operation but the constructor touches them. -/
structure LinkSettings where
  duplex : UInt8 := 0xFF
  port : UInt8 := 0x00
  physicalAddress : UInt8 := 0x00
  autoNegociate : UInt8 := 0x00
  mdioSupport : UInt8 := 0x00
  ethernetTpMdix : UInt8 := 0x00
  ethernetTpMdixControl : UInt8 := 0x00
  speed : UInt32 := 0x00
  linkModeMasksNWords : Int8 := 0x00
  reserved : UInt32 := 0x00
  linkModeMasksSupported : UInt32 := 0x00
  linkModeMasksAdvertising : UInt32 := 0x00
  linkModeMasksLPAdvertising : UInt32 := 0x00
  driverSupportsStatistics : Bool := false
  driverSupportsTest : Bool := false
  driverSupportsEEPROMAccess : Bool := false
  driverSupportsRegisterDump : Bool := false
  driverSupportsPrivledgeFlags : Bool := false

structure NetworkInterface where
  mName : List UInt8 := []
  mProtocol : List UInt8 := []
  mLink : LinkSettings := {}
  mFlags : UInt32 := 0
  mFamily : UInt32 := 0x00
  mNetworkAddress : SockaddrStorage := .zero
  mNetworkMask : SockaddrStorage := .zero
  mNetworkDestination : SockaddrStorage := .zero
  mData : Option (List UInt8) := none
  mIsWireless : Bool := false
  mIsBroadcast : Bool := false
  mIsBound : Bool := false

namespace NetworkInterface

/-! ## The constructor -/

/-- What the kernel answers to the calls of `testIsWireless`. -/
inductive WirelessAnswer where
  | noSocket
  | refused
  | named (protocol : List UInt8)

def testIsWireless : WirelessAnswer → Program NetworkInterface Bool
  | .noSocket => do
    Program.modify fun ni => { ni with mIsWireless := false }
    return false
  | .named protocol => do
    Program.modify fun ni => { ni with
      mProtocol := protocol
      mIsWireless := true }
    return true
  | .refused => do
    Program.modify fun ni => { ni with mIsWireless := false }
    return false

/-- The request for the link settings, if there is a second socket for it; nobody looks at the
answer. The name is copied with the length that it has, into `IFNAMSIZ` bytes. -/
def requestLink (linked : Bool) : Program NetworkInterface Unit := do
  let ni ← Program.get
  if linked then Program.orFault (if ni.mName.length ≤ ifNamSiz then some () else none)
  else pure ()

/-- The `switch` on the family of the address; both cases record the family `AF_INET`. -/
def collectAddress (host : ByteOrder) (a : Sockaddr) (ni : NetworkInterface) : NetworkInterface :=
  if (a.saFamily.toNat : Int) = afInet then
    { ni with
      mNetworkAddress := ni.mNetworkAddress.copy ((a.bytes host).take sizeofSockaddrIn)
      mIsBound := true
      mFamily := 2 }
  else if (a.saFamily.toNat : Int) = afInet6 then
    { ni with
      mNetworkAddress := ni.mNetworkAddress.copy ((a.bytes host).take sizeofSockaddrIn6)
      mIsBound := true
      mFamily := 2 }
  else ni

/-- `switch( p->sa_family )` on the destination. -/
def keepDestination (host : ByteOrder) (p : Option Sockaddr) : Program NetworkInterface Unit := do
  let a ← Program.orFault p
  Program.modify fun ni => { ni with mNetworkDestination := ni.mNetworkDestination.keep host a }

/-- The operator between the flags and the constants is `&&`. -/
def collectDestination (host : ByteOrder) (ifa : Ifaddrs) : Program NetworkInterface Unit :=
  if ifa.ifaFlags ≠ 0 ∧ iffBroadcast ≠ 0 then do
    Program.modify fun ni => { ni with mIsBroadcast := true }
    keepDestination host ifa.ifaIfu
  else if ifa.ifaFlags ≠ 0 ∧ iffPointToPoint ≠ 0 then do
    Program.modify fun ni => { ni with mIsBroadcast := false }
    keepDestination host ifa.ifaIfu
  else pure ()

/-- `served` is whether `malloc` returned a block. -/
def collectData (ifa : Ifaddrs) (served : Bool) : Program NetworkInterface Unit :=
  match ifa.ifaData with
  | none => pure ()
  | some bytes =>
      if served then
        Program.modify fun ni => { ni with mData := some (bytes.val.take sizeofIfaData) }
      else pure ()

/-- The constructor from the `switch` on the address on. -/
def collectAddresses (host : ByteOrder) (ifa : Ifaddrs) (served : Bool) :
    Program NetworkInterface Unit := do
  let addr ← Program.orFault ifa.ifaAddr
  Program.modify (collectAddress host addr)
  if (← Program.get).mIsBound then do
    let mask ← Program.orFault ifa.ifaNetmask
    Program.modify fun ni => { ni with mNetworkMask := ni.mNetworkMask.keep host mask }
    collectDestination host ifa
    collectData ifa served
  else pure ()

/-- The body of the constructor, behind the initialisation of the members. -/
def collect (host : ByteOrder) (ifa : Ifaddrs) (wireless : WirelessAnswer)
    (linked served : Bool) : Program NetworkInterface Unit := do
  Program.modify fun ni => { ni with
    mName := ifa.ifaName
    mFlags := ifa.ifaFlags }
  let isWireless ← testIsWireless wireless
  Program.modify fun ni => { ni with mIsWireless := isWireless }
  requestLink linked
  collectAddresses host ifa served

/-- The constructor: `wireless` and `linked` are what the kernel answers on its two sockets. -/
def new (host : ByteOrder) (ifa : Ifaddrs) (wireless : WirelessAnswer) (linked served : Bool) :
    Outcome NetworkInterface Unit := (collect host ifa wireless linked served).run {}

/-! ## Getters -/

def getName (ni : NetworkInterface) : List UInt8 := ni.mName
def getProtocol (ni : NetworkInterface) : List UInt8 := ni.mProtocol
def getFlags (ni : NetworkInterface) : UInt32 := ni.mFlags
def getNetworkAddress (ni : NetworkInterface) : SockaddrStorage := ni.mNetworkAddress
def getNetworkMask (ni : NetworkInterface) : SockaddrStorage := ni.mNetworkMask
def getNetworkDestination (ni : NetworkInterface) : SockaddrStorage := ni.mNetworkDestination
def isWireless (ni : NetworkInterface) : Bool := ni.mIsWireless
def isBroadcast (ni : NetworkInterface) : Bool := ni.mIsBroadcast
def isBound (ni : NetworkInterface) : Bool := ni.mIsBound

end NetworkInterface

end Kcmsg
