import Kcmsg.Library.ByteOrder
import Kcmsg.Library.Memory
import Kcmsg.Library.Program

/-!
# The message object

`Message` is one block of `maxMsgData` bytes with two cursors into it and a header record kept
beside it. `data` is modelled as a memory of which only the indices below `maxMsgData` are
allocated, so a copy that leaves them ends in `faults`; `size_t` arithmetic is arithmetic modulo
`2 ^ 64` (`sizeT`).

The header lives twice: in `hdr`, which every setter and getter uses, and in the first `0x18`
bytes of the block, which `readHeader` and `writeHeader` exchange with it.

    | 00 01 02 03 | 04 05 | 06 07 08 09 | 0A 0B | 0C 0D | 0E 0F |
    |   src_id    |src_org|   tgt_id    |tgt_org| trn_id|trn_app|

    | 10 11 | 12 13 14 15 | 16 17 | 18 19 1A 1B 1C 1D 1E 1F ....
    |trn_org|     ttl     | flags |msg_len|  user data ....
-/

namespace Kcmsg

/-! ## Constants -/

def maxMsgData : Nat := 0xFFFF

def msgFlagOnceAndOnlyOnce : UInt16 := (1 : UInt16) <<< 0
def msgFlagQuickDeath : UInt16 := (1 : UInt16) <<< 1
def msgFlagFragment : UInt16 := (1 : UInt16) <<< 2

def messageLengthOffset : Nat := 0x18

def headerSourceIdentOffset : Nat := 0x00
def headerSourceOrganizationOffset : Nat := 0x04
def headerTargetIdentOffset : Nat := 0x06
def headerTargetOrganizationOffset : Nat := 0x0A
def headerTransactionIdentOffset : Nat := 0x0C
def headerTransactionApplicationOffset : Nat := 0x0E
def headerTransactionOrganizationOffset : Nat := 0x10
def headerTtlOffset : Nat := 0x12
def headerFlagsOffset : Nat := 0x16

/-! ## Machine words -/

/-- A `size_t` result: what is left of it in 64 bits. -/
def sizeT (n : Nat) : Nat := n % 2 ^ 64

theorem sizeT_of_lt {n : Nat} (h : n < 2 ^ 64) : sizeT n = n := Nat.mod_eq_of_lt h

/-- What a `boost::endian::little_*_buf_t` of `w` bytes stores, on every host. -/
def littleBuf (w : Nat) {k : Nat} (x : BitVec k) : List UInt8 := leBytes w x.toNat

/-- `value()` of a `boost::endian::little_*_buf_t` of `k` bits. -/
def littleValue (k : Nat) (bytes : List UInt8) : BitVec k := BitVec.ofNat k (ofLE bytes)

@[simp] theorem length_littleBuf (w : Nat) {k : Nat} (x : BitVec k) :
    (littleBuf w x).length = w := length_leBytes w x.toNat

theorem littleValue_littleBuf {k w : Nat} (x : BitVec k) (hk : 2 ^ k ≤ 256 ^ w) :
    littleValue k (littleBuf w x) = x := ofNat_ofLE_leBytes x hk

/-! ## State -/

structure MessageHeader where
  sourceIdent : UInt32
  sourceOrganization : UInt16
  targetIdent : UInt32
  targetOrganization : UInt16
  transactionIdent : UInt16
  transactionApplication : UInt16
  transactionOrganization : UInt16
  ttl : UInt32
  flags : UInt16
  deriving DecidableEq, Repr, Inhabited

structure Message where
  data : Mem
  offset : Nat
  dataLength : Nat
  hdr : MessageHeader

namespace Message

/-- `memcpy(&data[dst], src, n)` into the message block. -/
def memcpyTo (dst : Nat) (src : List UInt8) : Program Message Unit := fun m =>
  if dst + src.length ≤ maxMsgData then .returns () { m with data := m.data.store dst src }
  else .faults

/-- `memcpy(dst, &data[src], n)` out of the message block. -/
def memcpyFrom (src n : Nat) : Program Message (List UInt8) := fun m =>
  if src + n ≤ maxMsgData then .returns (m.data.load src n) m else .faults

theorem run_memcpyTo {dst : Nat} {src : List UInt8} (m : Message)
    (h : dst + src.length ≤ maxMsgData) :
    (memcpyTo dst src).run m = .returns () { m with data := m.data.store dst src } := if_pos h

theorem run_memcpyFrom {src n : Nat} (m : Message) (h : src + n ≤ maxMsgData) :
    (memcpyFrom src n).run m = .returns (m.data.load src n) m := if_pos h

/-! ## The header in the block -/

def readHeader : Program Message Unit := do
  let srcId ← memcpyFrom headerSourceIdentOffset 4
  let srcOrg ← memcpyFrom headerSourceOrganizationOffset 2
  let tgtId ← memcpyFrom headerTargetIdentOffset 4
  let tgtOrg ← memcpyFrom headerTargetOrganizationOffset 2
  let transId ← memcpyFrom headerTransactionIdentOffset 2
  let transApp ← memcpyFrom headerTransactionApplicationOffset 2
  let transOrg ← memcpyFrom headerTransactionOrganizationOffset 2
  let ttl ← memcpyFrom headerTtlOffset 4
  let flags ← memcpyFrom headerFlagsOffset 2
  Program.modify fun m => { m with hdr := {
    sourceIdent := .ofBitVec (littleValue 32 srcId)
    sourceOrganization := .ofBitVec (littleValue 16 srcOrg)
    targetIdent := .ofBitVec (littleValue 32 tgtId)
    targetOrganization := .ofBitVec (littleValue 16 tgtOrg)
    transactionIdent := .ofBitVec (littleValue 16 transId)
    transactionApplication := .ofBitVec (littleValue 16 transApp)
    transactionOrganization := .ofBitVec (littleValue 16 transOrg)
    ttl := .ofBitVec (littleValue 32 ttl)
    flags := .ofBitVec (littleValue 16 flags) } }

def writeHeader : Program Message Unit := do
  let hdr := (← Program.get).hdr
  memcpyTo headerSourceIdentOffset (littleBuf 4 hdr.sourceIdent.toBitVec)
  memcpyTo headerSourceOrganizationOffset (littleBuf 2 hdr.sourceOrganization.toBitVec)
  memcpyTo headerTargetIdentOffset (littleBuf 4 hdr.targetIdent.toBitVec)
  memcpyTo headerTargetOrganizationOffset (littleBuf 2 hdr.targetOrganization.toBitVec)
  memcpyTo headerTransactionIdentOffset (littleBuf 2 hdr.transactionIdent.toBitVec)
  memcpyTo headerTransactionApplicationOffset (littleBuf 2 hdr.transactionApplication.toBitVec)
  memcpyTo headerTransactionOrganizationOffset (littleBuf 2 hdr.transactionOrganization.toBitVec)
  memcpyTo headerTtlOffset (littleBuf 4 hdr.ttl.toBitVec)
  memcpyTo headerFlagsOffset (littleBuf 2 hdr.flags.toBitVec)

/-! ## The length -/

def readMessageLength : Program Message Unit := do
  let msgLen ← memcpyFrom messageLengthOffset 2
  Program.modify fun m => { m with dataLength := (littleValue 16 msgLen).toNat }

/-- Advance `dataLength` and store its low 16 bits into the length field. -/
def updateDataLength (delta : Nat) : Program Message Unit := do
  Program.modify fun m => { m with dataLength := sizeT (m.dataLength + delta) }
  let m ← Program.get
  memcpyTo messageLengthOffset (leBytes 2 m.dataLength)

/-- The constructor: a zeroed block holding its own length. It does not touch `hdr`, which
starts out as whatever the memory held. -/
def new (hdr : MessageHeader) : Message where
  data := Mem.store (fun _ => 0) messageLengthOffset (leBytes 2 (messageLengthOffset + 2))
  offset := messageLengthOffset + 2
  dataLength := messageLengthOffset + 2
  hdr := hdr

def getMessageLength (m : Message) : Nat := m.dataLength

/-! ## Header fields -/

def setSourceIdentifier (id : UInt32) (m : Message) : Message :=
  { m with hdr.sourceIdent := id }

def getSourceIdentifier (m : Message) : UInt32 := m.hdr.sourceIdent

def setSourceOrganization (id : UInt16) (m : Message) : Message :=
  { m with hdr.sourceOrganization := id }

def getSourceOrganization (m : Message) : UInt16 := m.hdr.sourceOrganization

def setTargetIdentifier (id : UInt32) (m : Message) : Message :=
  { m with hdr.targetIdent := id }

def getTargetIdentifier (m : Message) : UInt32 := m.hdr.targetIdent

def setTargetOrganization (id : UInt16) (m : Message) : Message :=
  { m with hdr.targetOrganization := id }

def getTargetOrganization (m : Message) : UInt16 := m.hdr.targetOrganization

def setTransactionIdentifier (id : UInt16) (m : Message) : Message :=
  { m with hdr.transactionIdent := id }

def getTransactionIdentifier (m : Message) : UInt16 := m.hdr.transactionIdent

def setTransactionApplication (id : UInt16) (m : Message) : Message :=
  { m with hdr.transactionApplication := id }

def getTransactionApplication (m : Message) : UInt16 := m.hdr.transactionApplication

def setTransactionOrganization (id : UInt16) (m : Message) : Message :=
  { m with hdr.transactionOrganization := id }

def getTransactionOrganization (m : Message) : UInt16 := m.hdr.transactionOrganization

def setTTL (val : UInt32) (m : Message) : Message :=
  { m with hdr.ttl := val }

def getTTL (m : Message) : UInt32 := m.hdr.ttl

/-! ## Flags -/

/-- The body the three flag setters share. -/
def setFlag (flag : UInt16) (val : Bool) (m : Message) : Message :=
  if val then { m with hdr.flags := m.hdr.flags ||| flag }
  else { m with hdr.flags := m.hdr.flags &&& ~~~flag }

/-- The body the three flag getters share. -/
def isFlag (flag : UInt16) (m : Message) : Bool :=
  if m.hdr.flags &&& flag > 0 then true else false

def setOnceAndOnlyOnce : Bool → Message → Message := setFlag msgFlagOnceAndOnlyOnce
def isOnceAndOnlyOnce : Message → Bool := isFlag msgFlagOnceAndOnlyOnce
def setQuickDeath : Bool → Message → Message := setFlag msgFlagQuickDeath
def isQuickDeath : Message → Bool := isFlag msgFlagQuickDeath
def setMessageFragment : Bool → Message → Message := setFlag msgFlagFragment
def isMessageFragment : Message → Bool := isFlag msgFlagFragment

end Message

end Kcmsg
