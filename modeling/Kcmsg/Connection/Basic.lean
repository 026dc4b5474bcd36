import Kcmsg.Library.Memory
import Kcmsg.Library.Program

/-!
# The connection object

A `Connection` owns one socket and an address. Its operations come in the form they have from the
answer of the kernel on: `bind res` is what `Bind()` does once `bind(fd, addr, length)` has
returned `res`. The calls they make are a type of their own, `SystemCall`, which says on which
descriptor each of them is made.

`connect` assigns the result of the call to the descriptor before it tests it. No other operation
changes it.
-/

namespace Kcmsg

/-! ## Constants -/

def maxAddrLen : Nat := 104

def afInet : Int := 2
def afInet6 : Int := 10

def sockStream : Int := 1
def sockDgram : Int := 2
def sockRaw : Int := 3
def sockSeqpacket : Int := 5

def ipprotoTcp : Int := 6
def ipprotoUdp : Int := 17
def ipprotoSctp : Int := 132

/-! ## State -/

structure AddrStorage where
  length : UInt32
  addr : Vector UInt8 maxAddrLen
  port : UInt16

structure ConnectionStorage where
  fd : Int
  addr : AddrStorage

structure Connection where
  listenMax : Int32
  family : Int
  protocolType : Int
  protocol : Int
  conn : ConnectionStorage
  clients : List ConnectionStorage

/-- `{0}` -/
def ConnectionStorage.zero : ConnectionStorage := ⟨0, ⟨0, Vector.replicate maxAddrLen 0, 0⟩⟩

/-- The address length the constructor and `Accept` choose for a family. -/
def addrLength (family : Int) : UInt32 :=
  if family = afInet then 16
  else if family = afInet6 then 28
  else 1 + UInt32.ofNat maxAddrLen

/-- `memcpy(addr, src, n)` into the beginning of an address. -/
def copyAddr (addr : Vector UInt8 maxAddrLen) (src : List UInt8) : Vector UInt8 maxAddrLen :=
  Vector.ofFn fun i => (src[i.val]?).getD addr[i]

/-- A call to the kernel, with its arguments. -/
inductive SystemCall where
  | bind (fd : Int) (addr : AddrStorage)
  | listen (fd : Int) (backlog : Int32)
  | connect (fd : Int) (addr : AddrStorage)
  | accept (fd : Int) (addr : AddrStorage)
  | read (fd : Int) (ptr nleft : Nat)
  | write (fd : Int) (ptr nleft : Nat)

/-- The descriptor the call is made on. -/
def SystemCall.fd : SystemCall → Int
  | bind fd _ => fd
  | listen fd _ => fd
  | connect fd _ => fd
  | accept fd _ => fd
  | read fd _ _ => fd
  | write fd _ _ => fd

namespace Connection

/-- The constructor, with the descriptor `socket()` returned; none if an assertion fails. -/
def new (fam t p : Int) (maxthreads : Int32) (fd : Int) : Option Connection :=
  if (fam = afInet ∨ fam = afInet6) ∧
      (t = sockStream ∨ t = sockDgram ∨ t = sockSeqpacket ∨ t = sockRaw) ∧
      (p = ipprotoTcp ∨ p = ipprotoUdp ∨ p = ipprotoSctp) then
    some {
      listenMax := maxthreads
      family := fam
      protocolType := t
      protocol := p
      conn := { ConnectionStorage.zero with
        fd := fd
        addr.length := addrLength fam }
      clients := [] }
  else none

def getDescriptor (c : Connection) : Int := c.conn.fd

/-- `std::ios_base::failure( text )`: its `what()` names the error code behind the text. -/
def iosFailure (text : String) : String := text ++ ": iostream error"

/-- The parameter is unsigned, the member is not. -/
def setListenerQueueSize (s : UInt32) : Program Connection Unit :=
  Program.modify fun c => { c with listenMax := s.toInt32 }

/-- The `switch` on the family in `resolveHost`. -/
def storeAddress (aiAddr : Mem) (c : Connection) : Connection :=
  if c.family = afInet then
    { c with
      conn.addr.length := 16
      conn.addr.addr := copyAddr c.conn.addr.addr (aiAddr.load 0 16) }
  else if c.family = afInet6 then
    { c with
      conn.addr.length := 28
      conn.addr.addr := copyAddr c.conn.addr.addr (aiAddr.load 0 28) }
  else c

/-- `resolveHost` of strings, from the answer of `getaddrinfo` on; `aiAddr` is what the first
result points to. -/
def resolveHost (res : Int) (aiAddr : Mem) : Program Connection Int :=
  if res ≠ 0 then Program.throw (iosFailure "Unable to resolve host/service address")
  else do
    Program.modify (storeAddress aiAddr)
    return res

/-- `resolveHost` of wide strings: all of its body is a comment. -/
def resolveHostWide : Program Connection Int := return 0

def bind (res : Int) : Program Connection Unit := do
  if res < 0 then Program.throw (iosFailure "Unable to Bind()") else pure ()

def listen (res : Int) : Program Connection Unit := do
  if res < 0 then Program.throw (iosFailure "Unable to Listen()") else pure ()

def connect (res : Int) : Program Connection Unit := do
  -- `conn.fd = connect(conn.fd, ...)`
  Program.modify fun c => { c with conn.fd := res }
  if res < 0 then Program.throw (iosFailure "Unable to Connect()") else pure ()

/-- The address of the client is a local and goes out of scope with the call. -/
def accept (res errno : Int) : Program Connection Bool := do
  if res < 0 then return errno != 0 else return true

/-! ## Which operations leave the descriptor alone -/

/-- The connection still has the descriptor it had. -/
def SameDescriptor (c c' : Connection) : Prop := c'.conn.fd = c.conn.fd

section SameDescriptor

open Program

theorem SameDescriptor.refl (c : Connection) : c.SameDescriptor c := rfl

theorem SameDescriptor.trans {a b c : Connection} (hab : a.SameDescriptor b)
    (hbc : b.SameDescriptor c) : a.SameDescriptor c := Eq.trans hbc hab

theorem sameDescriptor_throw {α : Type} (what : String) :
    Preserves SameDescriptor (throw what : Program Connection α) := by
  intro c c' hc'
  cases hc'
  rfl

theorem sameDescriptor_setListenerQueueSize (s : UInt32) :
    Preserves SameDescriptor (setListenerQueueSize s) := preserves_modify fun _ => rfl

theorem sameDescriptor_resolveHost (res : Int) (aiAddr : Mem) :
    Preserves SameDescriptor (resolveHost res aiAddr) := by
  unfold resolveHost
  split
  · exact sameDescriptor_throw _
  · refine preserves_bind .trans (preserves_modify fun c => ?_) fun _ => preserves_pure .refl _
    unfold storeAddress
    split
    · rfl
    · split <;> rfl

theorem sameDescriptor_bind (res : Int) : Preserves SameDescriptor (bind res) := by
  unfold bind
  split
  · exact sameDescriptor_throw _
  · exact preserves_pure .refl _

theorem sameDescriptor_listen (res : Int) : Preserves SameDescriptor (listen res) := by
  unfold listen
  split
  · exact sameDescriptor_throw _
  · exact preserves_pure .refl _

theorem sameDescriptor_accept (res errno : Int) :
    Preserves SameDescriptor (accept res errno) := by
  unfold accept
  split <;> exact preserves_pure .refl _

end SameDescriptor

/-- After `connect` the descriptor is the result of the call, whether it throws or not. -/
theorem connect_descriptor (res : Int) :
    Program.Preserves (fun _ c' => c'.conn.fd = res) (connect res) := by
  intro c c' hc'
  unfold connect at hc'
  rw [Program.run_bind_returns _ (Program.run_modify _ c)] at hc'
  split at hc'
  · cases hc'
    rfl
  · cases hc'
    rfl

end Connection

end Kcmsg
