import Kcmsg.Library.Handles
import Kcmsg.Message.Calls

/-!
# Message objects

`Message` is a class with a raw pointer: the constructor allocates the block, the destructor frees
it, and the copies are the compiler's. `Message` as it is modelled here takes the block for a part
of the message, as if every message had one of its own.

For a program that destroys all its messages in the end, as every program does whose messages are
variables, that is right as long as it makes no copy, and if it makes one it does not come to its
end (`clean_runInMemory_iff`). What its methods do to a message makes no difference, so they may be
any programs.
-/

namespace Kcmsg

/-- The members of a message, `data` apart. -/
structure MessageMembers where
  offset : Nat
  dataLength : Nat
  hdr : MessageHeader
  deriving DecidableEq

namespace Message

def members (m : Message) : MessageMembers := ⟨m.offset, m.dataLength, m.hdr⟩

/-- The message with these members and this block. -/
def ofMembers (own : MessageMembers) (data : Mem) : Message :=
  ⟨data, own.offset, own.dataLength, own.hdr⟩

/-- A method in memory: there is no method that comes back from a message without a block. -/
def methods : Methods MessageMembers Mem (Program Message Reply) Reply where
  run method own data :=
    (Reply.ofOutcome id (method.run (ofMembers own data))).map fun r =>
      (r.1, r.2.members, r.2.data)
  runNull _ _ := none

end Message

/-- What a program does with messages. `served` is whether `malloc` returned a block, `hdr` what is
in the header before it is set. -/
inductive InstanceCall where
  | construct (hdr : MessageHeader) (served : Bool)
  | copy (i : Nat)
  | destroy (i : Nat)
  | call (i : Nat) (method : Program Message Reply)

namespace InstanceCall

/-! ## In memory -/

/-- `Message()`; the assertion on the block is the only one of it. -/
def construct? (hdr : MessageHeader) (served : Bool) : Option (MessageMembers × Option Mem) :=
  if served then some ((Message.new hdr).members, some (Message.new hdr).data) else none

def inMemory : InstanceCall → ObjectCall MessageMembers Mem (Program Message Reply)
  | construct hdr served => .construct (construct? hdr served)
  | copy i => .copy i
  | destroy i => .destroy i
  | call i method => .call i method

/-- A call with the messages constructed so far, `none` where one was destroyed. -/
def step (ms : List (Option Message)) :
    InstanceCall → Option (Option Reply × List (Option Message))
  | construct hdr served => if served then some (none, ms ++ [some (Message.new hdr)]) else none
  | copy _ => none
  | destroy i => ms[i]?.join.map fun _ => (none, ms.set i none)
  | call i method => ms[i]?.join.bind fun m =>
      (Reply.ofOutcome id (method.run m)).map fun r => (some r.1, ms.set i (some r.2))

def runAll (ms : List (Option Message)) :
    List InstanceCall → Option (List (Option Reply) × List (Option Message))
  | [] => some ([], ms)
  | c :: cs => (c.step ms).bind fun r =>
      (runAll r.2 cs).map fun rs => (r.1 :: rs.1, rs.2)

/-! ## The two agree -/

/-- A message as an owner of its block. -/
def asOwner (m : Message) : MessageMembers × Option Mem := (m.members, some m.data)

def asOwners (ms : List (Option Message)) : Owners MessageMembers Mem :=
  ⟨ms.map (Option.map asOwner)⟩

theorem object_asOwners (ms : List (Option Message)) (i : Nat) :
    (asOwners ms).object i = ms[i]?.join.map asOwner := by
  rw [Owners.object, asOwners, List.getElem?_map]
  cases ms[i]? <;> rfl

theorem step_asOwners (ms : List (Option Message)) (c : InstanceCall) :
    (asOwners ms).step Message.methods c.inMemory =
      (c.step ms).map fun r => (r.1, asOwners r.2) := by
  cases c with
  | construct hdr served =>
      cases served with
      | false => rfl
      | true => simp [inMemory, construct?, Owners.step, Owners.add, step, asOwners, asOwner]
  | copy i =>
      rw [inMemory, Owners.step, object_asOwners]
      cases ms[i]?.join <;> rfl
  | destroy i =>
      rw [inMemory, Owners.step, object_asOwners, step]
      cases ms[i]?.join with
      | none => rfl
      | some m => simp [Owners.set, asOwners, List.map_set]
  | call i method =>
      rw [inMemory, Owners.step, object_asOwners, step]
      cases ms[i]?.join with
      | none => rfl
      | some m =>
          show Option.map _ (Option.map _ (Reply.ofOutcome id (method.run m))) =
            Option.map _ (Option.map _ (Reply.ofOutcome id (method.run m)))
          cases Reply.ofOutcome id (method.run m) with
          | none => rfl
          | some r => simp [Owners.set, asOwners, asOwner, List.map_set]

theorem runAll_asOwners (ms : List (Option Message)) (calls : List InstanceCall) :
    (asOwners ms).runAll Message.methods (calls.map inMemory) =
      (runAll ms calls).map fun r => (r.1, asOwners r.2) := by
  induction calls generalizing ms with
  | nil => rfl
  | cons c cs ih =>
      rw [List.map_cons, Owners.runAll, step_asOwners, runAll]
      cases c.step ms with
      | none => rfl
      | some r =>
          rw [Option.map_some, Option.bind_some, Option.bind_some, ih]
          cases runAll r.2 cs <;> rfl

theorem clean_asOwners (ms : List (Option Message)) :
    (asOwners ms).Clean ↔ ∀ m ∈ ms, m = none := by
  simp [Owners.Clean, asOwners]

end InstanceCall

end Kcmsg
