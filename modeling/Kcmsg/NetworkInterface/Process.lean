import Kcmsg.Library.Handles
import Kcmsg.Library.Terminated
import Kcmsg.NetworkInterface.Classification

/-!
# Interfaces in a process

The constructor of a `NetworkInterface` opens two sockets and closes one. The request it makes on
the first, to find out whether the interface is wireless, has the name of the interface where the
kernel puts its answer, and no name where the kernel looks for one. And the object is a class with
a raw pointer, like a message.

So what becomes of a record does not depend on the record alone but on how many interfaces the
process has constructed before, and there is one answer for all of them as long as there are
descriptors (`answer`); then there are none, and every interface is wired. `clean_runAll_iff` says
so of all programs that destroy their interfaces in the end.
-/

namespace Kcmsg

/-- `strncpy` into `n` zeros. -/
def strncpy (src : List UInt8) (n : Nat) : List UInt8 := (cutAt 0 src ++ List.replicate n 0).take n

/-- `struct iwreq`: the name of the interface, and the space for the answer. -/
structure Iwreq where
  ifrName : List UInt8
  uName : List UInt8

/-- The descriptors of a process. -/
structure DescriptorTable where
  limit : Nat
  used : Nat
  deriving DecidableEq

namespace DescriptorTable

/-- `socket( .. ) != -1` -/
def socket : Program DescriptorTable Bool := fun t =>
  if t.used < t.limit then .returns true { t with used := t.used + 1 } else .returns false t

def close : Program DescriptorTable Unit := Program.modify fun t => { t with used := t.used - 1 }

end DescriptorTable

namespace NetworkInterface

open DescriptorTable

/-! ## Sockets -/

/-- The request of `testIsWireless`. -/
def wirelessRequest (mName : List UInt8) : Iwreq where
  ifrName := List.replicate ifNamSiz 0
  uName := strncpy mName ifNamSiz

/-- `ioctl( sock, SIOCGIWNAME, &pwrq )`, from what the kernel knows of the interface of a name. -/
def ioctl (protocolOf : List UInt8 → Option (List UInt8)) (pwrq : Iwreq) : Option (List UInt8) :=
  protocolOf (cutAt 0 pwrq.ifrName)

/-- The calls to the kernel in `testIsWireless`. -/
def askWireless (protocolOf : List UInt8 → Option (List UInt8)) (mName : List UInt8) :
    Program DescriptorTable WirelessAnswer := do
  if ← socket then
    match ioctl protocolOf (wirelessRequest mName) with
    | some protocol =>
        close
        return .named protocol
    | none =>
        close
        return .refused
  else return .noSocket

/-- The sockets of the constructor: the one of `testIsWireless`, and the one for the link settings,
which nobody closes. -/
def openSockets (protocolOf : List UInt8 → Option (List UInt8)) (mName : List UInt8) :
    Program DescriptorTable (WirelessAnswer × Bool) := do
  let wireless ← askWireless protocolOf mName
  let linked ← socket
  return (wireless, linked)

/-! ## Processes -/

/-- The members of an interface without its data, and the data. -/
def parts (ni : NetworkInterface) : NetworkInterface × Option (List UInt8) :=
  ({ ni with mData := none }, ni.mData)

/-- The object that the constructor makes of a record, if it comes back. -/
def made (host : ByteOrder) (ifa : Ifaddrs) (wireless : WirelessAnswer) (linked served : Bool) :
    Option (NetworkInterface × Option (List UInt8)) :=
  match new host ifa wireless linked served with
  | .returns () ni => some ni.parts
  | _ => none

/-- Every getter returns a part of the members; there is none for the data. -/
def methods : Methods NetworkInterface (List UInt8) Unit NetworkInterface where
  run _ own data := some (own, own, data)
  runNull _ own := some (own, own)

end NetworkInterface

/-- What a program does with interfaces; `look` stands for the getters. -/
inductive InterfaceCall where
  | construct (ifa : Ifaddrs) (served : Bool)
  | copy (i : Nat)
  | destroy (i : Nat)
  | look (i : Nat)

/-- A process: its descriptors, the interfaces it has complained about on `std::cout`, and its
objects. -/
structure Process where
  table : DescriptorTable
  printed : List (List UInt8)
  memory : Handles NetworkInterface (List UInt8)

namespace Process

variable (host : ByteOrder) (protocolOf : List UInt8 → Option (List UInt8))

def start (table : DescriptorTable) : Process := ⟨table, [], Handles.start⟩

/-- A call that is about the memory only. -/
def inMemory (s : Process) (c : ObjectCall NetworkInterface (List UInt8) Unit) :
    Option (Option NetworkInterface × Process) :=
  (s.memory.step NetworkInterface.methods c).map fun r => (r.1, { s with memory := r.2 })

def step (s : Process) : InterfaceCall → Option (Option NetworkInterface × Process)
  | .construct ifa served =>
      match (NetworkInterface.openSockets protocolOf ifa.ifaName).run s.table with
      | .returns (wireless, linked) table =>
          let printed := if linked then s.printed else s.printed ++ [ifa.ifaName]
          inMemory ⟨table, printed, s.memory⟩
            (.construct (NetworkInterface.made host ifa wireless linked served))
      | _ => none
  | .copy i => s.inMemory (.copy i)
  | .destroy i => s.inMemory (.destroy i)
  | .look i => s.inMemory (.call i ())

def runAll (s : Process) : List InterfaceCall → Option (List (Option NetworkInterface) × Process)
  | [] => some ([], s)
  | c :: cs => (step host protocolOf s c).bind fun r =>
      (runAll r.2 cs).map fun rs => (r.1 :: rs.1, rs.2)

end Process

/-! ## What becomes of a record -/

/-- The interfaces as values, and how many there have been. -/
structure Interfaces where
  constructed : Nat
  objects : List (Option NetworkInterface)

namespace Interfaces

variable (host : ByteOrder) (protocolOf : List UInt8 → Option (List UInt8)) (free : Nat)

/-- The interface number `k` gets a socket for its link settings. -/
def linked (k : Nat) : Bool := decide (k < free)

/-- The answer that the interface number `k` gets, where there were `free` descriptors: as long as
there is one it is the answer for an interface without a name. -/
def answer (k : Nat) : NetworkInterface.WirelessAnswer :=
  if k < free then
    match protocolOf [] with
    | some protocol => .named protocol
    | none => .refused
  else .noSocket

/-- The name does not fit where it is copied to, and is copied. -/
def Overflows (k : Nat) (mName : List UInt8) : Prop := k < free ∧ ifNamSiz < mName.length

instance (k : Nat) (mName : List UInt8) : Decidable (Overflows free k mName) :=
  inferInstanceAs (Decidable (_ ∧ _))

def step (s : Interfaces) : InterfaceCall → Option (Option NetworkInterface × Interfaces)
  | .construct ifa served =>
      if Overflows free s.constructed ifa.ifaName then none
      else
        match NetworkInterface.new host ifa (answer protocolOf free s.constructed)
          (linked free s.constructed) served with
        | .returns () ni => some (none, ⟨s.constructed + 1, s.objects ++ [some ni]⟩)
        | _ => none
  | .copy i => s.objects[i]?.join.bind fun ni =>
      if ni.mData.isNone then some (none, ⟨s.constructed, s.objects ++ [some ni]⟩) else none
  | .destroy i => s.objects[i]?.join.map fun _ => (none, ⟨s.constructed, s.objects.set i none⟩)
  | .look i => s.objects[i]?.join.map fun ni =>
      (some { ni with mData := none }, s)

def runAll (s : Interfaces) :
    List InterfaceCall → Option (List (Option NetworkInterface) × Interfaces)
  | [] => some ([], s)
  | c :: cs => (step host protocolOf free s c).bind fun r =>
      (runAll r.2 cs).map fun rs => (r.1 :: rs.1, rs.2)

end Interfaces

/-! ## Descriptors -/

namespace InterfaceCall

/-- The name of the interface that is constructed. -/
def name : InterfaceCall → Option (List UInt8)
  | construct ifa _ => some ifa.ifaName
  | _ => none

def names (calls : List InterfaceCall) : List (List UInt8) := calls.filterMap name

end InterfaceCall

namespace DescriptorTable

/-- The descriptors after `k` interfaces. -/
def after (t : DescriptorTable) (k : Nat) : DescriptorTable :=
  { t with used := max t.used (min t.limit (t.used + k)) }

/-- The descriptors there were at the start. -/
def free (t : DescriptorTable) : Nat := t.limit - t.used

theorem after_zero (t : DescriptorTable) : t.after 0 = t := by
  have hused : max t.used (min t.limit (t.used + 0)) = t.used := by omega
  rw [after, hused]

theorem after_used_lt_iff (t : DescriptorTable) (k : Nat) :
    (t.after k).used < (t.after k).limit ↔ k < t.free := by
  show max t.used (min t.limit (t.used + k)) < t.limit ↔ k < t.limit - t.used
  omega

theorem after_succ_of_lt {t : DescriptorTable} {k : Nat} (hk : k < t.free) :
    { t.after k with used := (t.after k).used + 1 } = t.after (k + 1) := by
  have hfree : k < t.limit - t.used := hk
  simp only [after, DescriptorTable.mk.injEq, true_and]
  omega

theorem after_succ_of_le {t : DescriptorTable} {k : Nat} (hk : t.free ≤ k) :
    t.after k = t.after (k + 1) := by
  have hfree : t.limit - t.used ≤ k := hk
  simp only [after, DescriptorTable.mk.injEq, true_and]
  omega

theorem run_socket_of_lt {t : DescriptorTable} (h : t.used < t.limit) :
    socket.run t = .returns true { t with used := t.used + 1 } := if_pos h

theorem run_socket_of_le {t : DescriptorTable} (h : ¬ t.used < t.limit) :
    socket.run t = .returns false t := if_neg h

end DescriptorTable

namespace NetworkInterface

variable {protocolOf : List UInt8 → Option (List UInt8)} {t : DescriptorTable} {k : Nat}

/-- The kernel is never asked about the interface itself. -/
theorem ioctl_wirelessRequest (mName : List UInt8) :
    ioctl protocolOf (wirelessRequest mName) = protocolOf [] := by
  have hname : cutAt 0 (List.replicate ifNamSiz (0 : UInt8)) = [] := by decide
  rw [ioctl, wirelessRequest, hname]

/-- The socket that the question is asked on is closed again. -/
theorem run_askWireless (mName : List UInt8) :
    (askWireless protocolOf mName).run (t.after k) =
      .returns (Interfaces.answer protocolOf t.free k) (t.after k) := by
  have hlt := t.after_used_lt_iff k
  rw [askWireless, Interfaces.answer]
  by_cases hk : k < t.free
  · rw [Program.run_bind_returns _ (DescriptorTable.run_socket_of_lt (hlt.mpr hk)), if_pos rfl,
      if_pos hk, ioctl_wirelessRequest]
    cases protocolOf [] <;> rfl
  · rw [Program.run_bind_returns _ (DescriptorTable.run_socket_of_le (mt hlt.mp hk)),
      if_neg Bool.false_ne_true, if_neg hk]
    rfl

/-- The other one is kept. -/
theorem run_socket_after (t : DescriptorTable) (k : Nat) :
    DescriptorTable.socket.run (t.after k) =
      .returns (Interfaces.linked t.free k) (t.after (k + 1)) := by
  have hlt := t.after_used_lt_iff k
  rw [Interfaces.linked]
  by_cases hk : k < t.free
  · rw [DescriptorTable.run_socket_of_lt (hlt.mpr hk), DescriptorTable.after_succ_of_lt hk,
      decide_eq_true hk]
  · rw [DescriptorTable.run_socket_of_le (mt hlt.mp hk), decide_eq_false hk,
      ← DescriptorTable.after_succ_of_le (Nat.le_of_not_lt hk)]

theorem run_openSockets (mName : List UInt8) :
    (openSockets protocolOf mName).run (t.after k) =
      .returns (Interfaces.answer protocolOf t.free k, Interfaces.linked t.free k)
        (t.after (k + 1)) := by
  rw [openSockets, Program.run_bind_returns _ (run_askWireless mName),
    Program.run_bind_returns _ (run_socket_after t k)]
  rfl

end NetworkInterface

/-! ## Interfaces in memory and as values -/

namespace Interfaces

variable (host : ByteOrder) (protocolOf : List UInt8 → Option (List UInt8)) (free : Nat)

/-- A call as one of a class with a raw pointer, where `k` interfaces have been constructed. -/
def objectCall (k : Nat) : InterfaceCall → ObjectCall NetworkInterface (List UInt8) Unit
  | .construct ifa served =>
      .construct (NetworkInterface.made host ifa (answer protocolOf free k) (linked free k) served)
  | .copy i => .copy i
  | .destroy i => .destroy i
  | .look i => .call i ()

def objectCalls : Nat → List InterfaceCall → List (ObjectCall NetworkInterface (List UInt8) Unit)
  | _, [] => []
  | k, c :: cs =>
      objectCall host protocolOf free k c :: objectCalls (k + (InterfaceCall.names [c]).length) cs

def asOwners (objects : List (Option NetworkInterface)) : Owners NetworkInterface (List UInt8) :=
  ⟨objects.map (Option.map NetworkInterface.parts)⟩

variable {host protocolOf free}

theorem object_asOwners (objects : List (Option NetworkInterface)) (i : Nat) :
    (asOwners objects).object i = objects[i]?.join.map NetworkInterface.parts := by
  rw [Owners.object, asOwners, List.getElem?_map]
  cases objects[i]? <;> rfl

theorem clean_asOwners (objects : List (Option NetworkInterface)) :
    (asOwners objects).Clean ↔ ∀ o ∈ objects, o = none := by
  simp [Owners.Clean, asOwners]

/-- An object that is looked at stays as it is. -/
theorem set_parts {objects : List (Option NetworkInterface)} {i : Nat} {ni : NetworkInterface}
    (hni : objects[i]?.join = some ni) :
    (asOwners objects).set i (some ni.parts) = asOwners objects := by
  obtain ⟨hlt, hget⟩ := List.getElem?_eq_some_iff.mp (Option.join_eq_some_iff.mp hni)
  have hsame : objects.set i (some ni) = objects := by
    rw [← hget]
    exact List.set_getElem_self hlt
  calc (asOwners objects).set i (some ni.parts)
      = asOwners (objects.set i (some ni)) := by
          rw [asOwners, asOwners, Owners.set, List.map_set, Option.map_some]
    _ = asOwners objects := by rw [hsame]

/-- The constructor does not come back from an overflow. -/
theorem new_of_overflows {k : Nat} {ifa : Ifaddrs} {wireless : NetworkInterface.WirelessAnswer}
    {served : Bool} (h : Overflows free k ifa.ifaName) :
    NetworkInterface.new host ifa wireless (linked free k) served = .faults := by
  rw [linked, decide_eq_true h.1]
  exact NetworkInterface.new_of_overflow host wireless served h.2

theorem step_asOwners (s : Interfaces) (c : InterfaceCall) :
    (asOwners s.objects).step NetworkInterface.methods
        (objectCall host protocolOf free s.constructed c) =
      (step host protocolOf free s c).map fun r => (r.1, asOwners r.2.objects) := by
  cases c with
  | construct ifa served =>
      rw [objectCall, Owners.step, step, NetworkInterface.made]
      by_cases hlong : Overflows free s.constructed ifa.ifaName
      · rw [if_pos hlong, new_of_overflows hlong]
        rfl
      · rw [if_neg hlong]
        cases NetworkInterface.new host ifa (answer protocolOf free s.constructed)
            (linked free s.constructed) served with
        | returns u ni =>
            simp only [Option.map_some, Owners.add, asOwners, List.map_append, List.map_cons,
              List.map_nil]
        | throws e => rfl
        | aborts => rfl
        | faults => rfl
  | copy i =>
      rw [objectCall, Owners.step, object_asOwners, step]
      cases s.objects[i]?.join with
      | none => rfl
      | some ni =>
          rw [Option.map_some, Option.bind_some, Option.bind_some]
          show (if ni.mData.isNone then _ else _) = _
          cases ni.mData.isNone with
          | false => rfl
          | true => simp [Owners.add, asOwners]
  | destroy i =>
      rw [objectCall, Owners.step, object_asOwners, step]
      cases s.objects[i]?.join with
      | none => rfl
      | some ni => simp [Owners.set, asOwners, List.map_set]
  | look i =>
      rw [objectCall, Owners.step, object_asOwners, step]
      cases hni : s.objects[i]?.join with
      | none => rfl
      | some ni =>
          have hset := set_parts hni
          rw [Option.map_some, Option.bind_some, Option.map_some, Option.map_some]
          cases hdata : ni.mData with
          | none =>
              rw [NetworkInterface.parts, hdata] at hset ⊢
              exact congrArg (fun o => some (some { ni with mData := none }, o)) hset
          | some b =>
              rw [NetworkInterface.parts, hdata] at hset ⊢
              exact congrArg (fun o => some (some { ni with mData := none }, o)) hset

/-- Only the constructor counts. -/
theorem constructed_of_step {s s' : Interfaces} {c : InterfaceCall}
    {reply : Option NetworkInterface} (h : step host protocolOf free s c = some (reply, s')) :
    s'.constructed = s.constructed + (InterfaceCall.names [c]).length := by
  cases c with
  | construct ifa served =>
      rw [step] at h
      by_cases hlong : Overflows free s.constructed ifa.ifaName
      · rw [if_pos hlong] at h
        cases h
      · rw [if_neg hlong] at h
        cases hnew : NetworkInterface.new host ifa (answer protocolOf free s.constructed)
            (linked free s.constructed) served with
        | returns u ni =>
            rw [hnew] at h
            cases h
            rfl
        | throws e => simp [hnew] at h
        | aborts => simp [hnew] at h
        | faults => simp [hnew] at h
  | copy i =>
      obtain ⟨ni, -, h⟩ := Option.bind_eq_some_iff.mp h
      by_cases hdata : ni.mData.isNone
      · rw [if_pos hdata] at h
        cases h
        rfl
      · rw [if_neg hdata] at h
        cases h
  | destroy i =>
      obtain ⟨ni, -, heq⟩ := Option.map_eq_some_iff.mp h
      cases heq
      rfl
  | look i =>
      obtain ⟨ni, -, heq⟩ := Option.map_eq_some_iff.mp h
      cases heq
      rfl

/-- The run lemma. -/
theorem runAll_asOwners (s : Interfaces) (calls : List InterfaceCall) :
    (asOwners s.objects).runAll NetworkInterface.methods
        (objectCalls host protocolOf free s.constructed calls) =
      (runAll host protocolOf free s calls).map fun r => (r.1, asOwners r.2.objects) := by
  induction calls generalizing s with
  | nil => rfl
  | cons c cs ih =>
      rw [objectCalls, Owners.runAll, step_asOwners, runAll]
      cases hstep : step host protocolOf free s c with
      | none => rfl
      | some r =>
          rw [Option.map_some, Option.bind_some, Option.bind_some, ← constructed_of_step hstep, ih]
          cases runAll host protocolOf free r.2 cs <;> rfl

end Interfaces

namespace InterfaceCall

theorem names_cons (c : InterfaceCall) (cs : List InterfaceCall) :
    names (c :: cs) = names [c] ++ names cs := by
  rw [names, names, names, ← List.filterMap_append, List.singleton_append]

end InterfaceCall

namespace Process

variable {host : ByteOrder} {protocolOf : List UInt8 → Option (List UInt8)}
  {t : DescriptorTable} {k : Nat}

/-- A call that is about the memory only constructs no interface. -/
theorem inMemory_after (printed : List (List UInt8))
    (memory : Handles NetworkInterface (List UInt8))
    (c : ObjectCall NetworkInterface (List UInt8) Unit) :
    inMemory ⟨t.after k, printed, memory⟩ c =
      (memory.step NetworkInterface.methods c).map fun r =>
        (r.1, ⟨t.after (k + 0), printed ++ [].drop (t.free - k), r.2⟩) := by
  rw [List.drop_nil, List.append_nil]
  rfl

/-- **The step lemma**: what a call does to the descriptors depends on how many interfaces there
have been, and nothing else about the process does. -/
theorem step_after (printed : List (List UInt8))
    (memory : Handles NetworkInterface (List UInt8)) (c : InterfaceCall) :
    step host protocolOf ⟨t.after k, printed, memory⟩ c =
      (memory.step NetworkInterface.methods
        (Interfaces.objectCall host protocolOf t.free k c)).map fun r =>
          (r.1, ⟨t.after (k + (InterfaceCall.names [c]).length),
            printed ++ (InterfaceCall.names [c]).drop (t.free - k), r.2⟩) := by
  cases c with
  | construct ifa served =>
      show (match (NetworkInterface.openSockets protocolOf ifa.ifaName).run (t.after k) with
        | .returns (wireless, linked) table => _
        | _ => none) = _
      rw [NetworkInterface.run_openSockets, Interfaces.objectCall]
      have hprinted : (if Interfaces.linked t.free k then printed
            else printed ++ [ifa.ifaName]) =
          printed ++ [ifa.ifaName].drop (t.free - k) := by
        rw [Interfaces.linked]
        by_cases hk : k < t.free
        · have hdrop : [ifa.ifaName].drop (t.free - k) = [] :=
            List.drop_eq_nil_of_le (Nat.sub_pos_of_lt hk)
          rw [if_pos (decide_eq_true hk), hdrop, List.append_nil]
        · rw [decide_eq_false hk, if_neg Bool.false_ne_true,
            Nat.sub_eq_zero_of_le (Nat.le_of_not_lt hk), List.drop_zero]
      show (inMemory ⟨t.after (k + 1), _, memory⟩ _) = _
      rw [hprinted]
      rfl
  | copy i => exact inMemory_after printed memory _
  | destroy i => exact inMemory_after printed memory _
  | look i => exact inMemory_after printed memory _

/-- The run lemma. -/
theorem runAll_after (printed : List (List UInt8))
    (memory : Handles NetworkInterface (List UInt8)) (calls : List InterfaceCall) :
    runAll host protocolOf ⟨t.after k, printed, memory⟩ calls =
      (memory.runAll NetworkInterface.methods
        (Interfaces.objectCalls host protocolOf t.free k calls)).map fun r =>
          (r.1, ⟨t.after (k + (InterfaceCall.names calls).length),
            printed ++ (InterfaceCall.names calls).drop (t.free - k), r.2⟩) := by
  induction calls generalizing k printed memory with
  | nil =>
      show some ([], _) = some ([], _)
      rw [InterfaceCall.names, List.filterMap_nil, List.drop_nil, List.append_nil]
      rfl
  | cons c cs ih =>
      rw [runAll, step_after, Interfaces.objectCalls, Handles.runAll]
      cases memory.step NetworkInterface.methods
          (Interfaces.objectCall host protocolOf t.free k c) with
      | none => rfl
      | some r =>
          have hdrop : printed ++ (InterfaceCall.names [c]).drop (t.free - k) ++
                (InterfaceCall.names cs).drop
                  (t.free - (k + (InterfaceCall.names [c]).length)) =
              printed ++ (InterfaceCall.names (c :: cs)).drop (t.free - k) := by
            rw [InterfaceCall.names_cons c cs, List.drop_append, List.append_assoc, Nat.sub_sub]
          have hlength : k + (InterfaceCall.names [c]).length + (InterfaceCall.names cs).length =
              k + (InterfaceCall.names (c :: cs)).length := by
            rw [InterfaceCall.names_cons c cs, List.length_append, Nat.add_assoc]
          rw [Option.map_some, Option.bind_some, Option.bind_some, ih, hdrop, hlength,
            Option.map_map, Option.map_map]
          rfl

/-- **What becomes of the interfaces of a process**: programs that destroy them all come to their
end when they do so with interfaces as values, which may be copied as long as they have no data.
The answer of the kernel is about no interface, and is the same for all that get one; every
interface keeps a descriptor, and those that there is none left for are complained about. -/
theorem clean_runAll_iff (host : ByteOrder) (protocolOf : List UInt8 → Option (List UInt8))
    (t : DescriptorTable) (calls : List InterfaceCall)
    (replies : List (Option NetworkInterface)) :
    ((∃ s, runAll host protocolOf (start t) calls = some (replies, s) ∧ s.memory.Clean) ↔
      ∃ r, Interfaces.runAll host protocolOf t.free ⟨0, []⟩ calls = some (replies, r) ∧
        ∀ o ∈ r.objects, o = none) ∧
    ∀ s, runAll host protocolOf (start t) calls = some (replies, s) →
      s.table = t.after (InterfaceCall.names calls).length ∧
      s.printed = (InterfaceCall.names calls).drop t.free ∧
      (s.memory.Clean → s.memory.blocks.live = 0) := by
  have hstart : start t = ⟨t.after 0, [], Handles.start⟩ := by
    rw [DescriptorTable.after_zero]
    rfl
  have hrun : runAll host protocolOf ⟨t.after 0, [], Handles.start⟩ calls = _ :=
    runAll_after [] Handles.start calls
  rw [← hstart] at hrun
  have howners : (Interfaces.asOwners []).runAll NetworkInterface.methods
      (Interfaces.objectCalls host protocolOf t.free 0 calls) = _ :=
    Interfaces.runAll_asOwners ⟨0, []⟩ calls
  constructor
  · have hmemory : (∃ s, runAll host protocolOf (start t) calls = some (replies, s) ∧
          s.memory.Clean) ↔
        ∃ h, Handles.start.runAll NetworkInterface.methods
          (Interfaces.objectCalls host protocolOf t.free 0 calls) = some (replies, h) ∧
            h.Clean := by
      rw [hrun]
      exact exists_map_eq_some_iff (Process.mk _ _)
    refine hmemory.trans ((Handles.clean_iff _ _ replies).trans ?_)
    show (∃ s, (Interfaces.asOwners []).runAll _ _ = some (replies, s) ∧ _) ↔ _
    rw [howners]
    refine (exists_map_eq_some_iff fun r : Interfaces => Interfaces.asOwners r.objects).trans ?_
    exact exists_congr fun r => and_congr_right fun _ => Interfaces.clean_asOwners r.objects
  · intro s hs
    rw [hrun] at hs
    obtain ⟨⟨rs, h⟩, hh, heq⟩ := Option.map_eq_some_iff.mp hs
    cases heq
    refine ⟨by rw [Nat.zero_add], by rw [Nat.sub_zero, List.nil_append], fun hclean => ?_⟩
    exact Handles.live_of_runAll hh hclean

end Process

end Kcmsg
