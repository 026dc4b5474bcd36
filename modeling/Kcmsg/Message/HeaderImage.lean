import Kcmsg.Message.Layout

/-!
# The header in the image

A sender sets header fields and flags and puts values, in any order, and then hands the message
over to be sent or written out. What a receiver can know of the header is the first `0x18` bytes
of the block. The setters change `hdr` only, the puts change neither, and nothing on the way out
calls `writeHeader`: the header in the image is the zeroed one the constructor left there
(`ZeroHeader.runAll`), so what was set arrives exactly when it was all zero (`headerIsSet_iff`).
-/

namespace Kcmsg

/-! ## What a receiver decodes -/

/-- The header record spelled by the first `0x18` bytes of a block, by `readHeader`'s layout. -/
def headerOf (data : Mem) : MessageHeader where
  sourceIdent := .ofBitVec (littleValue 32 (data.load headerSourceIdentOffset 4))
  sourceOrganization := .ofBitVec (littleValue 16 (data.load headerSourceOrganizationOffset 2))
  targetIdent := .ofBitVec (littleValue 32 (data.load headerTargetIdentOffset 4))
  targetOrganization := .ofBitVec (littleValue 16 (data.load headerTargetOrganizationOffset 2))
  transactionIdent := .ofBitVec (littleValue 16 (data.load headerTransactionIdentOffset 2))
  transactionApplication :=
    .ofBitVec (littleValue 16 (data.load headerTransactionApplicationOffset 2))
  transactionOrganization :=
    .ofBitVec (littleValue 16 (data.load headerTransactionOrganizationOffset 2))
  ttl := .ofBitVec (littleValue 32 (data.load headerTtlOffset 4))
  flags := .ofBitVec (littleValue 16 (data.load headerFlagsOffset 2))

theorem Message.run_readHeader (m : Message) :
    readHeader.run m = .returns () { m with hdr := headerOf m.data } := by
  rw [readHeader]
  rw [Program.run_bind_returns _ (run_memcpyFrom m (by decide)),
    Program.run_bind_returns _ (run_memcpyFrom m (by decide)),
    Program.run_bind_returns _ (run_memcpyFrom m (by decide)),
    Program.run_bind_returns _ (run_memcpyFrom m (by decide)),
    Program.run_bind_returns _ (run_memcpyFrom m (by decide)),
    Program.run_bind_returns _ (run_memcpyFrom m (by decide)),
    Program.run_bind_returns _ (run_memcpyFrom m (by decide)),
    Program.run_bind_returns _ (run_memcpyFrom m (by decide)),
    Program.run_bind_returns _ (run_memcpyFrom m (by decide)), Program.run_modify]
  rfl

/-- The decoded header depends on the first `0x18` bytes only. -/
theorem headerOf_congr {a b : Mem} (h : ∀ i < messageLengthOffset, a i = b i) :
    headerOf a = headerOf b := by
  have hload (p n : Nat) (hpn : p + n ≤ messageLengthOffset) : a.load p n = b.load p n :=
    Mem.load_eq_load_iff.mpr fun i hi => h (p + i) (by omega)
  rw [headerOf, headerOf, hload _ 4 (by decide), hload _ 2 (by decide), hload _ 4 (by decide),
    hload _ 2 (by decide), hload _ 2 (by decide), hload _ 2 (by decide), hload _ 2 (by decide),
    hload _ 4 (by decide), hload _ 2 (by decide)]

/-- What the getters of a decoded message say: eight fields and three flags. -/
structure HeaderView where
  sourceIdent : UInt32
  sourceOrganization : UInt16
  targetIdent : UInt32
  targetOrganization : UInt16
  transactionIdent : UInt16
  transactionApplication : UInt16
  transactionOrganization : UInt16
  ttl : UInt32
  onceAndOnlyOnce : Bool
  quickDeath : Bool
  messageFragment : Bool
  deriving DecidableEq

/-- Every field zero and every flag cleared. -/
def HeaderView.cleared : HeaderView := ⟨0, 0, 0, 0, 0, 0, 0, 0, false, false, false⟩

def Message.headerView (m : Message) : HeaderView where
  sourceIdent := m.getSourceIdentifier
  sourceOrganization := m.getSourceOrganization
  targetIdent := m.getTargetIdentifier
  targetOrganization := m.getTargetOrganization
  transactionIdent := m.getTransactionIdentifier
  transactionApplication := m.getTransactionApplication
  transactionOrganization := m.getTransactionOrganization
  ttl := m.getTTL
  onceAndOnlyOnce := m.isOnceAndOnlyOnce
  quickDeath := m.isQuickDeath
  messageFragment := m.isMessageFragment

/-- The getters look at `hdr` only. -/
theorem Message.headerView_congr {a b : Message} (h : a.hdr = b.hdr) :
    a.headerView = b.headerView := by
  obtain ⟨_, _, _, hdr⟩ := a
  cases h
  rfl

/-! ## What a sender does -/

inductive HeaderCall where
  | setSourceIdentifier (id : UInt32)
  | setSourceOrganization (id : UInt16)
  | setTargetIdentifier (id : UInt32)
  | setTargetOrganization (id : UInt16)
  | setTransactionIdentifier (id : UInt16)
  | setTransactionApplication (id : UInt16)
  | setTransactionOrganization (id : UInt16)
  | setTTL (val : UInt32)
  | setOnceAndOnlyOnce (val : Bool)
  | setQuickDeath (val : Bool)
  | setMessageFragment (val : Bool)

def HeaderCall.apply : HeaderCall → Message → Message
  | setSourceIdentifier id => Message.setSourceIdentifier id
  | setSourceOrganization id => Message.setSourceOrganization id
  | setTargetIdentifier id => Message.setTargetIdentifier id
  | setTargetOrganization id => Message.setTargetOrganization id
  | setTransactionIdentifier id => Message.setTransactionIdentifier id
  | setTransactionApplication id => Message.setTransactionApplication id
  | setTransactionOrganization id => Message.setTransactionOrganization id
  | setTTL val => Message.setTTL val
  | setOnceAndOnlyOnce val => Message.setOnceAndOnlyOnce val
  | setQuickDeath val => Message.setQuickDeath val
  | setMessageFragment val => Message.setMessageFragment val

inductive SenderCall where
  | header (call : HeaderCall)
  | put (val : Value)

/-- The sender goes on after an exception; a run that aborts or leaves the block has no result. -/
def SenderCall.step (host : ByteOrder) (m : Message) : SenderCall → Option Message
  | header call => some (call.apply m)
  | put val => ((PutRun.mk m []).call host val).map PutRun.msg

def SenderCall.runAll (host : ByteOrder) (m : Message) : List SenderCall → Option Message
  | [] => some m
  | c :: cs => (c.step host m).bind fun m' => runAll host m' cs

/-- The values last set, as far as there are any. -/
structure LastSet where
  sourceIdent : Option UInt32 := none
  sourceOrganization : Option UInt16 := none
  targetIdent : Option UInt32 := none
  targetOrganization : Option UInt16 := none
  transactionIdent : Option UInt16 := none
  transactionApplication : Option UInt16 := none
  transactionOrganization : Option UInt16 := none
  ttl : Option UInt32 := none
  onceAndOnlyOnce : Option Bool := none
  quickDeath : Option Bool := none
  messageFragment : Option Bool := none

namespace LastSet

def record (s : LastSet) : SenderCall → LastSet
  | .header (.setSourceIdentifier id) => { s with sourceIdent := some id }
  | .header (.setSourceOrganization id) => { s with sourceOrganization := some id }
  | .header (.setTargetIdentifier id) => { s with targetIdent := some id }
  | .header (.setTargetOrganization id) => { s with targetOrganization := some id }
  | .header (.setTransactionIdentifier id) => { s with transactionIdent := some id }
  | .header (.setTransactionApplication id) => { s with transactionApplication := some id }
  | .header (.setTransactionOrganization id) => { s with transactionOrganization := some id }
  | .header (.setTTL val) => { s with ttl := some val }
  | .header (.setOnceAndOnlyOnce val) => { s with onceAndOnlyOnce := some val }
  | .header (.setQuickDeath val) => { s with quickDeath := some val }
  | .header (.setMessageFragment val) => { s with messageFragment := some val }
  | .put _ => s

/-- Every field and every flag has been set at least once. -/
def isComplete (s : LastSet) : Bool :=
  s.sourceIdent.isSome && s.sourceOrganization.isSome && s.targetIdent.isSome &&
    s.targetOrganization.isSome && s.transactionIdent.isSome && s.transactionApplication.isSome &&
    s.transactionOrganization.isSome && s.ttl.isSome && s.onceAndOnlyOnce.isSome &&
    s.quickDeath.isSome && s.messageFragment.isSome

/-- `view` shows every value that was set as it was last set. -/
structure ShownBy (s : LastSet) (view : HeaderView) : Prop where
  sourceIdent : ∀ id ∈ s.sourceIdent, view.sourceIdent = id
  sourceOrganization : ∀ id ∈ s.sourceOrganization, view.sourceOrganization = id
  targetIdent : ∀ id ∈ s.targetIdent, view.targetIdent = id
  targetOrganization : ∀ id ∈ s.targetOrganization, view.targetOrganization = id
  transactionIdent : ∀ id ∈ s.transactionIdent, view.transactionIdent = id
  transactionApplication : ∀ id ∈ s.transactionApplication, view.transactionApplication = id
  transactionOrganization : ∀ id ∈ s.transactionOrganization, view.transactionOrganization = id
  ttl : ∀ val ∈ s.ttl, view.ttl = val
  onceAndOnlyOnce : ∀ val ∈ s.onceAndOnlyOnce, view.onceAndOnlyOnce = val
  quickDeath : ∀ val ∈ s.quickDeath, view.quickDeath = val
  messageFragment : ∀ val ∈ s.messageFragment, view.messageFragment = val

end LastSet

def lastSet (calls : List SenderCall) : LastSet := calls.foldl LastSet.record {}

/-- After the calls, whoever gets the header bytes of the image and decodes them sees every value
as it was last set. -/
def HeaderIsSet (host : ByteOrder) (hdr : MessageHeader) (calls : List SenderCall) : Prop :=
  ∃ m, SenderCall.runAll host (Message.new hdr) calls = some m ∧
    ∀ received : Message, (∀ i < messageLengthOffset, received.data i = m.data i) →
      ∃ decoded, Message.readHeader.run received = .returns () decoded ∧
        (lastSet calls).ShownBy decoded.headerView

/-! ## The header bytes stay as the constructor left them -/

/-- What every call preserves: the message can be written to and its header bytes are zero. -/
structure ZeroHeader (m : Message) : Prop where
  writable : m.Writable
  zero : ∀ i < messageLengthOffset, m.data i = 0

theorem zeroHeader_new (hdr : MessageHeader) : ZeroHeader (Message.new hdr) where
  writable := PutRun.writable_fresh hdr
  zero i hi := by
    show Mem.store (fun _ => 0) messageLengthOffset _ i = 0
    rw [Mem.store_of_lt _ hi]

theorem ZeroHeader.place {m : Message} (hm : ZeroHeader m) {v : Value}
    (hfit : m.dataLength + v.size ≤ maxMsgData) (host : ByteOrder) :
    ZeroHeader (m.place host v) where
  writable := hm.writable.place hfit host
  zero i hi := by
    have hpast := hm.writable.past_length
    rw [Message.place_data_of_outside (.inl hi) (.inl (by omega)), hm.zero i hi]

theorem ZeroHeader.step {m : Message} (hm : ZeroHeader m) (host : ByteOrder) (c : SenderCall) :
    ∃ m', c.step host m = some m' ∧ ZeroHeader m' := by
  cases c with
  | header call =>
      refine ⟨_, rfl, ?_⟩
      -- a flag setter has two branches, neither of which touches the block
      have hflag (flag : UInt16) (val : Bool) : ZeroHeader (m.setFlag flag val) := by
        cases val <;> exact ⟨⟨hm.writable.past_length, hm.writable.bounded⟩, hm.zero⟩
      cases call with
      | setOnceAndOnlyOnce val => exact hflag _ val
      | setQuickDeath val => exact hflag _ val
      | setMessageFragment val => exact hflag _ val
      | _ => exact ⟨⟨hm.writable.past_length, hm.writable.bounded⟩, hm.zero⟩
  | put val =>
      have hcall : PutRun.call host ⟨m, []⟩ val = some (PutRun.after host ⟨m, []⟩ val) :=
        PutRun.call_eq hm.writable val
      refine ⟨_, by rw [SenderCall.step, hcall, Option.map_some], ?_⟩
      exact PutRun.after_preserves (P := fun r => ZeroHeader r.msg)
        (fun _ _ hr hfit => hr.place hfit host) (r := ⟨m, []⟩) hm val

/-- The header bytes after any sequence of puts. -/
theorem zeroHeader_result (host : ByteOrder) (hdr : MessageHeader) (vs : List Value) :
    ZeroHeader (PutRun.result host hdr vs).msg :=
  PutRun.result_preserves (P := fun r => ZeroHeader r.msg) (zeroHeader_new hdr)
    (fun _ _ hr hfit => hr.place hfit host) vs

theorem ZeroHeader.runAll {m : Message} (hm : ZeroHeader m) (host : ByteOrder)
    (calls : List SenderCall) :
    ∃ m', SenderCall.runAll host m calls = some m' ∧ ZeroHeader m' := by
  induction calls generalizing m with
  | nil => exact ⟨m, rfl, hm⟩
  | cons c cs ih =>
      obtain ⟨m₁, hstep, hm₁⟩ := hm.step host c
      obtain ⟨m₂, hrun, hm₂⟩ := ih hm₁
      exact ⟨m₂, by rw [SenderCall.runAll, hstep, Option.bind_some, hrun], hm₂⟩

/-- A zeroed header decodes to the cleared one. -/
theorem ZeroHeader.decoded {m : Message} (hm : ZeroHeader m) (received : Message)
    (hsame : ∀ i < messageLengthOffset, received.data i = m.data i) :
    ∃ decoded, Message.readHeader.run received = .returns () decoded ∧
      decoded.headerView = .cleared := by
  have hzero : headerOf received.data = headerOf fun _ => 0 :=
    headerOf_congr fun i hi => (hsame i hi).trans (hm.zero i hi)
  refine ⟨_, Message.run_readHeader received, ?_⟩
  rw [hzero]
  refine (Message.headerView_congr (b := ⟨fun _ => 0, 0, 0, headerOf fun _ => 0⟩) rfl).trans ?_
  decide

/-- **The header arrives exactly when what was set is what the constructor wrote**: every field
last set to zero and every flag last cleared. -/
theorem headerIsSet_iff (host : ByteOrder) (hdr : MessageHeader) (calls : List SenderCall) :
    HeaderIsSet host hdr calls ↔ (lastSet calls).ShownBy .cleared := by
  obtain ⟨m, hrun, hm⟩ := (zeroHeader_new hdr).runAll host calls
  constructor
  · rintro ⟨m', hrun', harrives⟩
    cases hrun.symm.trans hrun'
    obtain ⟨decoded, hdecoded, hshown⟩ := harrives m fun _ _ => rfl
    obtain ⟨decoded', hdecoded', hview⟩ := hm.decoded m fun _ _ => rfl
    cases hdecoded.symm.trans hdecoded'
    rwa [hview] at hshown
  · intro hshown
    refine ⟨m, hrun, fun received hsame => ?_⟩
    obtain ⟨decoded, hdecoded, hview⟩ := hm.decoded received hsame
    exact ⟨decoded, hdecoded, by rwa [hview]⟩

/-- A sender that fills in the whole header and one value. -/
def fullHeaderCalls : List SenderCall :=
  [.header (.setSourceIdentifier 7), .header (.setSourceOrganization 1),
    .header (.setTargetIdentifier 9), .header (.setTargetOrganization 1),
    .header (.setTransactionIdentifier 3), .header (.setTransactionApplication 4),
    .header (.setTransactionOrganization 1), .header (.setTTL 60),
    .header (.setOnceAndOnlyOnce true), .header (.setQuickDeath false),
    .header (.setMessageFragment false), .put (.scalar (.bool true))]

/-- Its source identifier 7 arrives as zero. -/
theorem not_headerIsSet_full :
    (lastSet fullHeaderCalls).isComplete = true ∧
      ¬ HeaderIsSet .little default fullHeaderCalls := by
  refine ⟨by decide, fun h => ?_⟩
  obtain ⟨m, hrun, hm⟩ := (zeroHeader_new default).runAll .little fullHeaderCalls
  obtain ⟨m', hrun', harrives⟩ := h
  cases hrun.symm.trans hrun'
  obtain ⟨decoded, hdecoded, hshown⟩ := harrives m fun _ _ => rfl
  obtain ⟨decoded', hdecoded', hview⟩ := hm.decoded m fun _ _ => rfl
  cases hdecoded.symm.trans hdecoded'
  have hsource := hshown.sourceIdent 7 rfl
  rw [hview] at hsource
  exact absurd hsource (by decide)

end Kcmsg
