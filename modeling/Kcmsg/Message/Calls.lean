import Kcmsg.Message.GetString
import Kcmsg.Message.Runs

/-!
# Puts and gets in any order

`MessageCall` is one call of a put, of one of the fourteen getters or of `getDataType`, and
`runAll` a caller who makes such calls one after the other, goes on after an exception, and notes
what each of them replied.

A getter moves `offset` and nothing else (`Getter.preserves`), so every message such a caller can
reach is writable and `Value.run_put` applies to it. In particular a put that does not fit could
as well not have been called.
-/

namespace Kcmsg

/-! ## Getters -/

/-- The fourteen getters that consume an element. -/
inductive Getter where
  | scalar (kind : ScalarKind)
  | string
  | wstring
  deriving DecidableEq

/-- What such a getter returns. -/
inductive Decoded where
  | scalar (val : ScalarValue)
  | string (chars : List UInt8)
  | wstring (chars : List (BitVec 32))
  deriving DecidableEq

def Getter.get (host : ByteOrder) (heap : Heap) : Getter → Program Message Decoded
  | scalar kind => return .scalar (← kind.get host)
  | string => return .string (← Message.getString heap)
  | wstring => return .wstring (← Message.getWString heap host)

def StringKind.getter : StringKind → Getter
  | string => .string
  | wstring => .wstring

/-! ## Calls -/

/-- One call, with the heap as the call finds it. -/
inductive MessageCall where
  | put (val : Value)
  | get (getter : Getter) (heap : Heap)
  | getDataType

/-- What the caller sees of a call. -/
inductive Reply where
  | done
  | value (val : Decoded)
  | dataType (tag : UInt8)
  | exception (what : String)
  deriving DecidableEq

/-- A return or an exception, and the message to go on with; nothing after a failed assertion or
an access outside the block. -/
def Reply.ofOutcome {α : Type} (f : α → Reply) : Outcome Message α → Option (Reply × Message)
  | .returns val m => some (f val, m)
  | .throws what m => some (.exception what, m)
  | .aborts => none
  | .faults => none

namespace MessageCall

def step (host : ByteOrder) (m : Message) : MessageCall → Option (Reply × Message)
  | put val => Reply.ofOutcome (fun _ => .done) ((val.put host).run m)
  | get getter heap => Reply.ofOutcome .value ((getter.get host heap).run m)
  | getDataType => Reply.ofOutcome .dataType (Message.getDataType.run m)

def runAll (host : ByteOrder) (m : Message) : List MessageCall → Option (List Reply × Message)
  | [] => some ([], m)
  | c :: cs => (c.step host m).bind fun r =>
      (runAll host r.2 cs).map fun rs => (r.1 :: rs.1, rs.2)

end MessageCall

/-! ## Getters only read -/

namespace Message

/-- All of the message but the cursor of the getters is the same. -/
structure SameContents (m m' : Message) : Prop where
  data : m'.data = m.data
  dataLength : m'.dataLength = m.dataLength
  hdr : m'.hdr = m.hdr

theorem SameContents.refl (m : Message) : m.SameContents m := ⟨rfl, rfl, rfl⟩

theorem SameContents.trans {a b c : Message} (hab : a.SameContents b) (hbc : b.SameContents c) :
    a.SameContents c :=
  ⟨hbc.data.trans hab.data, hbc.dataLength.trans hab.dataLength, hbc.hdr.trans hab.hdr⟩

open Program

theorem preserves_memcpyFrom (src n : Nat) : Preserves SameContents (memcpyFrom src n) := by
  intro m m' hm'
  rw [Program.run, memcpyFrom] at hm'
  split at hm'
  · cases hm'
    exact .refl m
  · cases hm'

theorem preserves_readChunk (n : Nat) : Preserves SameContents (readChunk n) := by
  refine preserves_bind .trans (preserves_get .refl) fun m => ?_
  refine preserves_bind .trans (preserves_memcpyFrom m.offset n) fun bytes => ?_
  exact preserves_bind .trans (preserves_modify fun m => ⟨rfl, rfl, rfl⟩)
    fun _ => preserves_pure .refl bytes

theorem preserves_getElement (tag : UInt8) (n : Nat) :
    Preserves SameContents (getElement tag n) := by
  refine preserves_bind .trans (preserves_readChunk 1) fun dataType => ?_
  exact preserves_bind .trans (preserves_assert .refl _) fun _ => preserves_readChunk n

theorem preserves_getStringLength (k : StringKind) :
    Preserves SameContents (getStringLength k) := by
  refine preserves_bind .trans (preserves_readChunk 1) fun dataType => ?_
  refine preserves_bind .trans (preserves_assert .refl _) fun _ => ?_
  -- one of two prefixes, or none
  split
  · exact preserves_bind .trans (preserves_readChunk 1) fun _ => preserves_pure .refl _
  · split
    · exact preserves_bind .trans (preserves_readChunk 2) fun _ => preserves_pure .refl _
    · exact preserves_pure .refl _

theorem preserves_getString (heap : Heap) : Preserves SameContents (getString heap) := by
  refine preserves_bind .trans ?_ fun _ => preserves_orFault .refl _
  refine preserves_bind .trans (preserves_getStringLength .string) fun stringLen => ?_
  refine preserves_bind .trans (preserves_assert .refl _) fun _ => ?_
  refine preserves_bind .trans (preserves_orFault .refl _) fun block => ?_
  exact preserves_bind .trans (preserves_readChunk _) fun _ => preserves_orFault .refl _

theorem preserves_getWString (heap : Heap) (host : ByteOrder) :
    Preserves SameContents (getWString heap host) := by
  refine preserves_bind .trans ?_ fun _ => preserves_orFault .refl _
  refine preserves_bind .trans (preserves_getStringLength .wstring) fun wstringLen => ?_
  refine preserves_bind .trans (preserves_orFault .refl _) fun block => ?_
  refine preserves_bind .trans (preserves_assert .refl _) fun _ => ?_
  exact preserves_bind .trans (preserves_readChunk _) fun _ => preserves_orFault .refl _

end Message

open Program Message in
theorem ScalarKind.preserves_get (host : ByteOrder) (k : ScalarKind) :
    Preserves SameContents (k.get host) := by
  -- every getter makes something of the bytes of its element
  cases k <;> exact preserves_bind .trans
    (preserves_bind .trans (preserves_getElement _ _) fun _ => preserves_pure .refl _)
    fun _ => preserves_pure .refl _

open Program Message in
/-- **A getter moves the cursor and nothing else.** -/
theorem Getter.preserves (host : ByteOrder) (heap : Heap) (g : Getter) :
    Preserves SameContents (g.get host heap) := by
  cases g with
  | scalar k => exact preserves_bind .trans (k.preserves_get host) fun _ => preserves_pure .refl _
  | string =>
      exact preserves_bind .trans (preserves_getString heap) fun _ => preserves_pure .refl _
  | wstring =>
      exact preserves_bind .trans (preserves_getWString heap host) fun _ => preserves_pure .refl _

/-! ## A put that does not fit -/

namespace MessageCall

open Message

variable {host : ByteOrder} {m : Message}

theorem step_put_of_fits (hm : m.Writable) {v : Value} (hfit : m.dataLength + v.size ≤ maxMsgData) :
    step host m (.put v) = some (.done, m.place host v) := by
  rw [step, Value.run_put_of_fits host hm hfit]
  rfl

theorem step_put_of_not_fits (hm : m.Writable) {v : Value}
    (hfit : ¬ m.dataLength + v.size ≤ maxMsgData) :
    step host m (.put v) = some (.exception exceededMaximum, m) := by
  rw [step, Value.run_put_of_not_fits host hm hfit]
  rfl

/-- The message a reply comes with is the state its call left. -/
theorem state_of_ofOutcome {α : Type} {f : α → Reply} {x : Outcome Message α}
    {r : Reply × Message} (h : Reply.ofOutcome f x = some r) : r.2 ∈ x.state := by
  cases x with
  | returns _ m' | throws _ m' =>
      cases h
      rfl
  | aborts | faults => cases h

theorem sameContents_getDataType : Program.Preserves SameContents Message.getDataType :=
  Program.preserves_bind .trans (Program.preserves_get .refl) fun m =>
    Program.preserves_bind .trans (preserves_memcpyFrom m.offset 1) fun _ =>
      Program.preserves_pure .refl _

/-- The step lemma: whatever the call, a writable message stays writable. -/
theorem writable_step (hm : m.Writable) {c : MessageCall} {r : Reply × Message}
    (h : step host m c = some r) : r.2.Writable := by
  -- what is left of the message by a call that only reads
  have reads (hsame : m.SameContents r.2) : r.2.Writable := by
    constructor <;> rw [hsame.dataLength]
    · exact hm.past_length
    · exact hm.bounded
  cases c with
  | put v =>
      by_cases hfit : m.dataLength + v.size ≤ maxMsgData
      · rw [step_put_of_fits hm hfit] at h
        cases h
        exact hm.place hfit host
      · rw [step_put_of_not_fits hm hfit] at h
        cases h
        exact hm
  | get getter heap => exact reads (getter.preserves host heap m r.2 (state_of_ofOutcome h))
  | getDataType => exact reads (sameContents_getDataType m r.2 (state_of_ofOutcome h))

/-- The run lemma. -/
theorem writable_runAll (hm : m.Writable) {calls : List MessageCall} {replies : List Reply}
    {m' : Message} (h : runAll host m calls = some (replies, m')) : m'.Writable := by
  induction calls generalizing m replies with
  | nil =>
      cases h
      exact hm
  | cons c cs ih =>
      obtain ⟨r, hstep, hrest⟩ := Option.bind_eq_some_iff.mp h
      obtain ⟨⟨rs, m₁⟩, hrun, heq⟩ := Option.map_eq_some_iff.mp hrest
      cases heq
      exact ih (writable_step hm hstep) hrun

/-- **A put that does not fit changes nothing.** On every message that puts and gets have reached,
a put throws exactly when its value would end behind the block, and then the message is the same,
and so is all that later calls make of it. -/
theorem failedPut_changesNothing {hdr : MessageHeader} {calls : List MessageCall}
    {replies : List Reply} (hrun : runAll host (Message.new hdr) calls = some (replies, m))
    (v : Value) :
    ((∃ what m', (v.put host).run m = .throws what m') ↔ 0xFFFF < m.dataLength + v.size) ∧
      ∀ what m', (v.put host).run m = .throws what m' →
        what = exceededMaximum ∧ m' = m ∧
          ∀ later, runAll host m (.put v :: later) =
            (runAll host m later).map fun r => (.exception what :: r.1, r.2) := by
  have hm : m.Writable := writable_runAll (PutRun.writable_fresh hdr) hrun
  have hmax : maxMsgData = 0xFFFF := rfl
  by_cases hfit : m.dataLength + v.size ≤ maxMsgData
  · have hput := Value.run_put_of_fits host hm hfit
    refine ⟨⟨?_, fun hgt => absurd hgt (by omega)⟩, ?_⟩
    · rintro ⟨what, m', hthrows⟩
      rw [hput] at hthrows
      cases hthrows
    · intro what m' hthrows
      rw [hput] at hthrows
      cases hthrows
  · have hput := Value.run_put_of_not_fits host hm hfit
    refine ⟨⟨fun _ => by omega, fun _ => ⟨exceededMaximum, m, hput⟩⟩, ?_⟩
    intro what m' hthrows
    rw [hput] at hthrows
    cases hthrows
    refine ⟨rfl, rfl, fun later => ?_⟩
    rw [runAll, step_put_of_not_fits hm hfit, Option.bind_some]

/-- A put, a get of it, and a string longer than a message. -/
def sampleCalls : List MessageCall :=
  [.put (.scalar (.short (-2))), .get (.scalar .short) fun _ => none]

def sampleLongString : StdString where
  chars := List.replicate 65533 0x61
  length_lt := by
    rw [List.length_replicate]
    omega

theorem failedPut_changesNothing_sample :
    ∃ replies m, runAll .little (Message.new default) sampleCalls = some (replies, m) ∧
      ∃ what, ((Value.string sampleLongString).put .little).run m = .throws what m := by
  have hreturns : (runAll .little (Message.new default) sampleCalls).isSome := by decide +kernel
  obtain ⟨⟨replies, m⟩, hrun⟩ := Option.isSome_iff_exists.mp hreturns
  obtain ⟨hiff, hsame⟩ := failedPut_changesNothing hrun (.string sampleLongString)
  have hsize : (Value.string sampleLongString).size = 65536 := by
    have hlength : sampleLongString.chars.length = 65533 := List.length_replicate
    rw [Value.size, Value.prefixWidth, Value.payloadWidth, hlength]
    rfl
  obtain ⟨what, m', hthrows⟩ := hiff.mpr (by omega)
  obtain ⟨-, rfl, -⟩ := hsame what m' hthrows
  exact ⟨replies, m', hrun, what, hthrows⟩

end MessageCall

end Kcmsg
