import Kcmsg.Message.PutSpec
import Mathlib.Data.List.Induction

/-!
# Sequences of puts

A caller makes one put after another on a message and goes on after an exception. `putAll` runs
such a sequence and records which calls succeeded; it is partial because a run could also abort
or leave the block. `putAll_eq` says that it never does, and that the outcome is the fold of
`after`, the pure step that the specification of a single put describes.

Which calls of a sequence succeed is decided by their sizes alone: `admitted`.
-/

namespace Kcmsg

/-- A message under construction, with the values of the calls that succeeded, in order. -/
structure PutRun where
  msg : Message
  accepted : List Value

namespace PutRun

def fresh (hdr : MessageHeader) : PutRun := ⟨Message.new hdr, []⟩

/-- One call. An exception leaves the caller with the message as the call left it. -/
def call (host : ByteOrder) (r : PutRun) (v : Value) : Option PutRun :=
  match (v.put host).run r.msg with
  | .returns () m => some ⟨m, r.accepted ++ [v]⟩
  | .throws _ m => some ⟨m, r.accepted⟩
  | .aborts => none
  | .faults => none

def putAll (host : ByteOrder) (r : PutRun) : List Value → Option PutRun
  | [] => some r
  | v :: vs => (r.call host v).bind fun r' => r'.putAll host vs

/-- What a call does, by the specification of a put. -/
def after (host : ByteOrder) (r : PutRun) (v : Value) : PutRun :=
  if r.msg.dataLength + v.size ≤ maxMsgData then ⟨r.msg.place host v, r.accepted ++ [v]⟩ else r

theorem after_of_fits {host : ByteOrder} {r : PutRun} {v : Value}
    (h : r.msg.dataLength + v.size ≤ maxMsgData) :
    r.after host v = ⟨r.msg.place host v, r.accepted ++ [v]⟩ := if_pos h

theorem after_of_not_fits {host : ByteOrder} {r : PutRun} {v : Value}
    (h : ¬ r.msg.dataLength + v.size ≤ maxMsgData) : r.after host v = r := if_neg h

/-- What a call preserves, as two obligations: on the fresh message, and for a put that fits. A
put that does not fit changes nothing, so it has none. -/
theorem after_preserves {host : ByteOrder} {P : PutRun → Prop}
    (hplace : ∀ r v, P r → r.msg.dataLength + v.size ≤ maxMsgData →
      P ⟨r.msg.place host v, r.accepted ++ [v]⟩) {r : PutRun} (hr : P r) (v : Value) :
    P (r.after host v) := by
  by_cases hfit : r.msg.dataLength + v.size ≤ maxMsgData
  · rw [after_of_fits hfit]
    exact hplace r v hr hfit
  · rw [after_of_not_fits hfit]
    exact hr

/-! ## A run is the fold of its steps -/

theorem call_eq {host : ByteOrder} {r : PutRun} (hr : r.msg.Writable) (v : Value) :
    r.call host v = some (r.after host v) := by
  rw [call, Value.run_put host v hr]
  by_cases hfit : r.msg.dataLength + v.size ≤ maxMsgData
  · rw [if_pos hfit, after_of_fits hfit]
  · rw [if_neg hfit, after_of_not_fits hfit]

theorem writable_after {host : ByteOrder} {r : PutRun} (hr : r.msg.Writable) (v : Value) :
    (r.after host v).msg.Writable :=
  after_preserves (P := fun r => r.msg.Writable) (fun _ _ hr hfit => hr.place hfit host) hr v

theorem writable_fresh (hdr : MessageHeader) : (fresh hdr).msg.Writable :=
  ⟨Nat.le_refl _, show 0x18 + 2 ≤ 2 * 0xFFFF by decide⟩

/-- **No put aborts or leaves the block**, whatever was put before. -/
theorem putAll_eq {host : ByteOrder} {r : PutRun} (hr : r.msg.Writable) (vs : List Value) :
    r.putAll host vs = some (vs.foldl (after host) r) := by
  induction vs generalizing r with
  | nil => rfl
  | cons v vs ih =>
      rw [putAll, call_eq hr v, Option.bind_some, ih (writable_after hr v), List.foldl_cons]

/-- The run of a whole sequence on a fresh message. -/
def result (host : ByteOrder) (hdr : MessageHeader) (vs : List Value) : PutRun :=
  vs.foldl (after host) (fresh hdr)

theorem putAll_fresh (host : ByteOrder) (hdr : MessageHeader) (vs : List Value) :
    (fresh hdr).putAll host vs = some (result host hdr vs) :=
  putAll_eq (writable_fresh hdr) vs

theorem result_concat (host : ByteOrder) (hdr : MessageHeader) (vs : List Value) (v : Value) :
    result host hdr (vs ++ [v]) = (result host hdr vs).after host v := by
  rw [result, List.foldl_append]
  rfl

/-- The run rule: what holds of the fresh message and is kept by a put that fits holds after
every sequence of puts. -/
theorem result_preserves {host : ByteOrder} {hdr : MessageHeader} {P : PutRun → Prop}
    (hfresh : P (fresh hdr))
    (hplace : ∀ r v, P r → r.msg.dataLength + v.size ≤ maxMsgData →
      P ⟨r.msg.place host v, r.accepted ++ [v]⟩) (vs : List Value) : P (result host hdr vs) :=
  List.foldlRecOn vs (after host) hfresh fun _ hr v _ => after_preserves hplace hr v

/-! ## Which calls succeed -/

/-- The values of `vs` there is room for when their turn comes, starting at length `d`. -/
def admitted (d : Nat) : List Value → List Value
  | [] => []
  | v :: vs =>
      -- the calls behind it are tested against the length with the gap in it
      if d + v.size ≤ maxMsgData then v :: admitted (d + v.size + v.gap) vs else admitted d vs

theorem foldl_after_accepted (host : ByteOrder) (r : PutRun) (vs : List Value) :
    (vs.foldl (after host) r).accepted = r.accepted ++ admitted r.msg.dataLength vs := by
  induction vs generalizing r with
  | nil => rw [List.foldl_nil, admitted, List.append_nil]
  | cons v vs ih =>
      rw [List.foldl_cons, ih, admitted]
      by_cases hfit : r.msg.dataLength + v.size ≤ maxMsgData
      · rw [after_of_fits hfit, if_pos hfit, List.append_assoc]
        rfl
      · rw [after_of_not_fits hfit, if_neg hfit]

/-- The calls that succeed on a fresh message are the admitted ones, on every host. -/
theorem result_accepted (host : ByteOrder) (hdr : MessageHeader) (vs : List Value) :
    (result host hdr vs).accepted = admitted (messageLengthOffset + 2) vs :=
  foldl_after_accepted host (fresh hdr) vs

theorem admitted_concat (host : ByteOrder) (hdr : MessageHeader) (vs : List Value) (v : Value) :
    admitted (messageLengthOffset + 2) (vs ++ [v]) = admitted (messageLengthOffset + 2) vs ++
      if (result host hdr vs).msg.dataLength + v.size ≤ maxMsgData then [v] else [] := by
  rw [← result_accepted host hdr, ← result_accepted host hdr, result_concat]
  by_cases hfit : (result host hdr vs).msg.dataLength + v.size ≤ maxMsgData
  · rw [after_of_fits hfit, if_pos hfit]
  · rw [after_of_not_fits hfit, if_neg hfit, List.append_nil]

end PutRun

end Kcmsg
