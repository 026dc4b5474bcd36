import Kcmsg.Message.Get
import Kcmsg.Message.Layout

/-!
# A message is a typed queue

Puts append at `dataLength`, gets consume at `offset`, and the two may be interleaved. The
abstract object is a queue of values: `Fifo` keeps, beside the message, what was put and what the
gets returned, and `IsQueue` says that the gets returned a prefix of what was put.

The invariant that carries a run is `Represents`: the encodings of the values not yet read stand
in the block between the two cursors, each ending where `dataLength` stood right after its put.
Only `getLong` is left out: it does not read what `putLong` writes.
-/

namespace Kcmsg

/-! ## Histories -/

/-- A successful put: its value, and `dataLength` right after it. -/
structure PutRecord where
  value : ScalarValue
  lengthAfter : Nat
  deriving DecidableEq

/-- A completed get: the tag `getDataType` returned just before, the value the getter returned,
and `offset` right after it. -/
structure GetRecord where
  dataType : UInt8
  value : ScalarValue
  offsetAfter : Nat
  deriving DecidableEq

/-- What the get that reads a put back should record. -/
def PutRecord.readBack (p : PutRecord) : GetRecord := ⟨p.value.kind.tag, p.value, p.lengthAfter⟩

inductive FifoCall where
  | put (val : ScalarValue)
  | get (kind : ScalarKind)

structure Fifo where
  msg : Message
  puts : List PutRecord
  gets : List GetRecord

namespace Fifo

def fresh (hdr : MessageHeader) : Fifo := ⟨Message.new hdr, [], []⟩

/-- One call. The caller goes on after an exception; a failed assertion ends the run. -/
def step (host : ByteOrder) (f : Fifo) : FifoCall → Option Fifo
  | .put val =>
      match (val.put host).run f.msg with
      | .returns () m => some { f with msg := m, puts := f.puts ++ [⟨val, m.dataLength⟩] }
      | .throws _ m => some { f with msg := m }
      | .aborts => none
      | .faults => none
  | .get kind =>
      match Message.getDataType.run f.msg with
      | .returns dataType m =>
          match (kind.get host).run m with
          | .returns val m' =>
              some { f with msg := m', gets := f.gets ++ [⟨dataType, val, m'.offset⟩] }
          -- no getter throws: what is left is a failed assertion or an access outside the block
          | _ => none
      | _ => none

def runAll (host : ByteOrder) (f : Fifo) : List FifoCall → Option Fifo
  | [] => some f
  | c :: cs => (f.step host c).bind fun f' => f'.runAll host cs

/-- A call that keeps to the kinds in question: a put of any kind but long, or a get of the kind
of the first put not yet read. -/
def Allows (f : Fifo) : FifoCall → Prop
  | .put val => val.kind ≠ .long
  | .get kind => f.puts[f.gets.length]?.map (fun p => p.value.kind) = some kind

instance (f : Fifo) : DecidablePred f.Allows
  | .put val => inferInstanceAs (Decidable (val.kind ≠ .long))
  | .get kind =>
      inferInstanceAs (Decidable (f.puts[f.gets.length]?.map (fun p => p.value.kind) = some kind))

/-- Every call is allowed when its turn comes. -/
def Disciplined (host : ByteOrder) (f : Fifo) : List FifoCall → Prop
  | [] => True
  | c :: cs => f.Allows c ∧ ∀ f' ∈ f.step host c, f'.Disciplined host cs

instance decidableDisciplined (host : ByteOrder) :
    (f : Fifo) → (calls : List FifoCall) → Decidable (f.Disciplined host calls)
  | _, [] => isTrue trivial
  | f, c :: cs =>
      have : DecidablePred fun f' : Fifo => f'.Disciplined host cs :=
        fun f' => decidableDisciplined host f' cs
      inferInstanceAs (Decidable (f.Allows c ∧ ∀ f' ∈ f.step host c, f'.Disciplined host cs))

/-- The gets returned the first of the puts, in order, and the cursors are in place. -/
structure IsQueue (f : Fifo) : Prop where
  readBack : f.gets = (f.puts.take f.gets.length).map PutRecord.readBack
  count : f.gets.length ≤ f.puts.length
  lower : 26 ≤ f.msg.offset
  ordered : f.msg.offset ≤ f.msg.dataLength
  upper : f.msg.dataLength ≤ 0xFFFF

end Fifo

/-! ## The invariant -/

/-- Element by element, each of `ps` ends where its record says, from `p` to `q`. -/
def EndsAt : Nat → List PutRecord → Nat → Prop
  | p, [], q => p = q
  | p, e :: es, q => p + (Value.scalar e.value).size = e.lengthAfter ∧ EndsAt e.lengthAfter es q

theorem EndsAt.concat {p q : Nat} {es : List PutRecord} (h : EndsAt p es q) (v : ScalarValue) :
    EndsAt p (es ++ [⟨v, q + (Value.scalar v).size⟩]) (q + (Value.scalar v).size) := by
  induction es generalizing p with
  | nil =>
      have hpq : p = q := h
      subst hpq
      exact ⟨rfl, rfl⟩
  | cons e es ih => exact ⟨h.1, ih h.2⟩

namespace Fifo

/-- The puts not yet read. -/
def unread (f : Fifo) : List PutRecord := f.puts.drop f.gets.length

structure Represents (host : ByteOrder) (f : Fifo) : Prop where
  queue : f.IsQueue
  kinds : ∀ p ∈ f.unread, p.value.kind ≠ .long
  bytes : Laid host f.msg.data f.msg.offset (f.unread.map fun p => .scalar p.value)
    f.msg.dataLength
  ends : EndsAt f.msg.offset f.unread f.msg.dataLength

theorem represents_fresh (host : ByteOrder) (hdr : MessageHeader) :
    (fresh hdr).Represents host where
  queue := {
    readBack := rfl
    count := Nat.le_refl 0
    lower := Nat.le_refl 26
    ordered := Nat.le_refl 26
    upper := show 26 ≤ 0xFFFF by decide }
  kinds _ hp := absurd hp List.not_mem_nil
  bytes := rfl
  ends := rfl

namespace Represents

variable {host : ByteOrder} {f : Fifo}

theorem writable (h : f.Represents host) : f.msg.Writable := by
  have hlower := h.queue.lower
  have hordered := h.queue.ordered
  have hupper := h.queue.upper
  constructor
  · show 26 ≤ f.msg.dataLength
    omega
  · show f.msg.dataLength ≤ 2 * 0xFFFF
    omega

/-- The cursors and the values read so far, after a put that fits. -/
theorem isQueue_put {v : ScalarValue} (h : f.IsQueue)
    (hfit : f.msg.dataLength + (Value.scalar v).size ≤ maxMsgData) :
    IsQueue { f with
      msg := f.msg.place host (.scalar v)
      puts := f.puts ++ [⟨v, f.msg.dataLength + (Value.scalar v).size⟩] } := by
  have hordered := h.ordered
  have hlength : (f.msg.place host (.scalar v)).dataLength =
      f.msg.dataLength + (Value.scalar v).size := Message.place_dataLength ..
  exact {
    readBack := by
      show f.gets = ((f.puts ++ _).take f.gets.length).map PutRecord.readBack
      rw [List.take_append_of_le_length h.count]
      exact h.readBack
    count := by
      show f.gets.length ≤ (f.puts ++ _).length
      rw [List.length_append]
      exact Nat.le_add_right_of_le h.count
    lower := h.lower
    ordered := by
      show f.msg.offset ≤ (f.msg.place host (.scalar v)).dataLength
      rw [hlength]
      omega
    upper := by
      show (f.msg.place host (.scalar v)).dataLength ≤ 0xFFFF
      rw [hlength]
      exact hfit }

/-- A put that fits adds its value at the end of the unread ones. -/
theorem put (h : f.Represents host) {v : ScalarValue} (hv : v.kind ≠ .long)
    (hfit : f.msg.dataLength + (Value.scalar v).size ≤ maxMsgData) :
    Represents host { f with
      msg := f.msg.place host (.scalar v)
      puts := f.puts ++ [⟨v, f.msg.dataLength + (Value.scalar v).size⟩] } := by
  have hlower := h.queue.lower
  have hunread : List.drop f.gets.length
      (f.puts ++ [⟨v, f.msg.dataLength + (Value.scalar v).size⟩]) =
      f.unread ++ [⟨v, f.msg.dataLength + (Value.scalar v).size⟩] :=
    List.drop_append_of_le_length h.queue.count
  refine { queue := isQueue_put h.queue hfit, kinds := ?_, bytes := ?_, ends := ?_ }
  · intro p hp
    rw [unread, hunread, List.mem_append, List.mem_singleton] at hp
    rcases hp with hp | rfl
    · exact h.kinds p hp
    · exact hv
  · rw [unread, hunread, List.map_append]
    -- the bytes not yet read end at `dataLength`, where the put starts to write
    refine Laid.concat (h.bytes.frame ?_) (Message.place_load ?_) hfit
    · intro i hp hq
      exact Message.place_data_of_outside (.inr (Nat.le_trans hlower hp)) (.inl hq)
    · exact Nat.le_trans hlower h.queue.ordered
  · rw [unread, hunread]
    exact h.ends.concat v

/-- The first unread put is read back and passed over. -/
def afterGet (f : Fifo) (p : PutRecord) : Fifo :=
  { f with msg := { f.msg with offset := p.lengthAfter }, gets := f.gets ++ [p.readBack] }

/-- Where the unread puts start, their bytes start. -/
theorem unread_cons (h : f.Represents host) {p : PutRecord}
    (hp : f.puts[f.gets.length]? = some p) :
    f.unread = p :: (afterGet f p).unread ∧
      f.msg.data.load f.msg.offset (Value.scalar p.value).size =
        (Value.scalar p.value).encode host ∧
      f.msg.offset + (Value.scalar p.value).size ≤ maxMsgData ∧
      f.msg.offset + (Value.scalar p.value).size = p.lengthAfter ∧
      Laid host f.msg.data p.lengthAfter
        ((afterGet f p).unread.map fun p => .scalar p.value) f.msg.dataLength ∧
      EndsAt p.lengthAfter (afterGet f p).unread f.msg.dataLength := by
  obtain ⟨hlt, hget⟩ := List.getElem?_eq_some_iff.mp hp
  have hrest : (afterGet f p).unread = f.puts.drop (f.gets.length + 1) := by
    rw [unread, afterGet, List.length_append, List.length_singleton]
  have hunread : f.unread = p :: (afterGet f p).unread := by
    rw [hrest, unread, List.drop_eq_getElem_cons hlt, hget]
  have hbytes := h.bytes
  have hends := h.ends
  rw [hunread] at hbytes hends
  obtain ⟨hload, hroom, hlaid⟩ := hbytes
  obtain ⟨hend, hendsRest⟩ := hends
  have hnext : f.msg.offset + (Value.scalar p.value).size + (Value.scalar p.value).gap =
      p.lengthAfter := hend
  exact ⟨hunread, hload, hroom, hend, hnext ▸ hlaid, hendsRest⟩

/-- A get of the kind of the first unread value returns it. -/
theorem step_get (h : f.Represents host) {p : PutRecord}
    (hp : f.puts[f.gets.length]? = some p) :
    f.step host (.get p.value.kind) = some (afterGet f p) := by
  obtain ⟨hunread, hload, hroom, hend, -, -⟩ := h.unread_cons hp
  have hkind : p.value.kind ≠ .long := h.kinds p (hunread ▸ List.mem_cons_self)
  obtain ⟨htag, hvalue⟩ := ScalarValue.run_get hkind hload hroom
  rw [hend] at hvalue
  rw [Fifo.step, htag]
  simp only [hvalue]
  rfl

theorem get (h : f.Represents host) {p : PutRecord} (hp : f.puts[f.gets.length]? = some p) :
    (afterGet f p).Represents host := by
  obtain ⟨hlt, -⟩ := List.getElem?_eq_some_iff.mp hp
  obtain ⟨hunread, -, -, hend, hlaid, hends⟩ := h.unread_cons hp
  have hlength : (f.gets ++ [p.readBack]).length = f.gets.length + 1 := by
    rw [List.length_append, List.length_singleton]
  refine { queue := ?_, kinds := ?_, bytes := hlaid, ends := hends }
  · exact {
      readBack := by
        show f.gets ++ [p.readBack] =
          (f.puts.take (f.gets ++ [p.readBack]).length).map PutRecord.readBack
        rw [hlength, List.take_add_one, hp, List.map_append, ← h.queue.readBack]
        rfl
      count := by
        show (f.gets ++ [p.readBack]).length ≤ f.puts.length
        rw [hlength]
        exact hlt
      lower := by
        show 26 ≤ p.lengthAfter
        rw [← hend]
        exact Nat.le_trans h.queue.lower (Nat.le_add_right _ _)
      ordered := hlaid.le
      upper := h.queue.upper }
  · intro q hq
    exact h.kinds q (hunread ▸ List.mem_cons_of_mem p hq)

/-- The step lemma: an allowed call goes through and keeps the invariant. -/
theorem step (h : f.Represents host) {c : FifoCall} (hc : f.Allows c) :
    ∃ f', f.step host c = some f' ∧ f'.Represents host := by
  cases c with
  | put v =>
      rw [Fifo.step]
      have hput := Value.run_put host (.scalar v) h.writable
      rw [show v.put host = (Value.scalar v).put host from rfl, hput]
      by_cases hfit : f.msg.dataLength + (Value.scalar v).size ≤ maxMsgData
      · rw [if_pos hfit]
        exact ⟨_, rfl, h.put hc hfit⟩
      · rw [if_neg hfit]
        exact ⟨f, rfl, h⟩
  | get kind =>
      obtain ⟨p, hp, rfl⟩ := Option.map_eq_some_iff.mp hc
      exact ⟨afterGet f p, h.step_get hp, h.get hp⟩

/-- The run lemma. -/
theorem runAll (h : f.Represents host) {calls : List FifoCall} (hcalls : f.Disciplined host calls) :
    ∀ pre, pre <+: calls → ∃ f', f.runAll host pre = some f' ∧ f'.Represents host := by
  induction calls generalizing f with
  | nil =>
      intro pre hpre
      rw [List.prefix_nil.mp hpre]
      exact ⟨f, rfl, h⟩
  | cons c cs ih =>
      intro pre hpre
      obtain ⟨hc, hcs⟩ := hcalls
      obtain ⟨f₁, hstep, hf₁⟩ := h.step hc
      -- the empty prefix ends here, any other begins with the same call
      cases pre with
      | nil => exact ⟨f, rfl, h⟩
      | cons d ds =>
          obtain ⟨rfl, hds⟩ := List.cons_prefix_cons.mp hpre
          obtain ⟨f₂, hrun, hf₂⟩ := ih hf₁ (hcs f₁ hstep) ds hds
          exact ⟨f₂, by rw [Fifo.runAll, hstep, Option.bind_some, hrun], hf₂⟩

end Represents

/-- **A message is a typed queue.** Whatever allowed calls are made on a fresh message, every one
goes through; after each of them the gets have returned the first of the successfully put values
in order, each announced by the tag of its kind and each leaving `offset` where its put left
`dataLength`, and the cursors are in place. Different kinds have different tags. -/
theorem typedQueue (host : ByteOrder) (hdr : MessageHeader) {calls : List FifoCall}
    (hcalls : (fresh hdr).Disciplined host calls) :
    (∀ pre, pre <+: calls → ∃ f, (fresh hdr).runAll host pre = some f ∧ f.IsQueue) ∧
      ∀ k l : ScalarKind, k ≠ l → k.tag ≠ l.tag := by
  refine ⟨fun pre hpre => ?_, fun k l hkl htag => hkl (ScalarKind.tag_inj htag)⟩
  obtain ⟨f, hrun, hf⟩ := (represents_fresh host hdr).runAll hcalls pre hpre
  exact ⟨f, hrun, hf.queue⟩

/-- Two puts, a get between them and one behind. -/
def sampleFifoCalls : List FifoCall :=
  [.put (.short (-2)), .get .short, .put (.bool true), .get .bool]

theorem typedQueue_sample :
    (fresh default).Disciplined .little sampleFifoCalls ∧
      ∃ f, (fresh default).runAll .little sampleFifoCalls = some f ∧ f.IsQueue :=
  have hcalls : (fresh default).Disciplined .little sampleFifoCalls := by decide +kernel
  ⟨hcalls, (typedQueue .little default hcalls).1 _ (List.prefix_refl _)⟩

end Fifo

end Kcmsg
