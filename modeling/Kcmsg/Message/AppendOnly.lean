import Kcmsg.Message.Layout

/-!
# Puts append

A put writes the length field and the bytes behind `dataLength` that its value takes, and no
others. Which bytes a call writes is asked of the call, not of one run of it: a byte is written if
it comes out different for some contents of the block (`Writes`), so that a byte which happens to
be overwritten with itself still counts.

`Extends` is what follows for the later of two messages of a run of puts: the earlier one's bytes
are still there. It is all that the getters of later modules know about the puts that came between.
-/

namespace Kcmsg

namespace Message

/-- The call writes byte `i` of the block: for some contents of the block it comes out different,
whether the call returns or throws. -/
def Writes (x : Program Message Unit) (m : Message) (i : Nat) : Prop :=
  ∃ data m', (x.run { m with data := data } = .returns () m' ∨
    ∃ what, x.run { m with data := data } = .throws what m') ∧ m'.data i ≠ data i

/-- `m'` comes from `m` by puts: all bytes up to `dataLength` but those of the length field are
the same. -/
structure Extends (m m' : Message) : Prop where
  bytes : ∀ i < m.dataLength, i < messageLengthOffset ∨ messageLengthOffset + 2 ≤ i →
    m'.data i = m.data i
  grows : m.dataLength ≤ m'.dataLength
  offset : m'.offset = m.offset
  hdr : m'.hdr = m.hdr

theorem Extends.refl (m : Message) : m.Extends m where
  bytes _ _ _ := rfl
  grows := Nat.le_refl _
  offset := rfl
  hdr := rfl

theorem Extends.trans {a b c : Message} (hab : a.Extends b) (hbc : b.Extends c) : a.Extends c where
  bytes i hi hfield := by
    rw [hbc.bytes i (Nat.lt_of_lt_of_le hi hab.grows) hfield, hab.bytes i hi hfield]
  grows := Nat.le_trans hab.grows hbc.grows
  offset := hbc.offset.trans hab.offset
  hdr := hbc.hdr.trans hab.hdr

theorem extends_place (host : ByteOrder) (v : Value) (m : Message) :
    m.Extends (m.place host v) where
  bytes _ hi hfield := place_data_of_outside hfield (.inl hi)
  grows := by
    rw [place_dataLength]
    omega
  offset := rfl
  hdr := rfl

/-- A range behind the length field and in front of `dataLength` keeps what it holds. -/
theorem Extends.load_eq {m m' : Message} (h : m.Extends m') {p n : Nat}
    (hp : messageLengthOffset + 2 ≤ p) (hn : p + n ≤ m.dataLength) :
    m'.data.load p n = m.data.load p n :=
  Mem.load_eq_load_iff.mpr fun i hi => h.bytes (p + i) (by omega) (.inr (by omega))

/-- A writable message stays writable, whatever its block holds. -/
theorem Writable.withData {m : Message} (hm : m.Writable) (data : Mem) :
    Writable { m with data := data } :=
  ⟨hm.past_length, hm.bounded⟩

/-- **Where a put writes**: into the length field, and into the room its value takes behind
`dataLength`, inside the block. -/
theorem Writes.range {host : ByteOrder} {v : Value} {m : Message} (hm : m.Writable) {i : Nat}
    (h : Writes (v.put host) m i) :
    i < maxMsgData ∧ (messageLengthOffset ≤ i ∧ i < messageLengthOffset + 2 ∨
      m.dataLength ≤ i ∧ i < m.dataLength + v.size) := by
  obtain ⟨data, m', hrun, hne⟩ := h
  rw [Value.run_put host v (hm.withData data)] at hrun
  by_cases hfit : m.dataLength + v.size ≤ maxMsgData
  · rw [if_pos hfit] at hrun
    have hplaced : m' = place host v { m with data := data } := by
      rcases hrun with hrun | ⟨_, hrun⟩
      · exact ((Outcome.returns.inj hrun).2).symm
      · cases hrun
    have hinside : ¬ ((i < messageLengthOffset ∨ messageLengthOffset + 2 ≤ i) ∧
        (i < m.dataLength ∨ m.dataLength + v.size ≤ i)) := by
      rintro ⟨hfield, htail⟩
      rw [hplaced] at hne
      exact hne (place_data_of_outside (m := { m with data := data }) hfield htail)
    have hmax : maxMsgData = 0xFFFF := rfl
    have hfield : messageLengthOffset = 0x18 := rfl
    omega
  · -- a put that does not fit throws, with the block as it was
    rw [if_neg hfit] at hrun
    rcases hrun with hrun | ⟨_, hrun⟩
    · cases hrun
    · cases hrun
      exact absurd rfl hne

end Message

namespace PutRun

theorem extends_after (host : ByteOrder) (r : PutRun) (v : Value) :
    r.msg.Extends (r.after host v).msg :=
  after_preserves (P := fun r' => r.msg.Extends r'.msg)
    (fun r' v h _ => h.trans (Message.extends_place host v r'.msg)) (Message.Extends.refl r.msg) v

theorem extends_foldl (host : ByteOrder) (r : PutRun) (vs : List Value) :
    r.msg.Extends (vs.foldl (after host) r).msg := by
  induction vs generalizing r with
  | nil => exact Message.Extends.refl r.msg
  | cons v vs ih => exact (extends_after host r v).trans (ih (r.after host v))

theorem writable_foldl {host : ByteOrder} {r : PutRun} (hr : r.msg.Writable) (vs : List Value) :
    (vs.foldl (after host) r).msg.Writable := by
  induction vs generalizing r with
  | nil => exact hr
  | cons v vs ih => exact ih (writable_after hr v)

/-- What a call of a sequence of puts does to the block: it starts behind the length field, writes
where it may, and every byte in front of it that is not the length is in the end what it was; if it
succeeds, so are its own. -/
structure Appends (host : ByteOrder) (before after : PutRun) (v : Value) (last : PutRun) :
    Prop where
  start : 26 ≤ before.msg.dataLength
  writes : ∀ i, Message.Writes (v.put host) before.msg i →
    i < 0xFFFF ∧ (0x18 ≤ i ∧ i < 0x1A ∨
      before.msg.dataLength ≤ i ∧ i < before.msg.dataLength + v.size)
  header : ∀ i < 0x18, before.msg.data i = 0 ∧ after.msg.data i = 0 ∧ last.msg.data i = 0
  kept : after.accepted = before.accepted ++ [v] →
    last.msg.data.load before.msg.dataLength v.size = v.encode host

/-- **Puts are append-only and stay in the block.** Every call of every sequence of puts, whatever
calls come before it and behind it. -/
theorem appendOnly (host : ByteOrder) (hdr : MessageHeader) (vs : List Value) (v : Value)
    (ws : List Value) :
    ∃ before after last, (fresh hdr).putAll host vs = some before ∧
      before.call host v = some after ∧ after.putAll host ws = some last ∧
      Appends host before after v last := by
  have hbefore : (result host hdr vs).msg.Writable := writable_foldl (writable_fresh hdr) vs
  have hafter : ((result host hdr vs).after host v).msg.Writable := writable_after hbefore v
  refine ⟨result host hdr vs, (result host hdr vs).after host v, _, putAll_fresh host hdr vs,
    call_eq hbefore v, putAll_eq hafter ws, ?_⟩
  have hearlier : (fresh hdr).msg.Extends (result host hdr vs).msg :=
    extends_foldl host (fresh hdr) vs
  have hcall := extends_after host (result host hdr vs) v
  have hlater := extends_foldl host ((result host hdr vs).after host v) ws
  have hzero (m : Message) (hm : (fresh hdr).msg.Extends m) : ∀ i < 0x18, m.data i = 0 := by
    intro i hi
    have hlength : (fresh hdr).msg.dataLength = 26 := rfl
    have hfield : i < messageLengthOffset := hi
    rw [hm.bytes i (by omega) (.inl hfield)]
    show Mem.store (fun _ => 0) messageLengthOffset _ i = 0
    rw [Mem.store_of_lt _ hfield]
  refine ⟨hbefore.past_length, fun i hi => Message.Writes.range hbefore hi, fun i hi => ?_, ?_⟩
  · exact ⟨hzero _ hearlier i hi, hzero _ (hearlier.trans hcall) i hi,
      hzero _ ((hearlier.trans hcall).trans hlater) i hi⟩
  · intro haccepted
    by_cases hfit : (result host hdr vs).msg.dataLength + v.size ≤ maxMsgData
    · rw [after_of_fits hfit] at hlater ⊢
      rw [hlater.load_eq hbefore.past_length (by
        show _ ≤ (Message.place host v _).dataLength
        rw [Message.place_dataLength]
        omega)]
      exact Message.place_load hbefore.past_length
    · -- a call that failed is not among the accepted ones
      rw [after_of_not_fits hfit] at haccepted
      exact absurd (List.self_eq_append_right.mp haccepted) (List.cons_ne_nil v [])

end PutRun

end Kcmsg
