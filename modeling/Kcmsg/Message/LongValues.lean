import Kcmsg.Message.ReadBack

/-!
# Long values

`putLong` writes four bytes, `getLong` reads two of them. It returns the low half of the value
with its sign extended, which is the value for the numbers of sixteen bits, and it leaves the
cursor on the third byte of the value instead of behind it. The next getter takes that byte for a
tag, so there is no long value, and nothing that can be put behind it, for which the round trip
holds (`LongRoundTrip.never_longRoundTrip`).
-/

namespace Kcmsg

namespace Message

/-- What `getLong` makes of the four bytes of a value. -/
def lowHalf (v : Int32) : Int32 :=
  (Int16.ofBitVec (littleValue 16 ((littleBuf 4 v.toBitVec).take 2))).toInt32

/-- The half is the whole for the numbers of sixteen bits. -/
theorem lowHalf_eq_iff {v : Int32} : lowHalf v = v ↔ -0x8000 ≤ v.toInt ∧ v.toInt < 0x8000 := by
  have hlow : (littleBuf 4 v.toBitVec).take 2 = leBytes 2 v.toBitVec.toNat := rfl
  have hvalue : littleValue 16 (leBytes 2 v.toBitVec.toNat) =
      BitVec.ofNat 16 v.toBitVec.toNat := by
    rw [littleValue, ofLE_leBytes]
    apply BitVec.eq_of_toNat_eq
    simp only [BitVec.toNat_ofNat]
    omega
  have hword := BitVec.toInt_eq_toNat_cond v.toBitVec
  have hhalf := BitVec.toInt_eq_toNat_cond (BitVec.ofNat 16 v.toBitVec.toNat)
  have hlt := v.toBitVec.isLt
  rw [lowHalf, hlow, hvalue, ← Int32.toInt_inj, Int16.toInt_toInt32, Int16.toInt_ofBitVec, hhalf,
    ← Int32.toInt_toBitVec, hword, BitVec.toNat_ofNat]
  split <;> split <;> omega

/-- **`getLong` on a long value** returns its low half and stops in the middle of it. -/
theorem run_getLong_of_put {host : ByteOrder} {m : Message} {v : Int32}
    (hload : m.data.load m.offset (Value.scalar (.long v)).size =
      (Value.scalar (.long v)).encode host)
    (hroom : m.offset + (Value.scalar (.long v)).size ≤ maxMsgData) :
    getLong.run m = .returns (lowHalf v) { m with offset := m.offset + 3 } := by
  obtain ⟨htag, hpayload⟩ := ScalarValue.tag_and_payload hload
  have hfive : m.offset + 5 ≤ maxMsgData := hroom
  have hhalf : m.data.load (m.offset + 1) 2 = (littleBuf 4 v.toBitVec).take 2 := by
    have hwhole : m.data.load (m.offset + 1) (2 + 2) = littleBuf 4 v.toBitVec := hpayload
    rw [← hwhole, Mem.load_add, List.take_left' (Mem.length_load _ _ _)]
  have hlong : m.data m.offset = dataTypeLong := htag
  have helement := run_getElement (n := 2) (by decide) (by omega) hlong
  rw [getLong, Program.run_bind_returns _ helement, Program.run_pure, hhalf]
  rfl

end Message

/-- One after the other, each getter returns its value. -/
def ReadsAll (host : ByteOrder) : List ScalarValue → Message → Prop
  | [], _ => True
  | v :: vs, m => ∃ m', (v.kind.get host).run m = .returns v m' ∧ ReadsAll host vs m'

/-- A long value has been put on a message whose elements had all been read, which made it `m₁`,
and other values behind it, which made it `m₂`: `getLong` returns the value and leaves the cursor
where the next element begins, and the getters of the other values return those. -/
structure LongRoundTrip (host : ByteOrder) (v : Int32) (following : List ScalarValue)
    (m₁ m₂ : Message) : Prop where
  returned : Message.getLong.run m₂ = .returns v { m₂ with offset := m₁.dataLength }
  following : ReadsAll host following { m₂ with offset := m₁.dataLength }

namespace LongRoundTrip

variable {host : ByteOrder} {m m₁ m₂ : Message} {v : Int32} {following : List ScalarValue}

/-- Whatever has been put behind it, the low half of the value is returned. -/
theorem run_getLong (hread : m.offset = m.dataLength) (hpast : 26 ≤ m.offset)
    (hput : (Message.putLong v).run m = .returns () m₁) {accepted : List Value}
    (hfollowing : (PutRun.mk m₁ []).putAll host (following.map .scalar) = some ⟨m₂, accepted⟩) :
    Message.getLong.run m₂ = .returns (Message.lowHalf v) { m₂ with offset := m.dataLength + 3 } ∧
      m₁.dataLength = m.dataLength + 5 := by
  have hvalue : ((Value.scalar (.long v)).put host).run m = .returns () m₁ := hput
  obtain ⟨hm, hfit, rfl⟩ := Value.put_returned (hread ▸ hpast) hvalue
  obtain ⟨hload, hoffset⟩ := Value.load_of_putAll hm hfit hfollowing
  have hcursor : m₂.offset = m.dataLength := hoffset.trans hread
  rw [← hcursor] at hload hfit
  refine ⟨?_, rfl⟩
  rw [Message.run_getLong_of_put hload hfit, hcursor]

/-- **No long value survives a round trip**: `getLong` returns it if it is a number of sixteen bits,
but never leaves the cursor at the next element. -/
theorem never_longRoundTrip (hread : m.offset = m.dataLength) (hpast : 26 ≤ m.offset)
    (hput : (Message.putLong v).run m = .returns () m₁)
    (hfollowing : (PutRun.mk m₁ []).putAll host (following.map .scalar) =
      some ⟨m₂, following.map .scalar⟩) :
    ¬ LongRoundTrip host v following m₁ m₂ ∧
      ∃ x, Message.getLong.run m₂ = .returns x { m₂ with offset := m.dataLength + 3 } ∧
        (x = v ↔ -0x8000 ≤ v.toInt ∧ v.toInt < 0x8000) := by
  obtain ⟨hget, hlength⟩ := run_getLong hread hpast hput hfollowing
  refine ⟨fun h => ?_, _, hget, Message.lowHalf_eq_iff⟩
  obtain ⟨-, hstate⟩ := Outcome.returns.inj (hget.symm.trans h.returned)
  have hcursor : m.dataLength + 3 = m₁.dataLength := congrArg Message.offset hstate
  omega

/-- A long value and a number behind it on a fresh message. -/
theorem put_fresh (v : Int32) (w : ScalarValue) :
    ∃ m₁ m₂, (Message.putLong v).run (Message.new default) = .returns () m₁ ∧
      (PutRun.mk m₁ []).putAll .little [.scalar w] = some ⟨m₂, [.scalar w]⟩ := by
  have hm : (Message.new default).Writable := PutRun.writable_fresh default
  have hfit : (Message.new default).dataLength + (Value.scalar (.long v)).size ≤ maxMsgData := by
    show 26 + 5 ≤ 0xFFFF
    omega
  have hput := Value.run_put_of_fits .little hm hfit
  refine ⟨_, ((Message.new default).place .little (.scalar (.long v))).place .little (.scalar w),
    hput, ?_⟩
  rw [PutRun.putAll_eq (hm.place hfit .little)]
  refine congrArg some (PutRun.after_of_fits ?_)
  have hwidth := w.kind.width_le
  rw [ScalarValue.size_eq]
  show 26 + 5 + 0 + _ ≤ 0xFFFF
  omega

theorem never_longRoundTrip_sample :
    ∃ m₁ m₂, (Message.putLong (-1)).run (Message.new default) = .returns () m₁ ∧
      (PutRun.mk m₁ []).putAll .little [.scalar (.short 7)] = some ⟨m₂, [.scalar (.short 7)]⟩ ∧
      ¬ LongRoundTrip .little (-1) [.short 7] m₁ m₂ := by
  obtain ⟨m₁, m₂, hput, hfollowing⟩ := put_fresh (-1) (.short 7)
  exact ⟨m₁, m₂, hput, hfollowing,
    (@never_longRoundTrip _ _ m₁ m₂ (-1) [.short 7] rfl (Nat.le_refl 26) hput hfollowing).1⟩

/-- A value with more than sixteen bits, and a flag behind it: neither value nor cursor is right. -/
theorem not_long70000 :
    ∃ m₁ m₂, (Message.putLong 70000).run (Message.new default) = .returns () m₁ ∧
      (PutRun.mk m₁ []).putAll .little [.scalar (.bool true)] =
        some ⟨m₂, [.scalar (.bool true)]⟩ ∧
      Message.getLong.run m₂ = .returns 4464 { m₂ with offset := 29 } ∧ m₁.dataLength = 31 ∧
      ¬ LongRoundTrip .little 70000 [.bool true] m₁ m₂ := by
  obtain ⟨m₁, m₂, hput, hfollowing⟩ := put_fresh 70000 (.bool true)
  obtain ⟨hget, hlength⟩ := @run_getLong _ _ m₁ m₂ 70000 [.bool true] rfl (Nat.le_refl 26) hput _
    hfollowing
  refine ⟨m₁, m₂, hput, hfollowing, hget, hlength, fun h => ?_⟩
  obtain ⟨hvalue, -⟩ := Outcome.returns.inj (hget.symm.trans h.returned)
  exact absurd hvalue (by decide)

end LongRoundTrip

end Kcmsg
