import Kcmsg.Message.Layout

/-!
# Little-endian and big-endian hosts

The same sequence of puts on two hosts that differ in their byte order only. Sizes do not depend
on the host, so the same calls succeed and the lengths agree in any case. The bytes agree exactly
when every value that went in is `OrderFree`: the code sends integers through
`boost::endian` buffers, but copies a `float`, a `double`, a `wchar_t`, the characters of a wide
string and the one-byte length of a short string as the host holds them.
-/

namespace Kcmsg

/-! ## Values whose bytes do not depend on the host -/

def ScalarValue.OrderFree : ScalarValue → Prop
  | .float x => ByteOrder.Symmetric 4 x.toNat
  | .double x => ByteOrder.Symmetric 8 x.toNat
  | .wchar x => ByteOrder.Symmetric 4 x.toNat
  | _ => True

/-- The natively copied parts of the value read the same in both byte orders. For the length of
a short string, one byte of a `size_t`, that means the empty string. -/
def Value.OrderFree : Value → Prop
  | .scalar v => v.OrderFree
  | .string s => s.chars.length = 0 ∨ 255 < s.chars.length
  | .wstring s => ∀ c ∈ s.chars, ByteOrder.Symmetric 4 c.toNat

theorem ScalarValue.payload_eq_iff (v : ScalarValue) :
    v.payload .little = v.payload .big ↔ v.OrderFree := by
  cases v with
  | float x => exact ByteOrder.encode_little_eq_big_iff 4 x.toNat
  | double x => exact ByteOrder.encode_little_eq_big_iff 8 x.toNat
  | wchar x => exact ByteOrder.encode_little_eq_big_iff 4 x.toNat
  | _ => exact iff_of_true rfl trivial

/-- The first byte of a `size_t` below 256 is its value on one host and zero on the other. -/
theorem lengthByte_eq_iff {l : Nat} (hl : l ≤ 255) :
    (ByteOrder.little.encode 8 l).take 1 = (ByteOrder.big.encode 8 l).take 1 ↔ l = 0 := by
  have hlittle : (ByteOrder.little.encode 8 l).take 1 = [UInt8.ofNat l] := rfl
  -- a big-endian `size_t` starts with its most significant byte
  have hbig : (ByteOrder.big.encode 8 l).take 1 =
      [UInt8.ofNat (l / 256 / 256 / 256 / 256 / 256 / 256 / 256)] := rfl
  have hzero : l / 256 / 256 / 256 / 256 / 256 / 256 / 256 = 0 := by omega
  rw [hlittle, hbig, hzero, List.cons_eq_cons, and_iff_left rfl, ← UInt8.toNat_inj,
    UInt8.toNat_ofNat', Nat.mod_eq_of_lt (Nat.lt_succ_of_le hl)]
  rfl

theorem wideBytes_eq_iff (cs : List (BitVec 32)) :
    wideBytes .little cs = wideBytes .big cs ↔ ∀ c ∈ cs, ByteOrder.Symmetric 4 c.toNat := by
  induction cs with
  | nil => simp [wideBytes]
  | cons c cs ih =>
      have hcons (host : ByteOrder) :
          wideBytes host (c :: cs) = native host 4 c ++ wideBytes host cs := rfl
      rw [hcons, hcons, List.forall_mem_cons, ← ih, ← ByteOrder.encode_little_eq_big_iff]
      constructor
      · intro h
        exact List.append_inj h (by simp)
      · rintro ⟨hc, hcs⟩
        exact congrArg₂ (· ++ ·) hc hcs

theorem Value.encode_eq_iff (v : Value) :
    v.encode .little = v.encode .big ↔ v.OrderFree := by
  have hparts : v.encode .little = v.encode .big ↔
      v.lengthPrefix .little = v.lengthPrefix .big ∧ v.payload .little = v.payload .big := by
    rw [encode, encode, List.append_right_inj]
    constructor
    · intro h
      exact List.append_inj h (by rw [length_lengthPrefix, length_lengthPrefix])
    · rintro ⟨hpre, hpay⟩
      rw [hpre, hpay]
  rw [hparts]
  cases v with
  | scalar v => exact (and_iff_right rfl).trans v.payload_eq_iff
  | string s =>
      refine (and_iff_left rfl).trans ?_
      show ((if 255 < s.chars.length then _ else _) = if 255 < s.chars.length then _ else _) ↔
        s.chars.length = 0 ∨ 255 < s.chars.length
      by_cases hlong : 255 < s.chars.length
      · rw [if_pos hlong, if_pos hlong]
        exact iff_of_true rfl (.inr hlong)
      · rw [if_neg hlong, if_neg hlong, lengthByte_eq_iff (by omega), or_iff_left hlong]
  | wstring s => exact (and_iff_right rfl).trans (wideBytes_eq_iff s.chars)

/-! ## Runs on two hosts -/

/-- One layout read on two hosts: where the blocks agree, so do the encodings. -/
theorem Laid.encode_eq {a b : Mem} {p q : Nat} {vs : List Value} (ha : Laid .little a p vs q)
    (hb : Laid .big b p vs q)
    (hsame : ∀ i, i < q → i < maxMsgData → a i = b i) :
    ∀ v ∈ vs, v.encode .little = v.encode .big := by
  induction vs generalizing p with
  | nil => exact fun v hv => absurd hv List.not_mem_nil
  | cons v vs ih =>
      have hroom := ha.2.1
      have hrest := ha.2.2.le
      rw [List.forall_mem_cons]
      refine ⟨?_, ih ha.2.2 hb.2.2⟩
      rw [← ha.1, ← hb.1]
      exact Mem.load_eq_load_iff.mpr fun i hi => hsame (p + i) (by omega) (by omega)

namespace PutRun

/-- Order-free values leave the two hosts in the same state, call by call. -/
theorem foldl_after_eq {r : PutRun} {vs : List Value}
    (h : ∀ v ∈ admitted r.msg.dataLength vs, v.encode .little = v.encode .big) :
    vs.foldl (after .little) r = vs.foldl (after .big) r := by
  induction vs generalizing r with
  | nil => rfl
  | cons v vs ih =>
      rw [List.foldl_cons, List.foldl_cons]
      by_cases hfit : r.msg.dataLength + v.size ≤ maxMsgData
      · rw [admitted, if_pos hfit, List.forall_mem_cons] at h
        have hplace : r.msg.place .little v = r.msg.place .big v := by
          rw [Message.place, Message.place, h.1]
        rw [after_of_fits hfit, after_of_fits hfit, ← hplace]
        exact ih h.2
      · rw [admitted, if_neg hfit] at h
        rw [after_of_not_fits hfit, after_of_not_fits hfit]
        exact ih h

/-- The lengths agree whatever the values are. -/
theorem result_dataLength_eq (hdr : MessageHeader) (vs : List Value) :
    (result .little hdr vs).msg.dataLength = (result .big hdr vs).msg.dataLength := by
  induction vs using List.reverseRecOn with
  | nil => rfl
  | append_singleton vs v ih =>
      rw [result_concat, result_concat]
      by_cases hfit : (result .little hdr vs).msg.dataLength + v.size ≤ maxMsgData
      · rw [after_of_fits hfit, after_of_fits (ih ▸ hfit), Message.place_dataLength,
          Message.place_dataLength, ih]
      · rw [after_of_not_fits hfit, after_of_not_fits (ih ▸ hfit), ih]

/-- On both hosts the same calls succeed, at every point of the sequence, and the images at its
end are equal: same length, same bytes up to it. -/
def HostIndependent (hdr : MessageHeader) (vs : List Value) : Prop :=
  (∀ pre, pre <+: vs → ∃ l b, (fresh hdr).putAll .little pre = some l ∧
    (fresh hdr).putAll .big pre = some b ∧ l.accepted = b.accepted) ∧
  ∃ l b, (fresh hdr).putAll .little vs = some l ∧ (fresh hdr).putAll .big vs = some b ∧
    l.msg.dataLength = b.msg.dataLength ∧
    ∀ i, i < l.msg.dataLength → i < maxMsgData → l.msg.data i = b.msg.data i

/-- **The image is independent of the host exactly for order-free values.** -/
theorem hostIndependent_iff (hdr : MessageHeader) (vs : List Value) :
    HostIndependent hdr vs ↔ ∀ v ∈ admitted 26 vs, v.OrderFree := by
  have hfree : (∀ v ∈ admitted 26 vs, v.OrderFree) ↔
      ∀ v ∈ admitted 26 vs, v.encode .little = v.encode .big :=
    forall₂_congr fun v _ => v.encode_eq_iff.symm
  rw [hfree]
  constructor
  · rintro ⟨-, l, b, hl, hb, -, hdata⟩
    rw [putAll_fresh, Option.some.injEq] at hl hb
    subst hl hb
    have haccepted := result_accepted .little hdr vs
    have hlittle := laid_result .little hdr vs
    have hbig := laid_result .big hdr vs
    -- the two runs lay out the same values between the same ends, each in its own order
    rw [result_accepted, ← result_dataLength_eq] at hbig
    rw [haccepted] at hlittle
    exact hlittle.encode_eq hbig hdata
  · intro h
    refine ⟨fun pre _ => ⟨_, _, putAll_fresh .little hdr pre, putAll_fresh .big hdr pre, ?_⟩,
      _, _, putAll_fresh .little hdr vs, putAll_fresh .big hdr vs,
      result_dataLength_eq hdr vs, fun i _ _ => ?_⟩
    · rw [result_accepted, result_accepted]
    · have hsame : result .little hdr vs = result .big hdr vs := foldl_after_eq h
      rw [hsame]

/-- `putFloat` of the bit pattern 1 puts the byte 1 first on one host and last on the other. -/
theorem not_hostIndependent_float :
    ¬ HostIndependent default [.scalar (.float 1)] := by
  rintro ⟨-, l, b, hl, hb, -, hdata⟩
  rw [putAll_fresh, Option.some.injEq] at hl hb
  subst hl hb
  exact absurd (hdata 27 (by decide) (by decide)) (by decide)

end PutRun

end Kcmsg
