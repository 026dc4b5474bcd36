import Kcmsg.Message.Put

/-!
# The wire format

What a message body is, apart from the code that writes it: each value is a tag byte, a length
prefix for the strings, and a payload (`Value.encode`), `Value.size` bytes in all. The puts are
then characterized by it once and for all in `Value.run_put`: a put whose encoding fits appends
it and stores the new length, any other throws and changes nothing. Every result about sequences
of puts goes through that lemma and never unfolds a put again.

The one deviation of the code is carried along as `Value.gap`: the bytes by which a wide string
of more than 255 characters advances `dataLength` beyond what it wrote.

`encode_append_inj` is the reason the format can be read at all: no encoding is a proper prefix
of another, and equal encodings are encodings of equal values.
-/

namespace Kcmsg

/-! ## Scalars -/

namespace ScalarKind

def tag : ScalarKind → UInt8
  | bool => dataTypeBool
  | byte => dataTypeByte
  | short => dataTypeShort
  | int => dataTypeInt
  | long => dataTypeLong
  | longLong => dataTypeLongLong
  | float => dataTypeFloat
  | double => dataTypeDouble
  | char => dataTypeChar
  | wchar => dataTypeWChar
  | time => dataTypeTime
  | duration => dataTypeDuration

/-- The number of payload bytes. -/
def width : ScalarKind → Nat
  | bool => 1
  | byte => 1
  | short => 2
  | int => 4
  | long => 4
  | longLong => 8
  | float => 4
  | double => 8
  | char => 1
  | wchar => 4
  | time => 8
  | duration => 4

/-- The value a payload stands for. -/
def value (host : ByteOrder) : ScalarKind → List UInt8 → ScalarValue
  | bool, bs => .bool (bs.headD 0 != 0)
  | byte, bs => .byte (bs.headD 0).toInt8
  | short, bs => .short (.ofBitVec (littleValue 16 bs))
  | int, bs => .int (.ofBitVec (littleValue 32 bs))
  | long, bs => .long (.ofBitVec (littleValue 32 bs))
  | longLong, bs => .longLong (.ofBitVec (littleValue 64 bs))
  | float, bs => .float (nativeValue host 32 bs)
  | double, bs => .double (nativeValue host 64 bs)
  | char, bs => .char (bs.headD 0)
  | wchar, bs => .wchar (nativeValue host 32 bs)
  | time, bs => .time (.ofBitVec (littleValue 64 bs))
  | duration, bs => .duration (.ofBitVec (littleValue 32 bs))

theorem width_le (k : ScalarKind) : k.width ≤ 8 := by cases k <;> decide

theorem tag_inj {k l : ScalarKind} (h : k.tag = l.tag) : k = l := by
  revert h
  cases k <;> cases l <;> decide

/-- Every tag is a nonnegative `int8_t`, so the getters' signed comparison is the unsigned one. -/
theorem tag_lt (k : ScalarKind) : k.tag < 0x80 := by cases k <;> decide

/-- Scalar tags and string tags are different. -/
theorem tag_lt_string_or_gt (k : ScalarKind) :
    k.tag < dataTypeString1 ∨ dataTypeWString2 < k.tag := by
  cases k <;> decide

end ScalarKind

namespace ScalarValue

def payload (host : ByteOrder) : ScalarValue → List UInt8
  | bool val => [if val then 1 else 0]
  | byte val => [val.toUInt8]
  | short val => littleBuf 2 val.toBitVec
  | int val => littleBuf 4 val.toBitVec
  | long val => littleBuf 4 val.toBitVec
  | longLong val => littleBuf 8 val.toBitVec
  | float val => native host 4 val
  | double val => native host 8 val
  | char val => [val]
  | wchar val => native host 4 val
  | time val => littleBuf 8 val.toUInt64.toBitVec
  | duration val => littleBuf 4 val.toBitVec

@[simp] theorem length_payload (host : ByteOrder) (v : ScalarValue) :
    (v.payload host).length = v.kind.width := by
  cases v <;> simp [payload, kind, ScalarKind.width]

/-- Reading a payload back gives the value, on the host that wrote it. -/
theorem value_payload (host : ByteOrder) (v : ScalarValue) :
    v.kind.value host (v.payload host) = v := by
  cases v with
  | bool val => cases val <;> rfl
  | byte val => rfl
  | short val =>
      exact congrArg short (congrArg Int16.ofBitVec (littleValue_littleBuf _ (by decide)))
  | int val => exact congrArg int (congrArg Int32.ofBitVec (littleValue_littleBuf _ (by decide)))
  | long val => exact congrArg long (congrArg Int32.ofBitVec (littleValue_littleBuf _ (by decide)))
  | longLong val =>
      exact congrArg longLong (congrArg Int64.ofBitVec (littleValue_littleBuf _ (by decide)))
  | float val => exact congrArg float (nativeValue_native host val (by decide))
  | double val => exact congrArg double (nativeValue_native host val (by decide))
  | char val => rfl
  | wchar val => exact congrArg wchar (nativeValue_native host val (by decide))
  | time val => exact congrArg time (congrArg Int64.ofBitVec (littleValue_littleBuf _ (by decide)))
  | duration val =>
      exact congrArg duration (congrArg UInt32.ofBitVec (littleValue_littleBuf _ (by decide)))

end ScalarValue

/-! ## Values -/

/-- The bytes of a wide string's characters. -/
def wideBytes (host : ByteOrder) (chars : List (BitVec 32)) : List UInt8 :=
  chars.flatMap (native host 4)

@[simp] theorem length_wideBytes (host : ByteOrder) (chars : List (BitVec 32)) :
    (wideBytes host chars).length = chars.length * 4 := by
  induction chars with
  | nil => rfl
  | cons c cs ih =>
      rw [wideBytes, List.flatMap_cons, List.length_append, length_native, ← wideBytes, ih,
        List.length_cons, Nat.succ_mul, Nat.add_comm]

theorem wideBytes_inj (host : ByteOrder) {as bs : List (BitVec 32)}
    (hlen : as.length = bs.length) (h : wideBytes host as = wideBytes host bs) : as = bs := by
  induction as generalizing bs with
  | nil => exact (List.length_eq_zero_iff.mp hlen.symm).symm
  | cons a as ih =>
      cases bs with
      | nil => cases hlen
      | cons b bs =>
          have hcons : native host 4 a ++ wideBytes host as =
              native host 4 b ++ wideBytes host bs := h
          obtain ⟨hhead, htail⟩ := List.append_inj hcons (by simp)
          have hab : a = b := by
            rw [← nativeValue_native host a (w := 4) (by decide), hhead,
              nativeValue_native host b (by decide)]
          rw [hab, ih (Nat.succ.inj hlen) htail]

namespace Value

def tag : Value → UInt8
  | scalar v => v.kind.tag
  | string s => if 255 < s.chars.length then dataTypeString2 else dataTypeString1
  | wstring s => if 255 < s.chars.length then dataTypeWString2 else dataTypeWString1

/-- The length prefix. The one byte of a short string is a byte of the host's own `size_t`. -/
def lengthPrefix (host : ByteOrder) : Value → List UInt8
  | scalar _ => []
  | string s =>
      if 255 < s.chars.length then leBytes 2 s.chars.length
      else (host.encode 8 s.chars.length).take 1
  | wstring s =>
      if 255 < s.chars.length then leBytes 2 s.chars.length else [UInt8.ofNat s.chars.length]

def payload (host : ByteOrder) : Value → List UInt8
  | scalar v => v.payload host
  | string s => s.chars
  | wstring s => wideBytes host s.chars

def encode (host : ByteOrder) (v : Value) : List UInt8 :=
  [v.tag] ++ (v.lengthPrefix host ++ v.payload host)

/-- The number of bytes of the length prefix: none, one or two. -/
def prefixWidth : Value → Nat
  | scalar _ => 0
  | string s => if 255 < s.chars.length then 2 else 1
  | wstring s => if 255 < s.chars.length then 2 else 1

def payloadWidth : Value → Nat
  | scalar v => v.kind.width
  | string s => s.chars.length
  | wstring s => s.chars.length * 4

/-- The encoded size: one tag byte, the length prefix, the payload. -/
def size (v : Value) : Nat := 1 + (v.prefixWidth + v.payloadWidth)

/-- A wide string of more than 255 characters. -/
def IsLongWide : Value → Prop
  | wstring s => 255 < s.chars.length
  | _ => False

instance : DecidablePred IsLongWide := fun v =>
  match v with
  | scalar _ => isFalse id
  | string _ => isFalse id
  | wstring s => inferInstanceAs (Decidable (255 < s.chars.length))

/-- What a put adds to `dataLength` over and above the encoded size. -/
def gap (v : Value) : Nat := if v.IsLongWide then v.payloadWidth else 0

theorem length_lengthPrefix (host : ByteOrder) (v : Value) :
    (v.lengthPrefix host).length = v.prefixWidth := by
  cases v with
  | scalar v => rfl
  | string s =>
      rw [lengthPrefix, prefixWidth]
      split
      · exact length_leBytes 2 _
      · rw [List.length_take, ByteOrder.length_encode]
        rfl
  | wstring s =>
      rw [lengthPrefix, prefixWidth]
      split
      · exact length_leBytes 2 _
      · rfl

theorem length_payload (host : ByteOrder) (v : Value) :
    (v.payload host).length = v.payloadWidth := by
  cases v with
  | scalar v => exact v.length_payload host
  | string s => rfl
  | wstring s => exact length_wideBytes host s.chars

@[simp] theorem length_encode (host : ByteOrder) (v : Value) :
    (v.encode host).length = v.size := by
  rw [encode, List.length_append, List.length_append, length_lengthPrefix, length_payload]
  rfl

theorem size_pos (v : Value) : 0 < v.size :=
  Nat.lt_of_lt_of_le Nat.zero_lt_one (Nat.le_add_right _ _)

theorem gap_of_isLongWide {v : Value} (h : v.IsLongWide) : v.gap = v.payloadWidth := if_pos h

theorem gap_of_not_isLongWide {v : Value} (h : ¬ v.IsLongWide) : v.gap = 0 := if_neg h

theorem gap_le_size (v : Value) : v.gap ≤ v.size := by
  rw [gap, size]
  split <;> omega

/-- `max_size` keeps every encoded size far from the end of `size_t`. -/
theorem size_lt (v : Value) : v.size < 2 ^ 63 + 4 := by
  cases v with
  | scalar v =>
      have := v.kind.width_le
      simp only [size, prefixWidth, payloadWidth]
      omega
  | string s =>
      have := s.length_lt
      simp only [size, prefixWidth, payloadWidth]
      split <;> omega
  | wstring s =>
      have := s.size_lt
      simp only [size, prefixWidth, payloadWidth]
      split <;> omega

/-! ## Unambiguity -/

/-- A choice between two different bytes reveals the condition it was made on. -/
theorem iff_of_ite_eq {p q : Prop} [Decidable p] [Decidable q] {a b : UInt8} (hab : a ≠ b)
    (h : (if p then a else b) = if q then a else b) : p ↔ q := by
  by_cases hp : p <;> by_cases hq : q
  · exact iff_of_true hp hq
  · rw [if_pos hp, if_neg hq] at h
    exact absurd h hab
  · rw [if_neg hp, if_pos hq] at h
    exact absurd h.symm hab
  · exact iff_of_false hp hq

/-- The tag tells the three shapes of a value apart, and the two lengths of a string. -/
theorem tag_eq_cases {v w : Value} (h : v.tag = w.tag) :
    (∃ x y, v = scalar x ∧ w = scalar y ∧ x.kind = y.kind) ∨
    (∃ s t, v = string s ∧ w = string t ∧ (255 < s.chars.length ↔ 255 < t.chars.length)) ∨
    (∃ s t, v = wstring s ∧ w = wstring t ∧ (255 < s.chars.length ↔ 255 < t.chars.length)) := by
  -- the four string tags are consecutive and no scalar has a tag among them
  have scalar_ne (x : ScalarValue) (b : UInt8) (hb : dataTypeString1 ≤ b ∧ b ≤ dataTypeWString2) :
      x.kind.tag ≠ b := by
    rintro rfl
    rcases x.kind.tag_lt_string_or_gt with hlt | hgt
    · exact absurd hb.1 (UInt8.not_le.mpr hlt)
    · exact absurd hb.2 (UInt8.not_le.mpr hgt)
  cases v with
  | scalar x =>
      cases w with
      | scalar y => exact .inl ⟨x, y, rfl, rfl, ScalarKind.tag_inj h⟩
      | string t => exact absurd h (scalar_ne x _ (by rw [tag]; split <;> decide))
      | wstring t => exact absurd h (scalar_ne x _ (by rw [tag]; split <;> decide))
  | string s =>
      cases w with
      | scalar y => exact absurd h.symm (scalar_ne y _ (by rw [tag]; split <;> decide))
      | string t =>
          exact .inr (.inl ⟨s, t, rfl, rfl, iff_of_ite_eq (by decide) h⟩)
      | wstring t =>
          simp only [tag] at h
          split at h <;> split at h <;> exact absurd h (by decide)
  | wstring s =>
      cases w with
      | scalar y => exact absurd h.symm (scalar_ne y _ (by rw [tag]; split <;> decide))
      | string t =>
          simp only [tag] at h
          split at h <;> split at h <;> exact absurd h (by decide)
      | wstring t =>
          exact .inr (.inr ⟨s, t, rfl, rfl, iff_of_ite_eq (by decide) h⟩)

/-- Equal length prefixes of one form spell equal lengths, as long as the lengths fit them. -/
theorem length_eq_of_lengthPrefix {m n : Nat} (hm : m < 65536) (hn : n < 65536)
    (hform : 255 < m ↔ 255 < n)
    (h : (if 255 < m then leBytes 2 m else [UInt8.ofNat m]) =
      if 255 < n then leBytes 2 n else [UInt8.ofNat n]) : m = n := by
  by_cases hlong : 255 < m
  · rw [if_pos hlong, if_pos (hform.mp hlong)] at h
    exact leBytes_inj (w := 2) (by omega) (by omega) h
  · rw [if_neg hlong, if_neg (hform.not.mp hlong)] at h
    exact leBytes_inj (w := 1) (by omega) (by omega) h

/-- **The format is a prefix code.** Values that fit into a message are recovered from any byte
string that starts with their encoding, and so is what follows it. -/
theorem encode_append_inj {v w : Value} {r r' : List UInt8}
    (hv : v.size ≤ maxMsgData) (hw : w.size ≤ maxMsgData)
    (h : v.encode .little ++ r = w.encode .little ++ r') : v = w ∧ r = r' := by
  have hcons : v.tag :: ((v.lengthPrefix .little ++ v.payload .little) ++ r) =
      w.tag :: ((w.lengthPrefix .little ++ w.payload .little) ++ r') := h
  obtain ⟨htag, htail⟩ := List.cons.inj hcons
  rw [List.append_assoc, List.append_assoc] at htail
  -- in each shape the widths of the parts agree, so the two strings split at the same places
  rcases tag_eq_cases htag with ⟨x, y, rfl, rfl, hkind⟩ | ⟨s, t, rfl, rfl, hform⟩ |
    ⟨s, t, rfl, rfl, hform⟩
  · have hpay : x.payload .little ++ r = y.payload .little ++ r' := htail
    obtain ⟨hpay, hr⟩ := List.append_inj hpay (by simp [hkind])
    refine ⟨congrArg scalar ?_, hr⟩
    rw [← x.value_payload .little, ← y.value_payload .little, hkind, hpay]
  · have hwidth : (string s).prefixWidth = (string t).prefixWidth := by
      simp only [prefixWidth, hform]
    obtain ⟨hpre, hpay⟩ := List.append_inj htail (by
      rw [length_lengthPrefix, length_lengthPrefix, hwidth])
    have hlen : s.chars.length = t.chars.length := by
      simp only [size, payloadWidth, maxMsgData] at hv hw
      exact length_eq_of_lengthPrefix (by omega) (by omega) hform hpre
    obtain ⟨hchars, hr⟩ := List.append_inj
      (show s.chars ++ r = t.chars ++ r' from hpay) hlen
    exact ⟨congrArg string (StdString.ext hchars), hr⟩
  · have hwidth : (wstring s).prefixWidth = (wstring t).prefixWidth := by
      simp only [prefixWidth, hform]
    obtain ⟨hpre, hpay⟩ := List.append_inj htail (by
      rw [length_lengthPrefix, length_lengthPrefix, hwidth])
    have hlen : s.chars.length = t.chars.length := by
      simp only [size, payloadWidth, maxMsgData] at hv hw
      exact length_eq_of_lengthPrefix (by omega) (by omega) hform hpre
    obtain ⟨hchars, hr⟩ := List.append_inj
      (show wideBytes .little s.chars ++ r = wideBytes .little t.chars ++ r' from hpay)
      (by simp [hlen])
    exact ⟨congrArg wstring (StdWString.ext (wideBytes_inj .little hlen hchars)), hr⟩

end Value

end Kcmsg
