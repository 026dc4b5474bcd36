import Kcmsg.Message.AppendOnly
import Kcmsg.Message.Calls

/-!
# Reading back what was put

An element that stands in the block, its tag at `offset`, is read back by the getter of its kind
if that getter understands it (`Value.run_get`). For a string that is a matter of its length: the
prefix `putString` writes is unsigned, and a single byte of it is a byte of the host's own
`size_t`, while `getString` takes it for a signed little-endian number. `Countable` are the lengths
on which the two agree, `fieldFits_string_iff` says so, and `StringRoundTrip.iff_countable` is what
follows for a string that is put, followed by whatever else, and read.

The second result is about the characters: `getString` hands its block on as a terminated string,
so it returns the whole field exactly when there is no NUL in it.
-/

namespace Kcmsg

namespace Value

/-- The getter that matches a put. -/
def getter : Value → Getter
  | scalar v => .scalar v.kind
  | string _ => .string
  | wstring _ => .wstring

/-- What that getter should return. -/
def decoded : Value → Decoded
  | scalar v => .scalar v
  | string s => .string s.chars
  | wstring s => .wstring s.chars

/-- An encoded element is its tag, its length prefix and its payload, one behind the other. -/
theorem parts {host : ByteOrder} {v : Value} {mem : Mem} {p : Nat}
    (h : mem.load p v.size = v.encode host) :
    mem p = v.tag ∧ mem.load (p + 1) v.prefixWidth = v.lengthPrefix host ∧
      mem.load (p + 1 + v.prefixWidth) v.payloadWidth = v.payload host := by
  rw [size, Mem.load_add, Mem.load_add, encode] at h
  obtain ⟨htag, hrest⟩ := List.append_inj h (by simp)
  obtain ⟨hlength, hpayload⟩ := List.append_inj hrest (by
    rw [Mem.length_load, length_lengthPrefix])
  exact ⟨(List.cons.inj htag).1, hlength, hpayload⟩

end Value

/-! ## The length of a string -/

/-- The lengths a prefix written by `putString` has for `getString` too. -/
def Countable (host : ByteOrder) (l : Nat) : Prop :=
  l = 0 ∨ (host = .little ∧ l ≤ 127) ∨ (256 ≤ l ∧ l ≤ 32767)

instance (host : ByteOrder) (l : Nat) : Decidable (Countable host l) :=
  inferInstanceAs (Decidable (_ ∨ _))

/-- A signed number is the unsigned one of the same bits if its top bit is clear. -/
theorem toInt_ofNat_eq_iff {k l n : Nat} (hl : l < 2 ^ k) :
    (BitVec.ofNat k l).toInt = n ↔ 2 * l < 2 ^ k ∧ n = l := by
  rw [BitVec.toInt_eq_toNat_cond, BitVec.toNat_ofNat, Nat.mod_eq_of_lt hl]
  split
  · omega
  · -- the number is negative
    have hcast : ((2 ^ k : Nat) : Int) = 2 ^ k := by push_cast; rfl
    omega

/-- The first byte of a native `size_t` of one byte: all of it, or none. -/
theorem take_encode (host : ByteOrder) {l : Nat} (hl : l < 256) :
    (host.encode 8 l).take 1 = [if host = .little then UInt8.ofNat l else 0] := by
  cases host with
  | little => rfl
  | big =>
      have hhigh : l / 256 = 0 := Nat.div_eq_of_lt hl
      simp only [ByteOrder.encode, leBytes, hhigh, Nat.zero_div]
      rfl

namespace Message

variable {host : ByteOrder} {heap : Heap} {m : Message}

/-! ## Fields that were put -/

section Field

variable {k : StringKind} {l : Nat}

/-- A tag of the kind's own choice between its two forms, and where the characters start. -/
theorem field_of_tag (htag : m.data m.offset = if 255 < l then k.longTag else k.shortTag) :
    m.Announces k ∧ m.payloadStart k = m.offset + 1 + if 255 < l then 2 else 1 := by
  rw [payloadStart, prefixWidth]
  by_cases hlong : 255 < l
  · rw [if_pos hlong] at htag ⊢
    have hne : m.data m.offset ≠ k.shortTag := htag ▸ k.longTag_ne_shortTag
    exact ⟨.inr htag, by rw [if_neg hne]⟩
  · rw [if_neg hlong] at htag ⊢
    exact ⟨.inl htag, by rw [if_pos htag]⟩

/-- What the getter makes of the prefix behind such a tag: the long form spells the length, of the
short form it depends on the one byte. -/
theorem signedLength_of_tag {b : UInt8}
    (htag : m.data m.offset = if 255 < l then k.longTag else k.shortTag)
    (hbytes : m.data.load (m.offset + 1) (if 255 < l then 2 else 1) =
      if 255 < l then leBytes 2 l else [b]) (hl : l < 65536) :
    m.signedLength k =
      if 255 < l then (BitVec.ofNat 16 l).toInt else (BitVec.ofNat 8 b.toNat).toInt := by
  rw [signedLength]
  by_cases hlong : 255 < l
  · rw [if_pos hlong] at htag hbytes ⊢
    rw [if_pos hlong] at hbytes
    have hne : m.data m.offset ≠ k.shortTag := htag ▸ k.longTag_ne_shortTag
    rw [if_neg hne, hbytes, littleValue, ofLE_leBytes_of_lt hl]
  · rw [if_neg hlong] at htag hbytes ⊢
    rw [if_neg hlong] at hbytes
    rw [if_pos htag, hbytes]
    rfl

end Field

section StringField

variable {s : StdString}

/-- The field that `putString` has written, as `getString` sees it. -/
theorem string_field
    (hload : m.data.load m.offset (Value.string s).size = (Value.string s).encode host) :
    m.Announces .string ∧
      m.payloadStart .string = m.offset + 1 + (Value.string s).prefixWidth :=
  field_of_tag (k := .string) (l := s.chars.length) (Value.parts hload).1

/-- Its characters end where the put has ended. -/
theorem string_end
    (hload : m.data.load m.offset (Value.string s).size = (Value.string s).encode host) :
    m.payloadStart .string + s.chars.length = m.offset + (Value.string s).size := by
  rw [(string_field hload).2, Value.size, Value.payloadWidth]
  omega

/-- Encoder and decoder agree on the countable lengths and on no others. -/
theorem signedLength_string_iff
    (hload : m.data.load m.offset (Value.string s).size = (Value.string s).encode host)
    (hroom : m.offset + (Value.string s).size ≤ maxMsgData) :
    m.signedLength .string = s.chars.length ↔ Countable host s.chars.length := by
  have hlt : s.chars.length < 65536 := by
    simp only [Value.size, Value.payloadWidth, maxMsgData] at hroom
    omega
  obtain ⟨htag, hprefix, -⟩ := Value.parts hload
  have hbytes : m.data.load (m.offset + 1) (if 255 < s.chars.length then 2 else 1) =
      if 255 < s.chars.length then leBytes 2 s.chars.length
      else [if host = .little then UInt8.ofNat s.chars.length else 0] := by
    refine hprefix.trans ?_
    rw [Value.lengthPrefix]
    by_cases hlong : 255 < s.chars.length
    · rw [if_pos hlong, if_pos hlong]
    · rw [if_neg hlong, if_neg hlong, take_encode host (by omega)]
  rw [signedLength_of_tag htag hbytes hlt, Countable]
  by_cases hlong : 255 < s.chars.length
  · rw [if_pos hlong, toInt_ofNat_eq_iff hlt]
    omega
  · rw [if_neg hlong]
    by_cases hhost : host = .little
    · have hvalue : (UInt8.ofNat s.chars.length).toNat = s.chars.length := by
        rw [UInt8.toNat_ofNat']
        omega
      rw [if_pos hhost, hvalue, toInt_ofNat_eq_iff (show _ < 2 ^ 8 by omega)]
      simp only [hhost, true_and, and_true]
      omega
    · -- on a big-endian host the byte that is copied is the most significant one
      have hzero : (BitVec.ofNat 8 (0 : UInt8).toNat).toInt = 0 := by decide
      rw [if_neg hhost, hzero]
      simp only [hhost, false_and, false_or]
      omega

theorem payload_string
    (hload : m.data.load m.offset (Value.string s).size = (Value.string s).encode host)
    (hfits : m.FieldFits .string s.chars.length) : m.payload .string = s.chars := by
  rw [hfits.payload_eq, (string_field hload).2, StringKind.charSize, Nat.mul_one]
  exact (Value.parts hload).2.2

/-- A string that has been put fits for `getString`, with the length it has, if that length is
countable. -/
theorem fieldFits_string_iff
    (hload : m.data.load m.offset (Value.string s).size = (Value.string s).encode host)
    (hroom : m.offset + (Value.string s).size ≤ maxMsgData) :
    m.FieldFits .string s.chars.length ↔ Countable host s.chars.length := by
  rw [← signedLength_string_iff hload hroom]
  constructor
  · exact FieldFits.length
  · intro hlength
    refine ⟨(string_field hload).1, hlength, ?_⟩
    rwa [StringKind.charSize, Nat.mul_one, string_end hload]

/-- **`getString` on a string of countable length** returns it up to its first NUL. -/
theorem run_getString_of_put
    (hload : m.data.load m.offset (Value.string s).size = (Value.string s).encode host)
    (hroom : m.offset + (Value.string s).size ≤ maxMsgData)
    (hcount : Countable host s.chars.length) (hheap : heap.Serves) :
    (getString heap).run m =
      .returns (cutAt 0 s.chars) { m with offset := m.offset + (Value.string s).size } := by
  have hfits := (fieldFits_string_iff hload hroom).mpr hcount
  have hlt := hfits.lt
  rw [run_getString hfits (hheap _ (by omega)), payload_string hload hfits, string_end hload]

end StringField

end Message

/-! ## Elements -/

namespace Value

variable {host : ByteOrder} {heap : Heap} {v : Value} {m : Message}

/-- What a put of the value writes, the getter of its kind can read: any kind but long, and the
strings without NULs whose length is countable. -/
def Readable (host : ByteOrder) : Value → Prop
  | scalar v => v.kind ≠ .long
  | string s => 0 ∉ s.chars ∧ Countable host s.chars.length
  | wstring _ => False

/-- **A readable element is read back**, and the cursor is left behind it. -/
theorem run_get (hv : v.Readable host) (hload : m.data.load m.offset v.size = v.encode host)
    (hroom : m.offset + v.size ≤ maxMsgData) (hheap : heap.Serves) :
    (v.getter.get host heap).run m = .returns v.decoded { m with offset := m.offset + v.size } := by
  cases v with
  | scalar v => exact Program.run_bind_returns _ (ScalarValue.run_get hv hload hroom).2
  | string s =>
      obtain ⟨hnul, hcount⟩ := hv
      have hget := Message.run_getString_of_put hload hroom hcount hheap
      rw [cutAt_of_notMem hnul] at hget
      exact Program.run_bind_returns _ hget
  | wstring s => exact hv.elim

theorem gap_of_readable (hv : v.Readable host) : v.gap = 0 := by
  cases v with
  | scalar v => exact gap_of_not_isLongWide id
  | string s => exact gap_of_not_isLongWide id
  | wstring s => exact hv.elim

/-- An element that was put on `m` is still there after any later puts. -/
theorem load_of_putAll (hm : m.Writable) (hfit : m.dataLength + v.size ≤ maxMsgData)
    {later : List Value} {last : PutRun}
    (hlater : (PutRun.mk (m.place host v) []).putAll host later = some last) :
    last.msg.data.load m.dataLength v.size = v.encode host ∧ last.msg.offset = m.offset := by
  have hplaced : (m.place host v).Writable := hm.place hfit host
  rw [PutRun.putAll_eq hplaced later, Option.some.injEq] at hlater
  subst hlater
  have hextends := PutRun.extends_foldl host (PutRun.mk (m.place host v) []) later
  have hinside : m.dataLength + v.size ≤ (m.place host v).dataLength := by
    rw [Message.place_dataLength]
    omega
  refine ⟨?_, hextends.offset⟩
  rw [hextends.load_eq hm.past_length hinside]
  exact Message.place_load hm.past_length

/-- The first put on a message, if there is room for it. -/
theorem run_put_fresh (host : ByteOrder) (hdr : MessageHeader) {v : Value}
    (hfit : (Message.new hdr).dataLength + v.size ≤ maxMsgData) :
    (v.put host).run (Message.new hdr) = .returns () ((Message.new hdr).place host v) :=
  run_put_of_fits host (PutRun.writable_fresh hdr) hfit

end Value

theorem Message.run_putString_fresh {s : StdString}
    (hfit : (Message.new default).dataLength + (Value.string s).size ≤ maxMsgData) :
    (Message.putString .little s).run (Message.new default) =
      .returns () ((Message.new default).place .little (.string s)) :=
  Value.run_put_fresh .little default (v := .string s) hfit

theorem Message.run_putWString_fresh {w : StdWString}
    (hfit : (Message.new default).dataLength + (Value.wstring w).size ≤ maxMsgData) :
    (Message.putWString .little w).run (Message.new default) =
      .returns () ((Message.new default).place .little (.wstring w)) :=
  Value.run_put_fresh .little default (v := .wstring w) hfit

/-! ## The round trip of a string -/

/-- A heap that serves every request with zeros. -/
def zeroHeap : Heap := fun n => some ⟨List.replicate n 0, Nat.le_of_eq List.length_replicate.symm⟩

theorem zeroHeap_serves : zeroHeap.Serves := fun _ _ => rfl

/-- A string has been put on a message whose earlier elements had all been read, which made it
`m`. Whatever is put behind it, `getString` returns the string and leaves the cursor where the
next put began, and if that put was of a value its getter can read, that one is read next. -/
structure StringRoundTrip (host : ByteOrder) (heap : Heap) (s : StdString) (m : Message) :
    Prop where
  returned : ∀ later last, (PutRun.mk m []).putAll host later = some last →
    (Message.getString heap).run last.msg =
      .returns s.chars { last.msg with offset := m.dataLength }
  next : ∀ v m' later last, (Value.put host v).run m = .returns () m' →
    (PutRun.mk m' []).putAll host later = some last → v.Readable host →
    (v.getter.get host heap).run { last.msg with offset := m.dataLength } =
      .returns v.decoded { last.msg with offset := m'.dataLength }

namespace StringRoundTrip

variable {host : ByteOrder} {heap : Heap} {s : StdString} {m m' : Message}

theorem of_countable (hread : m.offset = m.dataLength) (hm : m.Writable)
    (hfit : m.dataLength + (Value.string s).size ≤ maxMsgData) (hnul : 0 ∉ s.chars)
    (hcount : Countable host s.chars.length) (hheap : heap.Serves) :
    StringRoundTrip host heap s (m.place host (.string s)) where
  returned later last hlater := by
    obtain ⟨hload, hoffset⟩ := Value.load_of_putAll hm hfit hlater
    have hcursor : last.msg.offset = m.dataLength := hoffset.trans hread
    rw [← hcursor] at hload hfit
    rw [Message.run_getString_of_put hload hfit hcount hheap, cutAt_of_notMem hnul, hcursor]
    rfl
  next v m' later last hput hlater hv := by
    -- the next element starts where the string ends
    have hplaced : (m.place host (.string s)).Writable := hm.place hfit host
    obtain ⟨-, hfit', rfl⟩ := Value.put_returned hplaced.past_length hput
    obtain ⟨hload, -⟩ := Value.load_of_putAll hplaced hfit' hlater
    have hget := Value.run_get (m := { last.msg with
      offset := (m.place host (.string s)).dataLength }) hv hload hfit' hheap
    rw [hget, Message.place_dataLength host v, Value.gap_of_readable hv, Nat.add_zero]

/-- A call that leaves the cursor behind the string has taken its length for what it is. -/
theorem countable_of_returned (hread : m.offset = m.dataLength) (hm : m.Writable)
    (hfit : m.dataLength + (Value.string s).size ≤ maxMsgData)
    (h : StringRoundTrip host heap s (m.place host (.string s))) :
    Countable host s.chars.length := by
  have hload : (m.place host (.string s)).data.load (m.place host (.string s)).offset
      (Value.string s).size = (Value.string s).encode host := by
    show Mem.load _ m.offset _ = _
    rw [hread]
    exact Message.place_load hm.past_length
  have hroom : (m.place host (.string s)).offset + (Value.string s).size ≤ maxMsgData := by
    show m.offset + _ ≤ _
    rwa [hread]
  obtain ⟨n, hfits, -, -, hstate⟩ := Message.getString_returned (h.returned [] _ rfl)
  have hend : m.dataLength + (Value.string s).size =
      (m.place host (.string s)).payloadStart .string + n := congrArg Message.offset hstate
  have hlength : n = s.chars.length := by
    have hstring := Message.string_end hload
    have hcursor : (m.place host (.string s)).offset = m.dataLength := hread
    omega
  exact (Message.fieldFits_string_iff hload hroom).mp (hlength ▸ hfits)

/-- **The round trip over both length forms.** A string without NULs that `putString` accepted, on
any message all of whose elements had been read, comes back exactly when its length is one that
encoder and decoder agree on. -/
theorem iff_countable (hnul : 0 ∉ s.chars) (hread : m.offset = m.dataLength)
    (hpast : 26 ≤ m.offset) (hput : (Message.putString host s).run m = .returns () m')
    (hheap : heap.Serves) : StringRoundTrip host heap s m' ↔ Countable host s.chars.length := by
  obtain ⟨hm, hfit, rfl⟩ := Value.put_returned (v := .string s) (hread ▸ hpast) hput
  exact ⟨countable_of_returned hread hm hfit,
    fun hcount => of_countable hread hm hfit hnul hcount hheap⟩

/-- A string of `n` letters. -/
def letters (n : Nat) (h : n < 2 ^ 63) : StdString :=
  ⟨List.replicate n 0x61, by rwa [List.length_replicate]⟩

theorem iff_countable_sample :
    ∃ m', (Message.putString .little (letters 3 (by decide))).run (Message.new default) =
      .returns () m' ∧ StringRoundTrip .little zeroHeap (letters 3 (by decide)) m' := by
  have hput := Message.run_putString_fresh (s := letters 3 (by decide)) (by decide)
  exact ⟨_, hput, (iff_countable (by decide) rfl (Nat.le_refl 26) hput zeroHeap_serves).mpr
    (by decide)⟩

/-- One character more than a signed byte counts. -/
theorem not_letters128 : ∃ m', (Message.putString .little (letters 128 (by decide))).run
      (Message.new default) = .returns () m' ∧
    ∀ heap, ¬ StringRoundTrip .little heap (letters 128 (by decide)) m' := by
  have hfit : (Message.new default).dataLength +
      (Value.string (letters 128 (by decide))).size ≤ maxMsgData := by decide +kernel
  have hm : (Message.new default).Writable := PutRun.writable_fresh default
  refine ⟨_, Message.run_putString_fresh hfit, fun heap h => ?_⟩
  have hcount := countable_of_returned (m := Message.new default) rfl hm hfit h
  exact absurd hcount (by decide +kernel)

end StringRoundTrip

/-! ## The whole field -/

/-- The characters returned are the payload: as many as the cursor has passed over behind the tag
and the length, and each of them the byte that stands there. -/
structure WholeField (m : Message) (s : List UInt8) (m' : Message) : Prop where
  length : s.length = m'.offset - m.payloadStart .string
  chars : ∀ i (h : i < s.length), s[i] = m.data (m.payloadStart .string + i)

namespace WholeField

variable {heap : Heap} {m m' : Message} {s : List UInt8}

theorem iff_eq_payload (h : (Message.getString heap).run m = .returns s m') :
    WholeField m s m' ↔ s = m.payload .string := by
  obtain ⟨n, hfits, -, -, rfl⟩ := Message.getString_returned h
  have hpayload : m.payload .string = m.data.load (m.payloadStart .string) n := by
    rw [hfits.payload_eq, StringKind.charSize, Nat.mul_one]
  have hend : m.payloadStart .string + n - m.payloadStart .string = n := by omega
  rw [hpayload]
  constructor
  · rintro ⟨hlength, hchars⟩
    have hn : s.length = n := hlength.trans hend
    have hload : m.data.load (m.payloadStart .string) s.length = s :=
      Mem.load_eq_iff.mpr fun i hi => (hchars i hi).symm
    rw [← hn, hload]
  · intro hs
    have hn : s.length = n := by rw [hs, Mem.length_load]
    refine ⟨hn.trans hend.symm, fun i hi => ?_⟩
    have hload : m.data.load (m.payloadStart .string) s.length = s := by rw [hn, ← hs]
    exact (Mem.load_eq_iff.mp hload i hi).symm

/-- **`getString` returns the whole field exactly when there is no NUL in it**, and fields without
NULs that are read back as equal are equal. -/
theorem iff_notMem (h : (Message.getString heap).run m = .returns s m') :
    (WholeField m s m' ↔ 0 ∉ m.payload .string) ∧
      ∀ {heap₂ : Heap} {m₂ m₂' : Message} {s₂ : List UInt8},
        (Message.getString heap₂).run m₂ = .returns s₂ m₂' →
        0 ∉ m.payload .string → 0 ∉ m₂.payload .string →
        (s = s₂ ↔ m.payload .string = m₂.payload .string) := by
  obtain ⟨-, -, -, hs, -⟩ := Message.getString_returned h
  refine ⟨?_, ?_⟩
  · rw [iff_eq_payload h, hs, cutAt_eq_self_iff]
  · intro heap₂ m₂ m₂' s₂ h₂ hnul hnul₂
    obtain ⟨-, -, -, hs₂, -⟩ := Message.getString_returned h₂
    rw [hs, hs₂, cutAt_of_notMem hnul, cutAt_of_notMem hnul₂]

/-- A string put on a fresh message and read from it. -/
theorem get_put {t : StdString} {m : Message}
    (hput : (Message.putString .little t).run (Message.new default) = .returns () m)
    (hcount : Countable .little t.chars.length) :
    (Message.getString zeroHeap).run m =
        .returns (cutAt 0 t.chars) { m with offset := 26 + (Value.string t).size } ∧
      m.payload .string = t.chars := by
  have hpast : messageLengthOffset + 2 ≤ (Message.new default).dataLength := Nat.le_refl 26
  obtain ⟨hm, hfit, rfl⟩ := Value.put_returned (v := .string t) hpast hput
  have hload := @Message.place_load .little (.string t) _ hm.past_length
  exact ⟨Message.run_getString_of_put hload hfit hcount zeroHeap_serves,
    Message.payload_string hload ((Message.fieldFits_string_iff hload hfit).mpr hcount)⟩

/-- Reading a string of three letters. -/
theorem iff_notMem_sample :
    ∃ m m', (Message.putString .little ⟨[0x61, 0x62, 0x63], by decide⟩).run
        (Message.new default) = .returns () m ∧
      (Message.getString zeroHeap).run m = .returns [0x61, 0x62, 0x63] m' ∧
      WholeField m [0x61, 0x62, 0x63] m' := by
  have hput := Message.run_putString_fresh (s := ⟨[0x61, 0x62, 0x63], by decide⟩) (by decide)
  obtain ⟨hget, hpayload⟩ := get_put hput (by decide)
  refine ⟨_, _, hput, hget, (iff_notMem hget).1.mpr ?_⟩
  rw [hpayload]
  decide

theorem length_withNul : ([0x61, 0, 0x62] : List UInt8).length < 2 ^ 63 := by decide

/-- A NUL between two letters, and the first of the letters alone: different strings. -/
def withNul : StdString := ⟨[0x61, 0, 0x62], length_withNul⟩

def withoutNul : StdString := ⟨[0x61], by decide⟩

theorem not_withNul :
    ∃ m₁ m₂ m₁' m₂', (Message.putString .little withNul).run (Message.new default) =
        .returns () m₁ ∧
      (Message.putString .little withoutNul).run (Message.new default) = .returns () m₂ ∧
      (Message.getString zeroHeap).run m₁ = .returns [0x61] m₁' ∧
      (Message.getString zeroHeap).run m₂ = .returns [0x61] m₂' ∧
      ¬ WholeField m₁ [0x61] m₁' ∧
      (Value.string withNul).encode .little ≠ (Value.string withoutNul).encode .little := by
  have hput₁ := Message.run_putString_fresh (s := withNul) (by decide)
  have hput₂ := Message.run_putString_fresh (s := withoutNul) (by decide)
  obtain ⟨hget₁, hpayload⟩ := get_put hput₁ (by decide)
  obtain ⟨hget₂, -⟩ := get_put hput₂ (by decide)
  refine ⟨_, _, _, _, hput₁, hput₂, hget₁, hget₂, ?_, by decide⟩
  intro hwhole
  have hchars := (iff_eq_payload hget₁).mp hwhole
  rw [hpayload] at hchars
  exact absurd hchars (by decide)

end WholeField

end Kcmsg
