import Kcmsg.Message.HeaderLayout
import Kcmsg.Message.HostOrder
import Kcmsg.Message.Queue

/-!
# From one host to another

A message that is complete is its image: the block up to `data_length`, with the header written
into it. Whoever has the image restores the header and the length from its first bytes and reads
the values behind them, each with the getter of its kind.

On a host of either byte order this gives back what was put exactly for the values that are
`Portable` between the two hosts (`PutRun.carried_iff`). For strings the host that reads does not
matter: the length byte is spoiled where it is written, if at all. The first value that is not
portable ends the reading, or is read as another one, or leaves the cursor inside itself; in the
last case the byte it is left on is no tag of any getter.
-/

namespace Kcmsg

/-! ## Values between hosts -/

/-- Reading the bytes of an object gives a representation of just these bytes. -/
theorem native_nativeValue (host : ByteOrder) {k w : Nat} {bytes : List UInt8}
    (hw : bytes.length = w) (hk : 256 ^ w ≤ 2 ^ k) :
    native host w (nativeValue host k bytes) = bytes := by
  have hlt : host.decode bytes < 256 ^ w := hw ▸ host.decode_lt bytes
  rw [native, nativeValue, BitVec.toNat_ofNat, Nat.mod_eq_of_lt (Nat.lt_of_lt_of_le hlt hk), ← hw,
    ByteOrder.encode_decode]

namespace ScalarValue

theorem payload_eq_iff_hosts (a b : ByteOrder) (v : ScalarValue) :
    v.payload a = v.payload b ↔ a = b ∨ v.OrderFree := by
  cases a <;> cases b
  · exact iff_of_true rfl (.inl rfl)
  · rw [v.payload_eq_iff, or_iff_right (by decide)]
  · rw [eq_comm, v.payload_eq_iff, or_iff_right (by decide)]
  · exact iff_of_true rfl (.inl rfl)

/-- Host `b` reads from a payload of host `a` the value it is of, if the two write the same. -/
theorem value_payload_iff (a b : ByteOrder) (v : ScalarValue) :
    v.kind.value b (v.payload a) = v ↔ a = b ∨ v.OrderFree := by
  rw [← payload_eq_iff_hosts]
  constructor
  · intro h
    cases v with
    | float x =>
        have hx : nativeValue b 32 (native a 4 x) = x := float.inj h
        have hbytes := native_nativeValue b (length_native a 4 x) (show 256 ^ 4 ≤ 2 ^ 32 by decide)
        rw [hx] at hbytes
        exact hbytes.symm
    | double x =>
        have hx : nativeValue b 64 (native a 8 x) = x := double.inj h
        have hbytes := native_nativeValue b (length_native a 8 x) (show 256 ^ 8 ≤ 2 ^ 64 by decide)
        rw [hx] at hbytes
        exact hbytes.symm
    | wchar x =>
        have hx : nativeValue b 32 (native a 4 x) = x := wchar.inj h
        have hbytes := native_nativeValue b (length_native a 4 x) (show 256 ^ 4 ≤ 2 ^ 32 by decide)
        rw [hx] at hbytes
        exact hbytes.symm
    | _ => rfl
  · intro h
    rw [h, value_payload]

end ScalarValue

namespace Value

/-- What a put of the value writes on host `a`, the getter of its kind reads on host `b`. -/
def Portable (a b : ByteOrder) : Value → Prop
  | scalar v => v.kind ≠ .long ∧ (a = b ∨ v.OrderFree)
  | string s => 0 ∉ s.chars ∧ Countable a s.chars.length
  | wstring _ => False

section Reading

variable {a b : ByteOrder} {heap : Heap} {v : Value} {m m' : Message}

theorem not_isLongWide_of_portable (hv : v.Portable a b) : ¬ v.IsLongWide := by
  cases v with
  | scalar v => exact id
  | string s => exact id
  | wstring s => exact hv.elim

/-- What the getter of another kind than long makes of a scalar. -/
theorem run_get_scalar (b : ByteOrder) (heap : Heap) {v : ScalarValue} (hlong : v.kind ≠ .long)
    (hload : m.data.load m.offset (Value.scalar v).size = (Value.scalar v).encode a)
    (hroom : m.offset + (Value.scalar v).size ≤ maxMsgData) :
    ((Getter.scalar v.kind).get b heap).run m =
      .returns (.scalar (v.kind.value b (v.payload a)))
        { m with offset := m.offset + (Value.scalar v).size } := by
  obtain ⟨htag, hpayload⟩ := ScalarValue.tag_and_payload hload
  have hsize := v.size_eq
  have hrun := ScalarKind.run_get b hlong (m := m) (by omega) htag
  rw [hpayload, Nat.add_assoc, ← hsize] at hrun
  exact Program.run_bind_returns _ hrun

/-- **A portable value is read back** on the other host, and the cursor is left behind it. -/
theorem run_get_of_portable (hv : v.Portable a b)
    (hload : m.data.load m.offset v.size = v.encode a) (hroom : m.offset + v.size ≤ maxMsgData)
    (hheap : heap.Serves) :
    (v.getter.get b heap).run m = .returns v.decoded { m with offset := m.offset + v.size } := by
  cases v with
  | scalar v =>
      obtain ⟨hlong, hhosts⟩ := hv
      have hrun := run_get_scalar b heap hlong hload hroom
      rwa [(v.value_payload_iff a b).mpr hhosts] at hrun
  | string s =>
      -- `getString` is the same program on every host
      have hreadable : (Value.string s).Readable a := hv
      have hget := run_get hreadable hload hroom hheap
      exact hget
  | wstring s => exact hv.elim

/-- The third byte of a long value that its low half stands for is no tag. -/
theorem third_byte_of_long {i : Int32} {mem : Mem} {p : Nat}
    (hload : mem.load p (Value.scalar (.long i)).size = (Value.scalar (.long i)).encode a)
    (hhalf : Message.lowHalf i = i) : mem (p + 3) = 0 ∨ mem (p + 3) = 0xFF := by
  obtain ⟨-, hpayload⟩ := ScalarValue.tag_and_payload hload
  have hword : mem.load (p + 1) 4 = leBytes 4 i.toBitVec.toNat := hpayload
  have hbyte : mem (p + 3) = UInt8.ofNat (i.toBitVec.toNat / 256 / 256) := by
    have hget := congrArg (fun bytes => bytes[2]?) hword
    rw [Mem.getElem?_load, if_pos (by decide)] at hget
    exact Option.some.inj hget
  obtain ⟨hlower, hupper⟩ := Message.lowHalf_eq_iff.mp hhalf
  have hint := BitVec.toInt_eq_toNat_cond i.toBitVec
  have hlt := i.toBitVec.isLt
  rw [← Int32.toInt_toBitVec] at hlower hupper
  rw [hbyte]
  by_cases hneg : 2 * i.toBitVec.toNat < 2 ^ 32
  · left
    rw [if_pos hneg] at hint
    rw [show i.toBitVec.toNat / 256 / 256 = 0 by omega]
    rfl
  · right
    rw [if_neg hneg] at hint
    rw [show i.toBitVec.toNat / 256 / 256 = 0xFFFF by omega]
    rfl

theorem toInt_ofNat_le (k l : Nat) : (BitVec.ofNat k l).toInt ≤ l := by
  have hle : l % 2 ^ k ≤ l := Nat.mod_le l _
  rw [BitVec.toInt_eq_toNat_cond, BitVec.toNat_ofNat]
  split <;> omega

/-- The length that `getString` takes from a prefix of `putString` is never too long. -/
theorem signedLength_string_le {s : StdString}
    (hload : m.data.load m.offset (Value.string s).size = (Value.string s).encode a)
    (hroom : m.offset + (Value.string s).size ≤ maxMsgData) :
    m.signedLength .string ≤ s.chars.length := by
  have hlt : s.chars.length < 65536 := by
    simp only [Value.size, Value.payloadWidth, maxMsgData] at hroom
    omega
  obtain ⟨htag, hprefix, -⟩ := Value.parts hload
  have hbytes : m.data.load (m.offset + 1) (if 255 < s.chars.length then 2 else 1) =
      if 255 < s.chars.length then leBytes 2 s.chars.length
      else [if a = .little then UInt8.ofNat s.chars.length else 0] := by
    refine hprefix.trans ?_
    rw [Value.lengthPrefix]
    by_cases hlong : 255 < s.chars.length
    · rw [if_pos hlong, if_pos hlong]
    · rw [if_neg hlong, if_neg hlong, take_encode a (by omega)]
  rw [Message.signedLength_of_tag htag hbytes hlt]
  by_cases hlong : 255 < s.chars.length
  · rw [if_pos hlong]
    exact toInt_ofNat_le 16 _
  · rw [if_neg hlong]
    refine Int.le_trans (toInt_ofNat_le 8 _) (Int.ofNat_le.mpr ?_)
    split
    · rw [UInt8.toNat_ofNat']
      exact Nat.mod_le _ _
    · exact Nat.zero_le _

theorem portable_of_getString {s : StdString}
    (hload : m.data.load m.offset (Value.string s).size = (Value.string s).encode a)
    (hroom : m.offset + (Value.string s).size ≤ maxMsgData)
    (hget : (Message.getString heap).run m = .returns s.chars m') :
    0 ∉ s.chars ∧ Countable a s.chars.length := by
  obtain ⟨n, hfits, -, hchars, -⟩ := Message.getString_returned hget
  have hlower : s.chars.length ≤ n := by
    have hcut : s.chars.length ≤ (m.payload .string).length := by
      rw [hchars]
      exact (List.takeWhile_prefix _).length_le
    rwa [hfits.length_payload, StringKind.charSize, Nat.mul_one] at hcut
  have hupper := signedLength_string_le hload hroom
  rw [hfits.length] at hupper
  obtain rfl : n = s.chars.length := Nat.le_antisymm (Int.ofNat_le.mp hupper) hlower
  refine ⟨?_, (Message.fieldFits_string_iff hload hroom).mp hfits⟩
  rw [hchars]
  exact notMem_cutAt 0 _

/-- From a dirty heap no wide string comes back whole. -/
theorem getWString_dirty_ne {w : StdWString}
    (hload : m.data.load m.offset (Value.wstring w).size = (Value.wstring w).encode a)
    (hroom : m.offset + (Value.wstring w).size ≤ maxMsgData) :
    (Message.getWString dirtyHeap b).run m ≠ .returns w.chars m' := by
  intro hget
  obtain ⟨n, bytes, hfits, -, hstop, -⟩ := Message.getWString_returned hget
  obtain ⟨hn, -⟩ := (Message.fieldFits_wstring_iff hload hroom).mp hfits
  by_cases hzero : 0 ∈ wideChars b (m.payload .wstring)
  · -- what is in front of a zero is not the whole payload
    rw [untilStop_of_mem hzero, Option.some.injEq] at hstop
    have hlength : (cutAt 0 (wideChars b (m.payload .wstring))).length =
        (wideChars b (m.payload .wstring)).length := by
      rw [hstop, DependsOnMessage.length_wideChars_payload b hfits, hn]
    have hall : cutAt 0 (wideChars b (m.payload .wstring)) = wideChars b (m.payload .wstring) :=
      (List.takeWhile_prefix _).eq_of_length hlength
    exact cutAt_eq_self_iff.mp hall hzero
  · rw [Message.run_getWString_dirty hfits hzero] at hget
    cases hget

/-- Conversely, a value that is read back was portable, or it is a long one and the cursor is left
on one of its bytes, which no getter takes for a tag. -/
theorem portable_or_long (hload : m.data.load m.offset v.size = v.encode a)
    (hroom : m.offset + v.size ≤ maxMsgData)
    (hget : (v.getter.get b dirtyHeap).run m = .returns v.decoded m') :
    v.Portable a b ∨ m' = { m with offset := m.offset + 3 } ∧ v.size = 5 ∧
      ∀ g : Getter, ¬ g.HasTag (m.data (m.offset + 3)) := by
  cases v with
  | scalar v =>
      by_cases hlong : v.kind = .long
      · cases v with
        | long i =>
            have hthree : ((Getter.scalar .long).get b dirtyHeap).run m = _ :=
              Program.run_bind_returns _
                (Program.run_bind_returns _ (Message.run_getLong_of_put hload hroom))
            obtain ⟨hvalue, rfl⟩ := Outcome.returns.inj (hthree.symm.trans hget)
            have hhalf : Message.lowHalf i = i :=
              ScalarValue.long.inj (Decoded.scalar.inj hvalue)
            refine .inr ⟨rfl, rfl, fun g => ?_⟩
            rcases third_byte_of_long hload hhalf with hbyte | hbyte
            · rw [hbyte]
              exact g.not_hasTag_zero
            · rw [hbyte]
              cases g with
              | scalar k => cases k <;> decide
              | string => decide
              | wstring => decide
        | _ => cases hlong
      · have hrun := run_get_scalar b dirtyHeap hlong hload hroom
        obtain ⟨hvalue, -⟩ := Outcome.returns.inj (hrun.symm.trans hget)
        exact .inl ⟨hlong, (v.value_payload_iff a b).mp (Decoded.scalar.inj hvalue)⟩
  | string s =>
      obtain ⟨chars, m₁, hstring, hpure⟩ := Program.exists_of_bind_returns hget
      cases hpure
      exact .inl (portable_of_getString hload hroom hstring)
  | wstring w =>
      obtain ⟨chars, m₁, hwide, hpure⟩ := Program.exists_of_bind_returns hget
      cases hpure
      exact absurd hwide (getWString_dirty_ne hload hroom)

end Reading

end Value

/-! ## Reading all of a message -/

/-- The calls get the values in order, on whatever heaps they find. -/
def Gets (vs : List Value) (calls : List MessageCall) : Prop :=
  List.Forall₂ (fun v call => ∃ heap : Heap, heap.Serves ∧ call = .get v.getter heap) vs calls

section Layouts

variable {a b : ByteOrder} {m m' : Message} {vs : List Value} {p q : Nat}

/-- A layout is one in every block that is the same up to its end. -/
theorem Laid.carry {data data' : Mem} (h : Laid a data p vs q)
    (hsame : ∀ i, i < q → i < maxMsgData → data' i = data i) : Laid a data' p vs q := by
  induction vs generalizing p with
  | nil => exact h
  | cons v vs ih =>
      obtain ⟨hload, hroom, hrest⟩ := h
      have hle := hrest.le
      refine ⟨?_, hroom, ih hrest⟩
      rw [← hload]
      exact Mem.load_eq_load_iff.mpr fun i hi => hsame (p + i) (by omega) (by omega)

theorem Laid.run_gets (h : Laid a m.data p vs q) (hp : m.offset = p)
    (hvs : ∀ v ∈ vs, v.Portable a b) {calls : List MessageCall} (hcalls : Gets vs calls) :
    MessageCall.runAll b m calls =
      some (vs.map fun v => .value v.decoded, { m with offset := q }) := by
  induction vs generalizing m p calls with
  | nil =>
      cases hcalls
      obtain rfl : p = q := h
      subst hp
      rfl
  | cons v vs ih =>
      subst hp
      cases hcalls with
      | cons hcall hcalls =>
          obtain ⟨heap, hheap, rfl⟩ := hcall
          obtain ⟨hload, hroom, hrest⟩ := h
          obtain ⟨hv, hvs⟩ := List.forall_mem_cons.mp hvs
          rw [Value.gap_of_not_isLongWide (Value.not_isLongWide_of_portable hv),
            Nat.add_zero] at hrest
          have hget := Value.run_get_of_portable hv hload hroom hheap
          have hlater := ih (m := { m with offset := m.offset + v.size }) hrest rfl hvs hcalls
          rw [MessageCall.runAll, MessageCall.step, hget, Reply.ofOutcome, Option.bind_some,
            hlater]
          rfl

/-- The first value that is not portable is not read, or nothing behind it is. -/
theorem Laid.portable_of_gets (h : Laid a m.data p vs q) (hp : m.offset = p)
    (hrun : MessageCall.runAll b m (vs.map fun v => .get v.getter dirtyHeap) =
      some (vs.map fun v => .value v.decoded, m')) (hend : m'.offset = q) :
    ∀ v ∈ vs, v.Portable a b := by
  induction vs generalizing m p with
  | nil => exact fun v hv => absurd hv List.not_mem_nil
  | cons v vs ih =>
      subst hp
      obtain ⟨hload, hroom, hrest⟩ := h
      rw [List.map_cons, MessageCall.runAll, Option.bind_eq_some_iff] at hrun
      obtain ⟨⟨reply, m₁⟩, hstep, hgets⟩ := hrun
      obtain ⟨⟨replies, m₂⟩, hlater, heq⟩ := Option.map_eq_some_iff.mp hgets
      obtain ⟨hreplies, rfl⟩ := Prod.mk.inj heq
      obtain ⟨rfl, rfl⟩ := List.cons.inj hreplies
      have hget : (v.getter.get b dirtyHeap).run m = .returns v.decoded m₁ := by
        rw [MessageCall.step] at hstep
        cases hout : (v.getter.get b dirtyHeap).run m with
        | returns val m₀ =>
            rw [hout] at hstep
            cases hstep
            rfl
        | throws what m₀ =>
            rw [hout] at hstep
            cases hstep
        | aborts =>
            rw [hout] at hstep
            cases hstep
        | faults =>
            rw [hout] at hstep
            cases hstep
      rw [List.forall_mem_cons]
      rcases Value.portable_or_long hload hroom hget with hv | ⟨rfl, hsize, htag⟩
      · have hnext := Value.run_get_of_portable hv hload hroom dirtyHeap_serves
        obtain ⟨-, rfl⟩ := Outcome.returns.inj (hnext.symm.trans hget)
        rw [Value.gap_of_not_isLongWide (Value.not_isLongWide_of_portable hv),
          Nat.add_zero] at hrest
        exact ⟨hv, ih (m := { m with offset := m.offset + v.size }) hrest rfl hlater⟩
      · -- the cursor is inside the long value
        exfalso
        cases vs with
        | nil =>
            cases hlater
            have hq : m.offset + v.size + v.gap = q := hrest
            have hthree : m.offset + 3 = q := hend
            omega
        | cons w ws =>
            have haborts : (w.getter.get b dirtyHeap).run { m with offset := m.offset + 3 } =
                .aborts :=
              Getter.run_of_not_hasTag (show m.offset + 3 + 1 ≤ maxMsgData by omega)
                (htag w.getter)
            rw [List.map_cons, MessageCall.runAll, MessageCall.step, haborts] at hlater
            cases hlater

end Layouts

/-! ## Carrying an image -/

namespace PutRun

variable {a b : ByteOrder} {hdr : MessageHeader} {vs : List Value}

/-- The values have been put on a message on host `a`, and its header written. Any message on host
`b` that has got the image has header and length restored from it, and then the gets of the values
that were accepted return them and leave nothing unread. -/
def Carried (a b : ByteOrder) (hdr : MessageHeader) (vs : List Value) : Prop :=
  ∀ r w, (fresh hdr).putAll a vs = some r → Message.writeHeader.run r.msg = .returns () w →
    ∀ m : Message, m.offset = 26 →
      (∀ i, i < w.dataLength → i < maxMsgData → m.data i = w.data i) →
      ∃ m', (do Message.readHeader; Message.readMessageLength).run m = .returns () m' ∧
        m'.hdr = hdr ∧ m'.dataLength = w.dataLength ∧
        ∀ calls, Gets r.accepted calls → MessageCall.runAll b m' calls =
          some (r.accepted.map fun v => .value v.decoded, { m' with offset := m'.dataLength })

/-- The message at the end of the puts with its header in the block. -/
def written (a : ByteOrder) (hdr : MessageHeader) (vs : List Value) : Message :=
  { (result a hdr vs).msg with
    data := RecordField.storeAll hdr (result a hdr vs).msg.data headerFields
    hdr := hdr }

theorem extends_result : (fresh hdr).msg.Extends (result a hdr vs).msg := extends_foldl a _ vs

theorem run_writeHeader_result :
    Message.writeHeader.run (result a hdr vs).msg = .returns () (written a hdr vs) := by
  have hhdr : (result a hdr vs).msg.hdr = hdr := extends_result.hdr
  rw [Message.run_writeHeader, written, hhdr]

theorem written_of_ge {i : Nat} (hi : messageLengthOffset ≤ i) :
    (written a hdr vs).data i = (result a hdr vs).msg.data i :=
  Message.storeAll_header_of_ge hdr _ hi

theorem laid_written (a : ByteOrder) (hdr : MessageHeader) (vs : List Value) :
    Laid a (written a hdr vs).data 26 (admitted 26 vs) (written a hdr vs).dataLength := by
  have hlaid := laid_result a hdr vs
  rw [result_accepted] at hlaid
  exact hlaid.frame fun i hi _ => written_of_ge (Nat.le_trans (Nat.le_add_right _ 2) hi)

theorem headerOf_written : headerOf (written a hdr vs).data = hdr :=
  headerOf_eq_of_load (tiles_headerFields.load_storeAll hdr _)

/-- What the first bytes of an image restore: the header, and whatever the length field holds. -/
theorem run_restore {m : Message}
    (hsame : ∀ i, i < (written a hdr vs).dataLength → i < maxMsgData →
      m.data i = (written a hdr vs).data i) :
    (do Message.readHeader; Message.readMessageLength).run m =
      .returns () { m with hdr := hdr, dataLength := (result a hdr vs).msg.storedLength } := by
  have hfirst (i : Nat) (hi : i < messageLengthOffset + 2) : m.data i = (written a hdr vs).data i :=
    hsame i (Nat.lt_of_lt_of_le hi extends_result.grows)
      (Nat.lt_of_lt_of_le hi (show 0x18 + 2 ≤ 0xFFFF by decide))
  have hheader : headerOf m.data = hdr := by
    have hbelow := headerOf_congr fun i hi => hfirst i (Nat.lt_add_right 2 hi)
    exact hbelow.trans headerOf_written
  have hfield : m.data.load messageLengthOffset 2 =
      (result a hdr vs).msg.data.load messageLengthOffset 2 := by
    refine Mem.load_eq_load_iff.mpr fun i hi => ?_
    rw [hfirst _ (Nat.add_lt_add_left hi _), written_of_ge (Nat.le_add_right _ _)]
  rw [Program.run_bind_returns _ (Message.run_readHeader m), hheader,
    Message.run_readMessageLength, Message.storedLength, ← hfield]

theorem portable_of_carried (h : Carried a b hdr vs) :
    ∀ v ∈ admitted 26 vs, v.Portable a b := by
  have hoffset : (written a hdr vs).offset = 26 := extends_result.offset
  obtain ⟨m', hrun, -, hlength, hgets⟩ := h _ _ (putAll_fresh a hdr vs) run_writeHeader_result
    (written a hdr vs) hoffset fun _ _ _ => rfl
  rw [run_restore fun _ _ _ => rfl] at hrun
  cases hrun
  rw [result_accepted] at hgets
  have hdirty : Gets (admitted 26 vs) ((admitted 26 vs).map fun v => .get v.getter dirtyHeap) := by
    rw [Gets, List.forall₂_map_right_iff]
    exact List.forall₂_same.mpr fun v _ => ⟨dirtyHeap, dirtyHeap_serves, rfl⟩
  refine Laid.portable_of_gets (p := 26) ?_ ?_ (hgets _ hdirty) hlength
  · exact laid_written a hdr vs
  · exact hoffset

theorem carried_of_portable (h : ∀ v ∈ admitted 26 vs, v.Portable a b) : Carried a b hdr vs := by
  intro r w hr hw m hoffset hsame
  rw [putAll_fresh, Option.some.injEq] at hr
  subst hr
  cases run_writeHeader_result.symm.trans hw
  have hstored : (result a hdr vs).msg.storedLength = (written a hdr vs).dataLength := by
    have haccounts := (accounts_every_prefix_iff a hdr vs).mpr
      (fun v hv => Value.not_isLongWide_of_portable (h v hv)) vs (List.prefix_refl vs)
    exact haccounts.stored.symm
  rw [run_restore hsame, hstored]
  refine ⟨_, rfl, rfl, rfl, fun calls hcalls => ?_⟩
  rw [result_accepted] at hcalls ⊢
  refine Laid.run_gets (p := 26) ?_ ?_ h hcalls
  · exact (laid_written a hdr vs).carry hsame
  · exact hoffset

/-- **The image carries exactly the portable values** from a host to another, or to itself. -/
theorem carried_iff (a b : ByteOrder) (hdr : MessageHeader) (vs : List Value) :
    Carried a b hdr vs ↔ ∀ v ∈ admitted 26 vs, v.Portable a b :=
  ⟨portable_of_carried, carried_of_portable⟩

end PutRun

end Kcmsg
