import Kcmsg.Message.Length

/-!
# The message object in memory

`Connection` is handed a message by its address, so what it does to it is decided by where the
members lie. On the 64-bit machines in question a `Message` starts with its vtable pointer, and
the members follow in the order of their declaration; the block `data` points to is elsewhere.

    | 00 .. 07 | 08 .. 0F | 10 .. 17 |   18 .. 1F  | 20 .. 3B |
    |  vtable  |   data   |  offset  | data_length |   hdr    |

`Placed host mem this m` says that the object at `this` stands for `m`.
-/

namespace Kcmsg

/-! ## Layout -/

def dataOffset : Nat := 8
def offsetOffset : Nat := 16
def dataLengthOffset : Nat := 24

/-- `sizeof(MessageHeader)`: twenty-four bytes of fields, two bytes of padding in front of
`target_ident` and two behind `flags`. -/
def sizeofMessageHeader : Nat := 28

/-- `sizeof(Message)`, rounded up to the alignment of its pointers. -/
def sizeofMessage : Nat := 64

namespace Object

variable (host : ByteOrder) (mem : Mem) (this : Nat)

/-- The member `data`. -/
def data : Nat := host.decode (mem.load (this + dataOffset) 8)

/-- The member `offset`. -/
def offset : Nat := host.decode (mem.load (this + offsetOffset) 8)

/-- The member `data_length`. -/
def dataLength : Nat := host.decode (mem.load (this + dataLengthOffset) 8)

/-- `readMessageLength()` on the object: from wherever `data` points into `data_length`. Whether
the process may load from there is left to `Connection.readMessageIn`. -/
def readMessageLength : Mem :=
  let msgLen := littleValue 16 (mem.load (data host mem this + messageLengthOffset) 2)
  mem.store (this + dataLengthOffset) (host.encode 8 msgLen.toNat)

end Object

/-- The object at `this` stands for `m`: its members are those of `m`, and it owns a block of its
own that holds the bytes of `m`. -/
structure Placed (host : ByteOrder) (mem : Mem) (this : Nat) (m : Message) : Prop where
  image : mem.load (Object.data host mem this) maxMsgData = m.data.load 0 maxMsgData
  offset : Object.offset host mem this = m.offset
  dataLength : Object.dataLength host mem this = m.dataLength
  allocated : Object.data host mem this ≠ 0
  apart : this + sizeofMessage ≤ Object.data host mem this ∨
    Object.data host mem this + maxMsgData ≤ this

/-- The bytes a message consists of: the first `dataLength` bytes of its block. -/
def Message.image (m : Message) : List UInt8 := m.data.load 0 m.dataLength

/-! ## The object follows the message -/

/-- `readMessageLength` on the object is `readMessageLength` on the message it stands for. -/
theorem Placed.readMessageLength {host : ByteOrder} {mem : Mem} {this : Nat} {m : Message}
    (h : Placed host mem this m) :
    ∃ m', Message.readMessageLength.run m = .returns () m' ∧
      Placed host (Object.readMessageLength host mem this) this m' := by
  refine ⟨_, Message.run_readMessageLength m, ?_⟩
  have hfield : mem.load (Object.data host mem this + messageLengthOffset) 2 =
      m.data.load messageLengthOffset 2 := by
    apply Mem.load_eq_load_iff.mpr
    intro i hi
    have hbyte := Mem.load_eq_load_iff.mp h.image (messageLengthOffset + i)
      (show 0x18 + i < 0xFFFF by omega)
    rwa [Nat.zero_add, ← Nat.add_assoc] at hbyte
  -- the new length is stored behind the pointer, which stays
  have hdata : Object.data host (Object.readMessageLength host mem this) this =
      Object.data host mem this := by
    show host.decode (Mem.load (mem.store (this + 24) _) (this + 8) 8) =
      host.decode (mem.load (this + 8) 8)
    rw [Mem.load_store_of_disjoint (.inl (by omega))]
  refine { image := ?_, offset := ?_, dataLength := ?_, allocated := ?_, apart := ?_ }
  · rw [hdata, ← h.image]
    apply Mem.load_store_of_disjoint
    rw [ByteOrder.length_encode]
    rcases h.apart with hapart | hapart
    · exact .inr (Nat.le_trans (show this + 24 + 8 ≤ this + 64 by omega) hapart)
    · exact .inl (Nat.le_trans hapart (Nat.le_add_right _ _))
  · rw [← h.offset]
    show host.decode (Mem.load (mem.store (this + 24) _) (this + 16) 8) =
      host.decode (mem.load (this + 16) 8)
    rw [Mem.load_store_of_disjoint (.inl (by omega))]
  · have hlt : (littleValue 16 (m.data.load messageLengthOffset 2)).toNat < 256 ^ 8 :=
      Nat.lt_trans (BitVec.isLt _) (by decide)
    show host.decode (Mem.load (mem.store (this + dataLengthOffset) (host.encode 8
      (littleValue 16 (mem.load (Object.data host mem this + messageLengthOffset) 2)).toNat))
      (this + dataLengthOffset) 8) = (littleValue 16 (m.data.load messageLengthOffset 2)).toNat
    rw [hfield]
    have hsame := Mem.load_store_same mem (this + dataLengthOffset)
      (host.encode 8 (littleValue 16 (m.data.load messageLengthOffset 2)).toNat)
    rw [ByteOrder.length_encode] at hsame
    rw [hsame, host.decode_encode hlt]
  · rw [hdata]
    exact h.allocated
  · rw [hdata]
    exact h.apart

/-! ## An object for every message -/

/-- A memory that holds `m` at `this`, with its block at `data`. -/
def Object.layout (host : ByteOrder) (this data : Nat) (m : Message) : Mem :=
  ((Mem.store (fun _ => 0) data (m.data.load 0 maxMsgData)).store (this + dataOffset)
    (host.encode 8 data ++ host.encode 8 m.offset ++ host.encode 8 m.dataLength))

theorem Object.placed_layout (host : ByteOrder) {this data : Nat} {m : Message}
    (hdata : data ≠ 0) (hdata_lt : data < 2 ^ 64) (hoffset : m.offset < 2 ^ 64)
    (hlength : m.dataLength < 2 ^ 64)
    (hapart : this + sizeofMessage ≤ data ∨ data + maxMsgData ≤ this) :
    Placed host (layout host this data m) this m := by
  -- the three members are written at once; each is read back from its own eight bytes
  have hmember {i n : Nat} (hn : n < 2 ^ 64) (hi : i + 8 ≤ 24)
      (hbytes : ((host.encode 8 data ++ host.encode 8 m.offset ++
        host.encode 8 m.dataLength).drop i).take 8 = host.encode 8 n) :
      host.decode ((layout host this data m).load (this + dataOffset + i) 8) = n := by
    rw [layout, Mem.load_store_within _ _ (by simpa using hi), hbytes, host.decode_encode hn]
  have hptr : Object.data host (layout host this data m) this = data := by
    apply hmember (i := 0) hdata_lt (by decide)
    rw [List.drop_zero, List.append_assoc, List.take_left' (host.length_encode 8 data)]
  refine { image := ?_, offset := ?_, dataLength := ?_, allocated := ?_, apart := ?_ }
  · rw [hptr, layout, Mem.load_store_of_disjoint]
    · have hsame := Mem.load_store_same (fun _ => 0) data (m.data.load 0 maxMsgData)
      rwa [Mem.length_load] at hsame
    · rw [List.length_append, List.length_append, ByteOrder.length_encode,
        ByteOrder.length_encode, ByteOrder.length_encode]
      rcases hapart with hapart | hapart
      · exact .inr (Nat.le_trans (show this + 8 + 24 ≤ this + 64 by omega) hapart)
      · exact .inl (Nat.le_trans hapart (Nat.le_add_right _ _))
  · apply hmember (i := 8) hoffset (by decide)
    rw [List.append_assoc, List.drop_left' (host.length_encode 8 data),
      List.take_left' (host.length_encode 8 m.offset)]
  · apply hmember (i := 16) hlength (by decide)
    rw [List.drop_left' (by simp), List.take_of_length_le (by simp)]
  · rw [hptr]
    exact hdata
  · rw [hptr]
    exact hapart

end Kcmsg
