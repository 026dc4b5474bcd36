import Kcmsg.Connection.Transfer
import Kcmsg.Message.HeaderImage
import Kcmsg.Message.Object

/-!
# Sending a message

A message leaves the process in two ways, and neither sends its image. `WriteMessage` starts at
the address of the object, so what it writes are the members: among the first sixteen bytes is
the pointer `data`, where every image has zeros. `debugMessageSerialize` starts at the address of
that member. Both are off for every message there is (`never_sendsImage`); the loop itself, which
is the one of `Writen`, is not to blame.
-/

namespace Kcmsg

namespace Connection

variable (host : ByteOrder) (mem : Mem) (this : Nat)

def writeMessage : Progress WriteLoop Nat :=
  let retval := Object.dataLength host mem this
  writenLoop retval ⟨this, retval⟩

/-- The body of the loop is the body of the loop in `Writen`. -/
def writeMessageResume : WriteLoop → WriteAnswer → Progress WriteLoop Nat :=
  writenResume (Object.dataLength host mem this)

/-- There is a way for the kernel to answer on which `WriteMessage` returns `value` and has had
`sent` accepted. -/
def WriteMessageReturns (value : Nat) (sent : List UInt8) : Prop :=
  ∃ s c, Run (writeMessageResume host mem this) (kernelWrite mem) (writeMessage host mem this)
    .empty (.returned value s) c ∧ c.pushed = sent

end Connection

/-- `fwrite(&data, data_length, 1, fd)`: what the file holds in the end. -/
def Object.debugMessageSerialize (host : ByteOrder) (mem : Mem) (this : Nat) : List UInt8 :=
  mem.load (this + dataOffset) (dataLength host mem this)

/-- What is sent is the message. -/
structure SendsImage (host : ByteOrder) (mem : Mem) (this : Nat) (m : Message) : Prop where
  whole : ∀ sent, Connection.WriteMessageReturns host mem this m.getMessageLength sent →
    sent = m.image
  part : ∀ sent, Connection.WriteMessageReturns host mem this sizeMax sent → sent <+: m.image
  file : Object.debugMessageSerialize host mem this = m.image

/-! ## What the object holds where the image has zeros -/

section

variable {host : ByteOrder} {mem : Mem} {this : Nat} {m : Message}

/-- From anywhere up to the member `data` on, sixteen bytes of the object and sixteen bytes of
the image differ: the former cover the pointer, the latter are zero. -/
theorem Placed.load_ne_image (h : Placed host mem this m) (hzero : ZeroHeader m) {k n : Nat}
    (hk : k ≤ 8) (hn : 16 ≤ n) : mem.load (this + k) n ≠ m.data.load 0 n := by
  intro hsame
  -- if they were the same, the pointer would be null
  apply h.allocated
  rw [Object.data, host.decode_eq_zero_iff]
  intro b hb
  obtain ⟨i, hi, rfl⟩ := Mem.mem_load.mp hb
  have hindex : this + dataOffset + i = this + k + (8 - k + i) := by
    rw [dataOffset]
    omega
  have hinside : 8 - k + i < messageLengthOffset := show 8 - k + i < 0x18 by omega
  rw [hindex, Mem.load_eq_load_iff.mp hsame (8 - k + i) (by omega), Nat.zero_add,
    hzero.zero _ hinside]

variable (h : Placed host mem this m)
include h

/-- `WriteMessage` runs the loop of `Writen` over the object. -/
theorem Placed.writeMessageReturns {value : Nat} {sent : List UInt8}
    (hlength : m.getMessageLength ≤ maxMsgData)
    (hreturns : Connection.WriteMessageReturns host mem this value sent) :
    (value = m.getMessageLength ∧ sent = mem.load this m.getMessageLength) ∨
      (value = sizeMax ∧ sent.length < m.getMessageLength ∧
        mem.load this sent.length = sent) := by
  obtain ⟨s, c, hrun, rfl⟩ := hreturns
  have hlt : m.getMessageLength < 2 ^ 64 := Nat.lt_of_le_of_lt hlength (by decide)
  rw [Connection.writeMessageResume, Connection.writeMessage, h.dataLength] at hrun
  exact Connection.writeSpec_run hlt hrun

theorem Placed.writeMessage_eq (hpos : 0 < m.getMessageLength) :
    Connection.writeMessage host mem this = .waiting ⟨this, m.getMessageLength⟩ := by
  rw [Connection.writeMessage, h.dataLength]
  exact if_pos hpos

/-- The kernel may take everything at once. -/
theorem Placed.returns_whole (hpos : 0 < m.getMessageLength)
    (hlength : m.getMessageLength ≤ maxMsgData) :
    Connection.WriteMessageReturns host mem this m.getMessageLength
      (mem.load this m.getMessageLength) := by
  have hlt : m.getMessageLength < 2 ^ 64 := Nat.lt_of_le_of_lt hlength (by decide)
  have hend : Connection.writeMessageResume host mem this ⟨this, m.getMessageLength⟩
      (.wrote m.getMessageLength) =
        .returned m.getMessageLength ⟨this + m.getMessageLength, 0⟩ := by
    rw [Connection.writeMessageResume, h.dataLength]
    show Connection.writenLoop m.getMessageLength
      ⟨_, subSizeT m.getMessageLength m.getMessageLength⟩ = _
    rw [subSizeT_of_le (Nat.le_refl _) hlt, Nat.sub_self]
    rfl
  refine ⟨⟨this + m.getMessageLength, 0⟩,
    Channel.empty.push (mem.load this m.getMessageLength), ?_, rfl⟩
  have hallows : (Connection.kernelWrite mem).Allows .empty ⟨this, m.getMessageLength⟩
      (.wrote m.getMessageLength) := ⟨hpos, Nat.le_refl _⟩
  rw [h.writeMessage_eq hpos, ← hend]
  exact Run.single hallows

/-- The kernel may take sixteen bytes and fail. -/
theorem Placed.returns_part (hpos : 16 < m.getMessageLength)
    (hlength : m.getMessageLength ≤ maxMsgData) :
    Connection.WriteMessageReturns host mem this sizeMax (mem.load this 16) := by
  have hlt : m.getMessageLength < 2 ^ 64 := Nat.lt_of_le_of_lt hlength (by decide)
  have hstep : Connection.writeMessageResume host mem this ⟨this, m.getMessageLength⟩
      (.wrote 16) = .waiting ⟨this + 16, m.getMessageLength - 16⟩ := by
    rw [Connection.writeMessageResume, h.dataLength]
    show Connection.writenLoop m.getMessageLength ⟨_, subSizeT m.getMessageLength 16⟩ = _
    rw [subSizeT_of_le (by omega) hlt]
    exact if_pos (Nat.sub_pos_of_lt hpos)
  -- sixteen bytes are taken, and the next call fails
  refine ⟨⟨this + 16, m.getMessageLength - 16⟩,
    (Channel.empty.push (mem.load this 16)).push [], ?_, rfl⟩
  have hallows : (Connection.kernelWrite mem).Allows .empty ⟨this, m.getMessageLength⟩
      (.wrote 16) := ⟨by decide, Nat.le_of_lt hpos⟩
  have hfails : (Connection.kernelWrite mem).Allows (Channel.empty.push (mem.load this 16))
      ⟨this + 16, m.getMessageLength - 16⟩ .failed := trivial
  rw [h.writeMessage_eq (by omega)]
  refine .answer _ hallows ?_
  rw [hstep]
  exact Run.single hfails

end

/-! ## No message is sent -/

section

variable {host : ByteOrder} {mem : Mem} {this : Nat} {m : Message}
  (h : Placed host mem this m) (hzero : ZeroHeader m)
include h hzero

/-- Whatever the kernel accepted of a `WriteMessage` that returned the length is not the image. -/
theorem Placed.sent_ne_image (hlength : m.getMessageLength ≤ maxMsgData) {sent : List UInt8}
    (hreturns : Connection.WriteMessageReturns host mem this m.getMessageLength sent) :
    sent ≠ m.image := by
  have hpast : 26 ≤ m.getMessageLength := hzero.writable.past_length
  rcases h.writeMessageReturns hlength hreturns with ⟨-, rfl⟩ | ⟨hvalue, -, -⟩
  · exact h.load_ne_image hzero (k := 0) (by decide) (by omega)
  · rw [hvalue, sizeMax] at hlength
    exact absurd hlength (by decide)

/-- What is accepted before a failure need not be the beginning of the image. -/
theorem Placed.exists_part_not_image (hlength : m.getMessageLength ≤ maxMsgData) :
    ∃ sent, Connection.WriteMessageReturns host mem this sizeMax sent ∧ ¬ sent <+: m.image := by
  have hpast : 26 ≤ m.getMessageLength := hzero.writable.past_length
  refine ⟨mem.load this 16, h.returns_part (by omega) hlength, fun hpart => ?_⟩
  have hsplit : m.image = m.data.load 0 16 ++ m.data.load (0 + 16) (m.getMessageLength - 16) := by
    rw [← Mem.load_add, Nat.add_sub_cancel' (by omega)]
    rfl
  have hsame : mem.load this 16 = m.data.load 0 16 := by
    rw [List.prefix_iff_eq_take.mp hpart, hsplit, Mem.length_load]
    exact List.take_left' (Mem.length_load _ _ _)
  exact h.load_ne_image hzero (k := 0) (by decide) (Nat.le_refl 16) hsame

theorem Placed.file_ne_image : Object.debugMessageSerialize host mem this ≠ m.image := by
  have hpast : 26 ≤ m.getMessageLength := hzero.writable.past_length
  rw [Object.debugMessageSerialize, h.dataLength]
  exact h.load_ne_image hzero (k := 8) (Nat.le_refl 8) (show 16 ≤ m.getMessageLength by omega)

theorem Placed.not_sendsImage : ¬ SendsImage host mem this m := fun hsends =>
  h.file_ne_image hzero hsends.file

end

/-- **No message is ever sent as it is**: `WriteMessage` can complete, but in none of the ways it
can does it send the image; before a failure it need not send a part of it; and no file holds it. -/
theorem never_sendsImage {host : ByteOrder} {hdr : MessageHeader} {vs : List Value} {r : PutRun}
    (hrun : (PutRun.fresh hdr).putAll host vs = some r)
    (hlength : r.msg.getMessageLength ≤ maxMsgData) {mem : Mem} {this : Nat}
    (h : Placed host mem this r.msg) :
    ¬ SendsImage host mem this r.msg ∧
      (∃ sent, Connection.WriteMessageReturns host mem this r.msg.getMessageLength sent) ∧
      (∀ sent, Connection.WriteMessageReturns host mem this r.msg.getMessageLength sent →
        sent ≠ r.msg.image) ∧
      (∃ sent, Connection.WriteMessageReturns host mem this sizeMax sent ∧
        ¬ sent <+: r.msg.image) ∧
      Object.debugMessageSerialize host mem this ≠ r.msg.image := by
  have hzero : ZeroHeader r.msg := by
    rw [PutRun.putAll_fresh, Option.some.injEq] at hrun
    rw [← hrun]
    exact zeroHeader_result host hdr vs
  have hpast : 26 ≤ r.msg.getMessageLength := hzero.writable.past_length
  exact ⟨h.not_sendsImage hzero, ⟨_, h.returns_whole (by omega) hlength⟩,
    fun sent => h.sent_ne_image hzero hlength, h.exists_part_not_image hzero hlength,
    h.file_ne_image hzero⟩

/-! ## One message -/

/-- A message with one boolean in it. -/
def sampleRun : PutRun := PutRun.result .little default [.scalar (.bool true)]

/-- The object of `sampleRun` at `0x1000`, with its block at `0x10000`. -/
def sampleMem : Mem := Object.layout .little 0x1000 0x10000 sampleRun.msg

theorem placed_sample : Placed .little sampleMem 0x1000 sampleRun.msg :=
  Object.placed_layout .little (by decide) (by decide) (show 26 < 2 ^ 64 by decide)
    (show 28 < 2 ^ 64 by decide) (.inl (by decide))

theorem never_sendsImage_sample : ¬ SendsImage .little sampleMem 0x1000 sampleRun.msg ∧
    Object.debugMessageSerialize .little sampleMem 0x1000 ≠ sampleRun.msg.image :=
  have h := never_sendsImage (PutRun.putAll_fresh .little default [.scalar (.bool true)])
    (show 28 ≤ 0xFFFF by decide) placed_sample
  ⟨h.1, h.2.2.2.2⟩

/-- The file starts with the bytes of the pointer `0x10000`, the image with zeros. -/
theorem not_sendsImage_bool :
    (Object.debugMessageSerialize .little sampleMem 0x1000).take 8 = [0, 0, 1, 0, 0, 0, 0, 0] ∧
      sampleRun.msg.image.take 8 = [0, 0, 0, 0, 0, 0, 0, 0] ∧
      ¬ SendsImage .little sampleMem 0x1000 sampleRun.msg := by
  have hfile : (Object.debugMessageSerialize .little sampleMem 0x1000).take 8 =
      [0, 0, 1, 0, 0, 0, 0, 0] := by decide +kernel
  have himage : sampleRun.msg.image.take 8 = [0, 0, 0, 0, 0, 0, 0, 0] := by decide +kernel
  refine ⟨hfile, himage, fun h => ?_⟩
  rw [h.file, himage] at hfile
  exact absurd hfile (by decide)

end Kcmsg
