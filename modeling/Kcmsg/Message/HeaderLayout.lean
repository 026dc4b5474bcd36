import Kcmsg.Library.Fields
import Kcmsg.Message.AppendOnly
import Kcmsg.Message.HeaderImage

/-!
# The header layout

`writeHeader` and `readHeader` exchange the header record with the first `0x18` bytes of the block
in eighteen copies, at offsets that the source writes down by hand. `headerFields` is the table
those offsets spell. What the two functions have to do with each other rests on one property of
the table, that its rows tile the first `0x18` bytes: it makes each of the two functions undo the
other (`readHeader_of_writeHeader`, `writeHeader_of_readHeader`), and it says which bytes are
written (`writes_writeHeader_iff`).
-/

namespace Kcmsg

/-- The fields of the header: where they stand, how many bytes they take, what they spell. -/
def headerFields : List (RecordField MessageHeader) :=
  [⟨headerSourceIdentOffset, 4, fun hdr => hdr.sourceIdent.toNat⟩,
    ⟨headerSourceOrganizationOffset, 2, fun hdr => hdr.sourceOrganization.toNat⟩,
    ⟨headerTargetIdentOffset, 4, fun hdr => hdr.targetIdent.toNat⟩,
    ⟨headerTargetOrganizationOffset, 2, fun hdr => hdr.targetOrganization.toNat⟩,
    ⟨headerTransactionIdentOffset, 2, fun hdr => hdr.transactionIdent.toNat⟩,
    ⟨headerTransactionApplicationOffset, 2, fun hdr => hdr.transactionApplication.toNat⟩,
    ⟨headerTransactionOrganizationOffset, 2, fun hdr => hdr.transactionOrganization.toNat⟩,
    ⟨headerTtlOffset, 4, fun hdr => hdr.ttl.toNat⟩,
    ⟨headerFlagsOffset, 2, fun hdr => hdr.flags.toNat⟩]

theorem tiles_headerFields : RecordField.Tiles 0 headerFields messageLengthOffset := by
  simp only [RecordField.Tiles, headerFields]
  decide

/-! ## The two directions -/

/-- A header is determined by the bytes of its fields. -/
theorem headerOf_eq_of_load {data : Mem} {hdr : MessageHeader}
    (h : ∀ f ∈ headerFields, data.load f.offset f.width = f.bytes hdr) : headerOf data = hdr := by
  simp only [headerFields, List.forall_mem_cons] at h
  obtain ⟨h₁, h₂, h₃, h₄, h₅, h₆, h₇, h₈, h₉, -⟩ := h
  have h32 (x : UInt32) : UInt32.ofBitVec (littleValue 32 (leBytes 4 x.toNat)) = x :=
    congrArg UInt32.ofBitVec (littleValue_littleBuf x.toBitVec (by decide))
  have h16 (x : UInt16) : UInt16.ofBitVec (littleValue 16 (leBytes 2 x.toNat)) = x :=
    congrArg UInt16.ofBitVec (littleValue_littleBuf x.toBitVec (by decide))
  rw [headerOf, h₁, h₂, h₃, h₄, h₅, h₆, h₇, h₈, h₉]
  simp only [RecordField.bytes, h32, h16]

/-- The other way round: the decoded header spells the bytes it was decoded from. -/
theorem bytes_headerOf (data : Mem) :
    ∀ f ∈ headerFields, f.bytes (headerOf data) = data.load f.offset f.width := by
  have hword (p w : Nat) : leBytes w (ofLE (data.load p w) % 256 ^ w) = data.load p w := by
    have hlt := ofLE_lt (data.load p w)
    have hagain := leBytes_ofLE (data.load p w)
    rw [Mem.length_load] at hlt hagain
    rw [Nat.mod_eq_of_lt hlt, hagain]
  simp only [headerFields, List.forall_mem_cons]
  exact ⟨hword _ 4, hword _ 2, hword _ 4, hword _ 2, hword _ 2, hword _ 2, hword _ 2, hword _ 4,
    hword _ 2, fun f hf => absurd hf List.not_mem_nil⟩

namespace Message

theorem run_memcpyTo_littleBuf (m : Message) {dst w k : Nat} (x : BitVec k)
    (h : dst + w ≤ maxMsgData) :
    (memcpyTo dst (littleBuf w x)).run m =
      .returns () { m with data := m.data.store dst (leBytes w x.toNat) } :=
  run_memcpyTo m (by rwa [length_littleBuf])

/-- The nine copies of `writeHeader` all stay in the block. -/
theorem run_writeHeader (m : Message) :
    writeHeader.run m =
      .returns () { m with data := RecordField.storeAll m.hdr m.data headerFields } := by
  unfold writeHeader
  rw [Program.run_get_bind]
  rw [Program.run_bind_returns _ (run_memcpyTo_littleBuf m _ (by decide)),
    Program.run_bind_returns _ (run_memcpyTo_littleBuf _ _ (by decide)),
    Program.run_bind_returns _ (run_memcpyTo_littleBuf _ _ (by decide)),
    Program.run_bind_returns _ (run_memcpyTo_littleBuf _ _ (by decide)),
    Program.run_bind_returns _ (run_memcpyTo_littleBuf _ _ (by decide)),
    Program.run_bind_returns _ (run_memcpyTo_littleBuf _ _ (by decide)),
    Program.run_bind_returns _ (run_memcpyTo_littleBuf _ _ (by decide)),
    Program.run_bind_returns _ (run_memcpyTo_littleBuf _ _ (by decide)),
    run_memcpyTo_littleBuf _ _ (by decide)]
  rfl

/-- The `0x18` bytes that a header spells. -/
def headerBytes (hdr : MessageHeader) : List UInt8 := headerFields.flatMap fun f => f.bytes hdr

@[simp] theorem length_headerBytes (hdr : MessageHeader) :
    (headerBytes hdr).length = messageLengthOffset := by
  have hlength := tiles_headerFields.length_flatMap_bytes hdr
  rwa [Nat.zero_add] at hlength

/-- What `writeHeader` does to the block, in one piece. -/
theorem storeAll_header (hdr : MessageHeader) (data : Mem) :
    RecordField.storeAll hdr data headerFields = data.store 0 (headerBytes hdr) :=
  tiles_headerFields.storeAll_eq hdr data

theorem storeAll_header_of_ge (hdr : MessageHeader) (data : Mem) {i : Nat}
    (hi : messageLengthOffset ≤ i) : RecordField.storeAll hdr data headerFields i = data i := by
  rw [storeAll_header]
  exact Mem.store_of_ge (by simpa using hi)

/-- **Reading after writing.** Whatever stands in `hdr` by then. -/
theorem readHeader_of_writeHeader {m w : Message} (hwrite : writeHeader.run m = .returns () w)
    (hdr : MessageHeader) :
    readHeader.run { w with hdr := hdr } = .returns () { w with hdr := m.hdr } := by
  cases (run_writeHeader m).symm.trans hwrite
  rw [run_readHeader]
  have hdecoded : headerOf (RecordField.storeAll m.hdr m.data headerFields) = m.hdr :=
    headerOf_eq_of_load (tiles_headerFields.load_storeAll m.hdr m.data)
  rw [hdecoded]

/-- **Writing after reading** stores every byte over itself. -/
theorem writeHeader_of_readHeader {m r : Message} (hread : readHeader.run m = .returns () r) :
    writeHeader.run r = .returns () r ∧ r.data = m.data := by
  cases (run_readHeader m).symm.trans hread
  refine ⟨?_, rfl⟩
  rw [run_writeHeader]
  have hbytes : headerBytes (headerOf m.data) = m.data.load 0 messageLengthOffset := by
    rw [← Nat.sub_zero messageLengthOffset, ← tiles_headerFields.flatMap_load m.data]
    exact List.flatMap_congr (bytes_headerOf m.data)
  have hsame : RecordField.storeAll (headerOf m.data) m.data headerFields = m.data := by
    rw [storeAll_header, hbytes, Mem.store_load_same]
  rw [hsame]

/-- **Which bytes are written**: those below the length field, all of them. -/
theorem writes_writeHeader_iff (m : Message) (i : Nat) :
    Writes writeHeader m i ↔ i < messageLengthOffset := by
  constructor
  · rintro ⟨data, m', hrun, hne⟩
    rw [run_writeHeader] at hrun
    apply Nat.lt_of_not_le
    intro hi
    rcases hrun with hrun | ⟨_, hrun⟩
    · cases hrun
      exact hne (storeAll_header_of_ge m.hdr data hi)
    · cases hrun
  · intro hi
    -- a block that holds something else than the header's byte at `i`
    let byte : UInt8 := m.data.store 0 (headerBytes m.hdr) i
    refine ⟨fun _ => byte + 1, _, .inl (run_writeHeader _), ?_⟩
    show RecordField.storeAll m.hdr (fun _ => byte + 1) headerFields i ≠ byte + 1
    rw [storeAll_header, Mem.store_congr_within m.data (Nat.zero_le i) (by simpa using hi)]
    intro heq
    exact absurd (UInt8.add_eq_left.mp heq.symm) (by decide)

/-- The header record and the first `0x18` bytes of the block are two forms of one thing: each is
restored from the other, the fields tile those bytes, and nothing else is written. -/
structure HeaderCodec (m : Message) : Prop where
  written : ∃ w, writeHeader.run m = .returns () w ∧ w.offset = m.offset ∧
    w.dataLength = m.dataLength ∧ w.hdr = m.hdr ∧ (∀ i, 0x18 ≤ i → w.data i = m.data i) ∧
    (∀ f ∈ headerFields, w.data.load f.offset f.width = leBytes f.width (f.value m.hdr)) ∧
    ∀ hdr, readHeader.run { w with hdr := hdr } = .returns () { w with hdr := m.hdr }
  read : ∃ r, readHeader.run m = .returns () r ∧ r.data = m.data ∧
    writeHeader.run r = .returns () r
  range : ∀ i, Writes writeHeader m i ↔ i < 0x18
  tiles : RecordField.Tiles 0 headerFields 0x18

/-- **Encoding and decoding the header are inverse**, for every record and every block. -/
theorem headerCodec (m : Message) : HeaderCodec m where
  written := by
    have hrun := run_writeHeader m
    refine ⟨_, hrun, rfl, rfl, rfl, ?_, ?_, readHeader_of_writeHeader hrun⟩
    · intro i hi
      exact storeAll_header_of_ge m.hdr m.data hi
    · exact tiles_headerFields.load_storeAll m.hdr m.data
  read := by
    have hrun := run_readHeader m
    obtain ⟨hwrite, hdata⟩ := writeHeader_of_readHeader hrun
    exact ⟨_, hrun, hdata, hwrite⟩
  range := writes_writeHeader_iff m
  tiles := tiles_headerFields

end Message

end Kcmsg
