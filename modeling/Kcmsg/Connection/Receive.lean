import Kcmsg.Connection.Transfer
import Kcmsg.Message.Object

/-!
# Receiving a message

`ReadMessage` is given the address of a message and the size of a buffer, and reads from that
address on: into the object, over its pointer. Once it has enough bytes it re-reads the length,
through whatever the pointer is by then, and subtracts the size of the buffer from the count of
the bytes left, which wraps around.

`Delivers` is the framing of a sequence of images on a stream. It fails for all but a narrow kind
of image, described by `Reception.Intact`: those that fill the buffer, are too short for the
length to be looked at, and happen to spell a usable pointer.
-/

namespace Kcmsg

namespace Connection

variable (host : ByteOrder) (this nbytes : Nat)

/-- `while (nleft > 0)`: into the next `read`, or out of `ReadMessage`. -/
def readMessageLoop (s : ReadLoop) : Progress ReadLoop Nat :=
  if s.nleft > 0 then .waiting s else .returned s.nleft s

/-- The end of the body: take the length from the message once it has been read. -/
def readMessageBody (s : ReadLoop) : ReadLoop :=
  let msgsize := 0  -- nothing in the function assigns it again
  if msgsize = 0 ∧ subSizeT nbytes s.nleft ≥ sizeofMessageHeader + 2 then
    { s with
      mem := Object.readMessageLength host s.mem this
      nleft := subSizeT s.nleft (subSizeT nbytes msgsize) }
  else s

def readMessageResume (s : ReadLoop) : ReadAnswer → Progress ReadLoop Nat
  | .bytes bs => readMessageLoop (readMessageBody host this nbytes (ReadLoop.advance s bs))
  | .interrupted => readMessageLoop (readMessageBody host this nbytes s)
  | .endOfStream => .returned s.nleft s
  | .failed => .returned sizeMax s

def readMessage (mem : Mem) : Progress ReadLoop Nat := readMessageLoop ⟨mem, this, nbytes⟩

/-- The kernel end of a `read` on a stream that stays open and does not fail: counts of its
choosing, and interruptions. -/
def kernelRead : Environment (Channel UInt8) ReadLoop ReadAnswer where
  Allows c s a := a.Allowed c.queued False s ∧ a ≠ .failed
  next c _ a := c.pop a.given.length

end Connection

/-! ## Framing -/

/-- A call of `ReadMessage(msg, nbytes)` on a fresh message, and the image that is its turn. -/
structure Reception (host : ByteOrder) (nbytes : Nat) where
  image : List UInt8
  mem : Mem
  this : Nat
  hdr : MessageHeader
  nbytes_le : nbytes ≤ 0xFFFF
  lower : 26 ≤ image.length
  upper : image.length ≤ nbytes
  /-- The image holds its own length. -/
  stored : (image.drop messageLengthOffset).take 2 = leBytes 2 image.length
  placed : Placed host mem this (Message.new hdr)

namespace Reception

variable {host : ByteOrder} {nbytes : Nat}

/-- The message that the object stands for in `mem` is the image. -/
def Holds (r : Reception host nbytes) (mem : Mem) : Prop :=
  Object.dataLength host mem r.this = r.image.length ∧
    mem.load (Object.data host mem r.this) r.image.length = r.image

/-- With `rest` behind the image on the stream, and however the kernel splits the stream: the
call takes bytes of the image only, returns when it has the image and not before, and then the
message is the image. -/
def Frames (r : Reception host nbytes) (rest : List UInt8) : Prop :=
  ∀ p c, Run (Connection.readMessageResume host r.this nbytes) Connection.kernelRead
      (Connection.readMessage r.this nbytes r.mem) (.ofList (r.image ++ rest)) p c →
    c.popped <+: r.image ∧
      ((∃ value s, p = .returned value s) ↔ c.popped = r.image) ∧
      ∀ value s, p = .returned value s → r.Holds s.mem

/-- The images lie back to back on the stream; each call takes its own. -/
def Delivers : List (Reception host nbytes) → Prop
  | [] => True
  | r :: rs => r.Frames (rs.flatMap image) ∧ Delivers rs

/-- What the object is overwritten with is the image, and that does no harm: the image fills the
buffer, it ends before the length is looked at, nothing follows the length field but zeros, and
its bytes 8 to 16 are the address of a place where, with the image stored over the object, the
image stands. -/
structure Intact (r : Reception host nbytes) : Prop where
  little : host = .little
  fills : r.image.length = nbytes
  short : nbytes < 30
  zero : ∀ b ∈ r.image.drop 26, b = 0
  pointer : (r.mem.store r.this r.image).load (ofLE ((r.image.drop 8).take 8)) r.image.length =
    r.image

end Reception

/-! ## A short call is a plain read -/

namespace Connection

/-- Like `ReadSpec`, but the call returns only when it is full. -/
def FullReadSpec (mem : Mem) (msg nbytes : Nat) (got : List UInt8) : Progress ReadLoop Nat → Prop
  | .waiting s => ReadSpec mem msg nbytes got (.waiting s)
  | .returned _ s => s.mem = mem.store msg got ∧ got.length = nbytes

theorem fullReadSpec_loop {mem : Mem} {msg nbytes : Nat} {got : List UInt8} {s : ReadLoop}
    (hmem : s.mem = mem.store msg got) (hptr : s.ptr = msg + got.length)
    (hleft : got.length + s.nleft = nbytes) :
    FullReadSpec mem msg nbytes got (readMessageLoop s) := by
  rw [readMessageLoop]
  by_cases hpos : s.nleft > 0
  · rw [if_pos hpos]
    exact ⟨hmem, hptr, hpos, hleft⟩
  · rw [if_neg hpos]
    exact ⟨hmem, by omega⟩

/-- `ReadMessage` returns from the head of its loop when nothing is left. -/
theorem eq_of_readMessageLoop_returned {s s' : ReadLoop} {value : Nat}
    (h : readMessageLoop s = .returned value s') : s.nleft = 0 ∧ s = s' := by
  rw [readMessageLoop] at h
  by_cases hpos : s.nleft > 0
  · rw [if_pos hpos] at h
    cases h
  · rw [if_neg hpos] at h
    cases h
    exact ⟨by omega, rfl⟩

/-- With fewer than thirty bytes read the length is not looked at. -/
theorem readMessageBody_of_lt {host : ByteOrder} {this nbytes : Nat} {s : ReadLoop}
    (hleft : s.nleft ≤ nbytes) (hn : nbytes < 2 ^ 64) (hshort : nbytes - s.nleft < 30) :
    readMessageBody host this nbytes s = s := by
  rw [readMessageBody, subSizeT_of_le hleft hn]
  exact if_neg (by simp only [sizeofMessageHeader]; omega)

/-- So the body goes on as it is after bytes that leave fewer than thirty stored. -/
theorem readMessageBody_advance {host : ByteOrder} {this nbytes stored : Nat} {s : ReadLoop}
    (hn : nbytes < 2 ^ 64) (hleft : stored + s.nleft = nbytes) {bs : List UInt8}
    (hcount : bs.length ≤ s.nleft) (hshort : stored + bs.length < 30) :
    readMessageBody host this nbytes (ReadLoop.advance s bs) = ReadLoop.advance s bs := by
  have hnleft : (ReadLoop.advance s bs).nleft = s.nleft - bs.length :=
    subSizeT_of_le hcount (by omega)
  exact readMessageBody_of_lt (by omega) hn (by omega)

/-- With thirty bytes read it is, and the size of the buffer is taken off what is left. -/
theorem nleft_readMessageBody {host : ByteOrder} {this nbytes : Nat} {s : ReadLoop}
    (hn : nbytes < 2 ^ 64) (hread : 30 ≤ subSizeT nbytes s.nleft) :
    (readMessageBody host this nbytes s).nleft = subSizeT s.nleft nbytes := by
  have hcheck : (0 : Nat) = 0 ∧ subSizeT nbytes s.nleft ≥ sizeofMessageHeader + 2 := ⟨rfl, hread⟩
  rw [readMessageBody, if_pos hcheck]
  show subSizeT s.nleft (subSizeT nbytes 0) = subSizeT s.nleft nbytes
  rw [subSizeT_of_le (Nat.zero_le nbytes) hn, Nat.sub_zero]

theorem fullReadSpec_resume {host : ByteOrder} {mem : Mem} {this nbytes : Nat} {got : List UInt8}
    {s : ReadLoop} (hshort : nbytes < 30) (h : ReadSpec mem this nbytes got (.waiting s))
    {c : Channel UInt8} {a : ReadAnswer} (ha : kernelRead.Allows c s a) :
    FullReadSpec mem this nbytes (got ++ a.given) (readMessageResume host this nbytes s a) := by
  obtain ⟨hmem, hptr, hpos, hleft⟩ := h
  obtain ⟨ha, hfailed⟩ := ha
  cases a with
  | bytes bs =>
      obtain ⟨-, hcount, -⟩ := ha
      have hnleft : subSizeT s.nleft bs.length = s.nleft - bs.length :=
        subSizeT_of_le hcount (by omega)
      show FullReadSpec mem this nbytes (got ++ bs)
        (readMessageLoop (readMessageBody host this nbytes (ReadLoop.advance s bs)))
      rw [readMessageBody_advance (by omega) hleft hcount (by omega)]
      refine fullReadSpec_loop ?_ ?_ ?_
      · show s.mem.store s.ptr bs = mem.store this (got ++ bs)
        rw [hmem, hptr, Mem.store_append]
      · show s.ptr + bs.length = this + (got ++ bs).length
        rw [List.length_append]
        omega
      · show (got ++ bs).length + subSizeT s.nleft bs.length = nbytes
        rw [List.length_append, hnleft]
        omega
  | interrupted =>
      have hbody : readMessageBody host this nbytes s = s :=
        readMessageBody_of_lt (by omega) (by omega) (by omega)
      show FullReadSpec mem this nbytes (got ++ [])
        (readMessageLoop (readMessageBody host this nbytes s))
      rw [hbody, List.append_nil]
      exact fullReadSpec_loop hmem hptr hleft
  | endOfStream => exact ha.1.elim
  | failed => exact absurd rfl hfailed

/-- Wherever a short call has got to, it has read the front of the stream and nothing else. -/
theorem fullReadSpec_run {host : ByteOrder} {mem : Mem} {this nbytes : Nat}
    {stream : List UInt8} (hshort : nbytes < 30) {p : Progress ReadLoop Nat} {c : Channel UInt8}
    (hrun : Run (readMessageResume host this nbytes) kernelRead (readMessage this nbytes mem)
      (.ofList stream) p c) :
    c.pushed = stream ∧ FullReadSpec mem this nbytes c.popped p := by
  refine hrun.preserves
    (fun p c => c.pushed = stream ∧ FullReadSpec mem this nbytes c.popped p) ?_ ?_
  · rintro s c a ⟨hpushed, hspec⟩ ha
    refine ⟨hpushed, ?_⟩
    show FullReadSpec mem this nbytes (c.pop a.given.length).popped _
    rw [Channel.popped_pop ha.1.isPrefix_queued]
    exact fullReadSpec_resume hshort hspec ha
  · exact ⟨rfl, fullReadSpec_loop (Mem.store_nil mem this).symm rfl (Nat.zero_add nbytes)⟩

end Connection

/-! ## The object under the image -/

namespace Reception

variable {host : ByteOrder} {nbytes : Nat} (r : Reception host nbytes)

/-- The object after the image has been read into it. -/
def overlay : Mem := r.mem.store r.this r.image

/-- The member `data` is whatever bytes 8 to 16 of the image spell. -/
theorem data_overlay :
    Object.data host r.overlay r.this = host.decode ((r.image.drop 8).take 8) := by
  have hlower := r.lower
  rw [Object.data, overlay, Mem.load_store_within _ _ (by rw [dataOffset]; omega)]
  rfl

/-- The member `data_length` is the length field, what follows it in the image, and the rest of
the length of the fresh message. -/
theorem load_dataLength_overlay (hshort : r.image.length < 30) :
    r.overlay.load (r.this + dataLengthOffset) 8 = leBytes 2 r.image.length ++
      (r.image.drop 26 ++ (host.encode 8 26).drop (r.image.length - 24)) := by
  have hlower := r.lower
  have hsplit : 8 = (r.image.length - 24) + (32 - r.image.length) := by omega
  have hfresh : r.mem.load (r.this + dataLengthOffset) 8 = host.encode 8 26 := by
    have hlength : host.decode (r.mem.load (r.this + dataLengthOffset) 8) = 26 :=
      r.placed.dataLength
    have hback := host.encode_decode (r.mem.load (r.this + dataLengthOffset) 8)
    rw [Mem.length_load, hlength] at hback
    exact hback.symm
  have hend : r.this + dataLengthOffset + (r.image.length - 24) = r.this + r.image.length := by
    rw [dataLengthOffset]
    omega
  have hover : r.overlay.load (r.this + dataLengthOffset) (r.image.length - 24) =
      leBytes 2 r.image.length ++ r.image.drop 26 := by
    rw [overlay, Mem.load_store_within _ _ (by rw [dataLengthOffset]; omega)]
    show (r.image.drop 24).take (r.image.length - 24) = _
    rw [List.take_of_length_le (by rw [List.length_drop]),
      ← List.take_append_drop 2 (r.image.drop 24), List.drop_drop]
    exact congrArg (· ++ r.image.drop 26) r.stored
  have hparts : r.mem.load (r.this + dataLengthOffset) (r.image.length - 24) ++
      r.mem.load (r.this + r.image.length) (32 - r.image.length) = host.encode 8 26 := by
    rw [← hfresh, ← hend, ← Mem.load_add, ← hsplit]
  -- behind the image the member still has the bytes of the fresh length, 26
  have hbehind : r.overlay.load (r.this + r.image.length) (32 - r.image.length) =
      (host.encode 8 26).drop (r.image.length - 24) := by
    rw [overlay, Mem.load_store_of_disjoint (.inr (Nat.le_refl _)), ← hparts,
      List.drop_left' (Mem.length_load _ _ _)]
  calc r.overlay.load (r.this + dataLengthOffset) 8
      = r.overlay.load (r.this + dataLengthOffset)
          ((r.image.length - 24) + (32 - r.image.length)) := by rw [← hsplit]
    _ = (leBytes 2 r.image.length ++ r.image.drop 26) ++
          (host.encode 8 26).drop (r.image.length - 24) := by
        rw [Mem.load_add, hend, hover, hbehind]
    _ = leBytes 2 r.image.length ++
          (r.image.drop 26 ++ (host.encode 8 26).drop (r.image.length - 24)) :=
        List.append_assoc _ _ _

/-- On a little-endian host the member is the length again if zeros follow the length field: the
only byte of the old length that is not zero has been covered. -/
theorem decode_little_iff {l : Nat} {behind : List UInt8} (hlower : 26 ≤ l) (hshort : l < 30) :
    ByteOrder.little.decode (leBytes 2 l ++ (behind ++ (leBytes 8 26).drop (l - 24))) = l ↔
      ∀ b ∈ behind, b = 0 := by
  have hold : ∀ b ∈ (leBytes 8 26).drop (l - 24), b = 0 := by
    intro b hb
    have hzeros : (leBytes 8 26).drop 1 = List.replicate 7 0 := rfl
    have hlater : l - 24 = 1 + (l - 25) := by omega
    rw [hlater, ← List.drop_drop, hzeros] at hb
    exact List.eq_of_mem_replicate (List.mem_of_mem_drop hb)
  have hvalue : ByteOrder.little.decode (leBytes 2 l ++ (behind ++ (leBytes 8 26).drop (l - 24))) =
      l + 256 ^ 2 * ofLE (behind ++ (leBytes 8 26).drop (l - 24)) := by
    show ofLE _ = _
    rw [ofLE_append, ofLE_leBytes_of_lt (by omega), length_leBytes]
  have hzero : ofLE (behind ++ (leBytes 8 26).drop (l - 24)) = 0 ↔ ∀ b ∈ behind, b = 0 := by
    rw [ofLE_eq_zero_iff]
    simp only [List.mem_append, or_imp, forall_and, and_iff_left hold]
  rw [hvalue, ← hzero]
  omega

/-- On a big-endian host the first byte of the length field is the most significant one of the
member. -/
theorem decode_big_ne {l : Nat} {behind : List UInt8} (hlower : 26 ≤ l) (hshort : l < 30)
    (hbehind : behind.length = 6) : ByteOrder.big.decode (leBytes 2 l ++ behind) ≠ l := by
  obtain ⟨tail, htail, hlength⟩ : ∃ tail, leBytes 2 l ++ behind = UInt8.ofNat l :: tail ∧
      tail.length = 7 := ⟨_, rfl, congrArg (· + 1) hbehind⟩
  have hbyte : (UInt8.ofNat l).toNat = l := by
    rw [UInt8.toNat_ofNat']
    exact Nat.mod_eq_of_lt (by omega)
  rw [htail]
  show ofLE (UInt8.ofNat l :: tail).reverse ≠ l
  rw [List.reverse_cons, ofLE_append, List.length_reverse, hlength, ofLE, ofLE, hbyte]
  omega

theorem holds_overlay_iff (hshort : r.image.length < 30) :
    r.Holds r.overlay ↔ host = .little ∧ (∀ b ∈ r.image.drop 26, b = 0) ∧
      r.overlay.load (ofLE ((r.image.drop 8).take 8)) r.image.length = r.image := by
  have hlower := r.lower
  rw [Holds, Object.dataLength, data_overlay, load_dataLength_overlay r hshort]
  cases host with
  | little =>
      simp only [true_and]
      exact and_congr_left fun _ => decode_little_iff hlower hshort
  | big =>
      have hbehind : (r.image.drop 26 ++
          (ByteOrder.big.encode 8 26).drop (r.image.length - 24)).length = 6 := by
        rw [List.length_append, List.length_drop, List.length_drop, ByteOrder.length_encode]
        omega
      constructor
      · intro h
        exact absurd h.1 (decode_big_ne hlower hshort hbehind)
      · rintro ⟨hlittle, -⟩
        cases hlittle

/-! ## Which images are framed -/

/-- The kernel may give the whole image at once. -/
theorem Frames.fills {rest : List UInt8} (h : r.Frames rest) :
    r.image.length = nbytes ∧ nbytes < 30 ∧ r.Holds r.overlay := by
  have hlower := r.lower
  have hupper := r.upper
  have hbound := r.nbytes_le
  have hstart : Connection.readMessage r.this nbytes r.mem = .waiting ⟨r.mem, r.this, nbytes⟩ :=
    if_pos (show 0 < nbytes by omega)
  have hallows : Connection.kernelRead.Allows (.ofList (r.image ++ rest))
      ⟨r.mem, r.this, nbytes⟩ (.bytes r.image) :=
    ⟨⟨List.ne_nil_of_length_pos (by omega), hupper, List.prefix_append _ _⟩, nofun⟩
  have hrun : Run (Connection.readMessageResume host r.this nbytes) Connection.kernelRead
      (Connection.readMessage r.this nbytes r.mem) (.ofList (r.image ++ rest))
      (Connection.readMessageLoop (Connection.readMessageBody host r.this nbytes
        (Connection.ReadLoop.advance ⟨r.mem, r.this, nbytes⟩ r.image)))
      ((Channel.ofList (r.image ++ rest)).pop r.image.length) := by
    rw [hstart]
    exact Run.single hallows
  obtain ⟨-, hreturns, hholds⟩ := h _ _ hrun
  -- with the whole image taken the call has to be over
  obtain ⟨value, s, hreturned⟩ := hreturns.mpr (Channel.popped_pop (List.prefix_append _ _))
  have hleft : subSizeT nbytes r.image.length = nbytes - r.image.length :=
    subSizeT_of_le hupper (by omega)
  have hdone := hholds value s hreturned
  obtain ⟨hnleft, rfl⟩ := Connection.eq_of_readMessageLoop_returned hreturned
  by_cases hshort : r.image.length < 30
  · have hbody : Connection.readMessageBody host r.this nbytes
        (Connection.ReadLoop.advance ⟨r.mem, r.this, nbytes⟩ r.image) =
        Connection.ReadLoop.advance ⟨r.mem, r.this, nbytes⟩ r.image :=
      Connection.readMessageBody_advance (by omega) (Nat.zero_add nbytes) hupper (by omega)
    rw [hbody] at hnleft hdone
    have hzero : subSizeT nbytes r.image.length = 0 := hnleft
    exact ⟨by omega, by omega, hdone⟩
  · -- the length is looked at, and what is left wraps around below zero
    have hread : 30 ≤ subSizeT nbytes (subSizeT nbytes r.image.length) := by
      rw [hleft, subSizeT_of_le (by omega) (by omega)]
      omega
    rw [Connection.nleft_readMessageBody (by omega) hread] at hnleft
    have hwrapped : subSizeT (subSizeT nbytes r.image.length) nbytes =
        2 ^ 64 - r.image.length := by
      rw [hleft, subSizeT, sizeT]
      omega
    exact absurd (hwrapped.symm.trans hnleft) (by omega)

theorem frames_iff (rest : List UInt8) : r.Frames rest ↔ r.Intact := by
  constructor
  · intro h
    obtain ⟨hfills, hshort, hholds⟩ := h.fills
    obtain ⟨hlittle, hzero, hpointer⟩ := (r.holds_overlay_iff (by omega)).mp hholds
    exact ⟨hlittle, hfills, hshort, hzero, hpointer⟩
  · intro h p c hrun
    have hlength := h.fills
    have hshort := h.short
    obtain ⟨hpushed, hspec⟩ := Connection.fullReadSpec_run hshort hrun
    have hstream : c.popped <+: r.image ++ rest := hpushed ▸ c.popped_prefix_pushed
    have hholds : r.Holds r.overlay :=
      (r.holds_overlay_iff (by omega)).mpr ⟨h.little, h.zero, h.pointer⟩
    cases p with
    | waiting s =>
        obtain ⟨-, -, hpos, hleft⟩ := hspec
        refine ⟨List.prefix_of_prefix_length_le hstream (List.prefix_append _ _) (by omega), ?_,
          fun _ _ hp => nomatch hp⟩
        constructor
        · rintro ⟨_, _, hp⟩
          cases hp
        · intro hwhole
          rw [hwhole] at hleft
          omega
    | returned value s =>
        obtain ⟨hmem, hgot⟩ := hspec
        have hpart : c.popped <+: r.image :=
          List.prefix_of_prefix_length_le hstream (List.prefix_append _ _) (by omega)
        have hwhole : c.popped = r.image := hpart.eq_of_length (by omega)
        refine ⟨hpart, ⟨fun _ => hwhole, fun _ => ⟨value, s, rfl⟩⟩, ?_⟩
        rintro value' s' ⟨⟩
        rw [hmem, hwhole]
        exact hholds

/-- **Framing, exactly when it holds**: every image of the sequence is of the narrow kind. -/
theorem delivers_iff (rs : List (Reception host nbytes)) :
    Delivers rs ↔ ∀ r ∈ rs, r.Intact := by
  induction rs with
  | nil => simp [Delivers]
  | cons r rs ih => rw [Delivers, frames_iff, ih, List.forall_mem_cons]

/-- An image of twenty-six bytes with `pointer` at bytes 8 to 16, read into the object at
`0x1000`. -/
def ofPointer (nbytes pointer : Nat) (hlower : 26 ≤ nbytes) (hupper : nbytes ≤ 0xFFFF) :
    Reception .little nbytes where
  image := List.replicate 8 0 ++ leBytes 8 pointer ++ List.replicate 8 0 ++ [26, 0]
  mem := Object.layout .little 0x1000 0x10000 (Message.new default)
  this := 0x1000
  hdr := default
  nbytes_le := hupper
  lower := by simp
  upper := by simpa using hlower
  stored := by
    rw [List.drop_left' (by simp [messageLengthOffset])]
    simp [leBytes]
  placed := Object.placed_layout .little (by decide) (by decide) (show 26 < 2 ^ 64 by decide)
    (show 26 < 2 ^ 64 by decide) (.inl (by decide))

/-- In a buffer of the full size not even the smallest image is framed. -/
theorem not_delivers_ofPointer :
    ¬ Delivers [ofPointer 0xFFFF 0 (by decide) (by decide),
      ofPointer 0xFFFF 0 (by decide) (by decide)] := by
  intro h
  have hfills : (ofPointer 0xFFFF 0 (by decide) (by decide)).image.length = 0xFFFF := h.1.fills.1
  simp [ofPointer] at hfills

/-- An image that fills its buffer and points at the object itself is. -/
example : (ofPointer 26 0x1000 (by decide) (by decide)).Intact where
  little := rfl
  fills := by simp [ofPointer]
  short := by decide
  zero := by simp [ofPointer, leBytes]
  pointer := Mem.load_store_same _ 0x1000 _

end Reception

end Kcmsg
