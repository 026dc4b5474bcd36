import Kcmsg.Library.Blocking
import Kcmsg.Library.Channel
import Kcmsg.Message.Basic

/-!
# Reading and writing n bytes

`Writen` and `Readn` repeat a system call until `nbytes` bytes have moved. Each keeps a pointer
and a count of the bytes left; the kernel answers every call with a count of its own choosing, an
interruption, an error, or the end of the stream. A call is modelled as `Progress` from one
system call to the next, so that two of them can be interleaved at that grain.

`WriteSpec` and `ReadSpec` say what such a call has done so far, in terms of the bytes moved so
far. They hold at the start and survive every answer; that is all the rest of the development
needs to know about the two loops.
-/

namespace Kcmsg

/-- `(size_t)-1`. -/
def sizeMax : Nat := 2 ^ 64 - 1

/-- `a - b` in `size_t`. -/
def subSizeT (a b : Nat) : Nat := sizeT (a + (2 ^ 64 - b))

theorem subSizeT_of_le {a b : Nat} (h : b ≤ a) (ha : a < 2 ^ 64) : subSizeT a b = a - b := by
  rw [subSizeT, sizeT]
  omega

/-! ## System calls -/

inductive WriteAnswer where
  | wrote (count : Nat)
  | nothing
  | interrupted
  | failed
  deriving DecidableEq

inductive ReadAnswer where
  | bytes (bs : List UInt8)
  | endOfStream
  | interrupted
  | failed
  deriving DecidableEq

/-- The locals of a writing loop, waiting in `write(fd, ptr, nleft)`. -/
structure WriteLoop where
  ptr : Nat
  nleft : Nat
  deriving DecidableEq

/-- The locals of a reading loop, waiting in `read(fd, ptr, nleft)`, and the memory it reads
into. -/
structure ReadLoop where
  mem : Mem
  ptr : Nat
  nleft : Nat

namespace WriteAnswer

/-- `write` takes between one byte and all of the request, or fails. -/
def Allowed (s : WriteLoop) : WriteAnswer → Prop
  | wrote count => 1 ≤ count ∧ count ≤ s.nleft
  | _ => True

/-- The bytes the kernel takes. -/
def taken (mem : Mem) (s : WriteLoop) : WriteAnswer → List UInt8
  | wrote count => mem.load s.ptr count
  | _ => []

end WriteAnswer

namespace ReadAnswer

/-- `read` gives between one byte and all of the request, from the front of the queue, or fails.
It reports the end of the stream only when nothing is queued and nothing will be. -/
def Allowed (queued : List UInt8) (closed : Prop) (s : ReadLoop) : ReadAnswer → Prop
  | bytes bs => bs ≠ [] ∧ bs.length ≤ s.nleft ∧ bs <+: queued
  | endOfStream => closed ∧ queued = []
  | _ => True

/-- The bytes the kernel gives. -/
def given : ReadAnswer → List UInt8
  | bytes bs => bs
  | _ => []

theorem Allowed.isPrefix_queued {queued : List UInt8} {closed : Prop} {s : ReadLoop}
    {a : ReadAnswer} (h : a.Allowed queued closed s) : a.given <+: queued := by
  cases a with
  | bytes bs => exact h.2.2
  | _ => exact List.nil_prefix

end ReadAnswer

/-! ## The loops -/

namespace Connection

/-- `while (nleft > 0)`: into the next `write`, or out of `Writen`. -/
def writenLoop (nbytes : Nat) (s : WriteLoop) : Progress WriteLoop Nat :=
  if s.nleft > 0 then .waiting s else .returned nbytes s

/-- The body of the loop, from the answer on. An interrupted call counts as zero bytes. -/
def writenResume (nbytes : Nat) (s : WriteLoop) : WriteAnswer → Progress WriteLoop Nat
  | .wrote count => writenLoop nbytes ⟨s.ptr + count, subSizeT s.nleft count⟩
  | .interrupted => writenLoop nbytes s
  | .nothing => .returned sizeMax s
  | .failed => .returned sizeMax s

def writen (msg nbytes : Nat) : Progress WriteLoop Nat := writenLoop nbytes ⟨msg, nbytes⟩

/-- `while (nleft > 0)`: into the next `read`, or out of `Readn`. -/
def readnLoop (nbytes : Nat) (s : ReadLoop) : Progress ReadLoop Nat :=
  if s.nleft > 0 then .waiting s else .returned (subSizeT nbytes s.nleft) s

/-- The kernel has put `bs` at `ptr`. -/
def ReadLoop.advance (s : ReadLoop) (bs : List UInt8) : ReadLoop :=
  ⟨s.mem.store s.ptr bs, s.ptr + bs.length, subSizeT s.nleft bs.length⟩

def readnResume (nbytes : Nat) (s : ReadLoop) : ReadAnswer → Progress ReadLoop Nat
  | .bytes bs => readnLoop nbytes (ReadLoop.advance s bs)
  | .interrupted => readnLoop nbytes s
  | .endOfStream => .returned (subSizeT nbytes s.nleft) s
  | .failed => .returned sizeMax s

def readn (mem : Mem) (msg nbytes : Nat) : Progress ReadLoop Nat :=
  readnLoop nbytes ⟨mem, msg, nbytes⟩

/-! ## What the writing loop has done -/

/-- With `sent` taken so far, the rest of the buffer is still to be written; the call returns
`nbytes` with all of it taken, or `(size_t)-1` with a part. -/
def WriteSpec (mem : Mem) (msg nbytes : Nat) (sent : List UInt8) : Progress WriteLoop Nat → Prop
  | .waiting s => s.ptr = msg + sent.length ∧ 0 < s.nleft ∧ sent.length + s.nleft = nbytes ∧
      mem.load msg sent.length = sent
  | .returned value _ => (value = nbytes ∧ sent = mem.load msg nbytes) ∨
      (value = sizeMax ∧ sent.length < nbytes ∧ mem.load msg sent.length = sent)

theorem writeSpec_loop {mem : Mem} {msg nbytes : Nat} {sent : List UInt8} {s : WriteLoop}
    (hptr : s.ptr = msg + sent.length) (hleft : sent.length + s.nleft = nbytes)
    (hsent : mem.load msg sent.length = sent) :
    WriteSpec mem msg nbytes sent (writenLoop nbytes s) := by
  rw [writenLoop]
  by_cases hpos : s.nleft > 0
  · rw [if_pos hpos]
    exact ⟨hptr, hpos, hleft, hsent⟩
  · rw [if_neg hpos]
    have hall : sent.length = nbytes := by omega
    exact .inl ⟨rfl, by rw [← hall, hsent]⟩

theorem writeSpec_start (mem : Mem) (msg nbytes : Nat) :
    WriteSpec mem msg nbytes [] (writen msg nbytes) :=
  writeSpec_loop rfl (Nat.zero_add nbytes) rfl

/-- One answer moves the specification on by the bytes taken. -/
theorem writeSpec_resume {mem : Mem} {msg nbytes : Nat} {sent : List UInt8} {s : WriteLoop}
    (hn : nbytes < 2 ^ 64) (h : WriteSpec mem msg nbytes sent (.waiting s)) {a : WriteAnswer}
    (ha : a.Allowed s) :
    WriteSpec mem msg nbytes (sent ++ a.taken mem s) (writenResume nbytes s a) := by
  obtain ⟨hptr, hpos, hleft, hsent⟩ := h
  -- a call that waits has something left
  have hpart : sent.length < nbytes := by omega
  cases a with
  | wrote count =>
      obtain ⟨hone, hcount⟩ := ha
      have hlength : (sent ++ mem.load s.ptr count).length = sent.length + count := by
        rw [List.length_append, Mem.length_load]
      refine writeSpec_loop ?_ ?_ ?_
      · show s.ptr + count = msg + (sent ++ mem.load s.ptr count).length
        omega
      · show (sent ++ mem.load s.ptr count).length + subSizeT s.nleft count = nbytes
        rw [subSizeT_of_le hcount (by omega)]
        omega
      · show mem.load msg (sent ++ mem.load s.ptr count).length = sent ++ mem.load s.ptr count
        rw [hlength, Mem.load_add, hsent, hptr]
  | interrupted =>
      show WriteSpec mem msg nbytes (sent ++ []) (writenLoop nbytes s)
      rw [List.append_nil]
      exact writeSpec_loop hptr hleft hsent
  | nothing =>
      show WriteSpec mem msg nbytes (sent ++ []) (.returned sizeMax s)
      rw [List.append_nil]
      exact .inr ⟨rfl, hpart, hsent⟩
  | failed =>
      show WriteSpec mem msg nbytes (sent ++ []) (.returned sizeMax s)
      rw [List.append_nil]
      exact .inr ⟨rfl, hpart, hsent⟩

/-- The kernel end of a `write`: what it takes goes into the channel. -/
def kernelWrite (mem : Mem) : Environment (Channel UInt8) WriteLoop WriteAnswer where
  Allows _ s a := a.Allowed s
  next c s a := c.push (a.taken mem s)

/-- However the kernel answers, what it has taken is what the specification says. -/
theorem writeSpec_run {mem : Mem} {msg nbytes : Nat} (hn : nbytes < 2 ^ 64)
    {p : Progress WriteLoop Nat} {c : Channel UInt8}
    (hrun : Run (writenResume nbytes) (kernelWrite mem) (writen msg nbytes) .empty p c) :
    WriteSpec mem msg nbytes c.pushed p :=
  hrun.preserves (fun p c => WriteSpec mem msg nbytes c.pushed p)
    (fun _ _ _ hspec ha => writeSpec_resume hn hspec ha) (writeSpec_start mem msg nbytes)

/-! ## What the reading loop has done -/

/-- With `got` delivered so far, exactly those bytes of the buffer are filled; the call returns
how many they are, or `(size_t)-1`. -/
def ReadSpec (mem : Mem) (msg nbytes : Nat) (got : List UInt8) : Progress ReadLoop Nat → Prop
  | .waiting s => s.mem = mem.store msg got ∧ s.ptr = msg + got.length ∧ 0 < s.nleft ∧
      got.length + s.nleft = nbytes
  | .returned value s => s.mem = mem.store msg got ∧ got.length ≤ nbytes ∧
      (value = got.length ∨ value = sizeMax)

theorem readSpec_loop {mem : Mem} {msg nbytes : Nat} {got : List UInt8} {s : ReadLoop}
    (hn : nbytes < 2 ^ 64) (hmem : s.mem = mem.store msg got) (hptr : s.ptr = msg + got.length)
    (hleft : got.length + s.nleft = nbytes) :
    ReadSpec mem msg nbytes got (readnLoop nbytes s) := by
  rw [readnLoop]
  by_cases hpos : s.nleft > 0
  · rw [if_pos hpos]
    exact ⟨hmem, hptr, hpos, hleft⟩
  · rw [if_neg hpos, subSizeT_of_le (by omega) hn]
    exact ⟨hmem, by omega, .inl (by omega)⟩

theorem readSpec_start {mem : Mem} {msg nbytes : Nat} (hn : nbytes < 2 ^ 64) :
    ReadSpec mem msg nbytes [] (readn mem msg nbytes) :=
  readSpec_loop hn (Mem.store_nil mem msg).symm rfl (Nat.zero_add nbytes)

/-- One answer moves the specification on by the bytes given. -/
theorem readSpec_resume {mem : Mem} {msg nbytes : Nat} {got : List UInt8} {s : ReadLoop}
    (hn : nbytes < 2 ^ 64) (h : ReadSpec mem msg nbytes got (.waiting s)) {queued : List UInt8}
    {closed : Prop} {a : ReadAnswer} (ha : a.Allowed queued closed s) :
    ReadSpec mem msg nbytes (got ++ a.given) (readnResume nbytes s a) := by
  obtain ⟨hmem, hptr, hpos, hleft⟩ := h
  cases a with
  | bytes bs =>
      obtain ⟨-, hcount, -⟩ := ha
      refine readSpec_loop hn ?_ ?_ ?_
      · show s.mem.store s.ptr bs = mem.store msg (got ++ bs)
        rw [hmem, hptr, Mem.store_append]
      · show s.ptr + bs.length = msg + (got ++ bs).length
        rw [List.length_append]
        omega
      · show (got ++ bs).length + subSizeT s.nleft bs.length = nbytes
        rw [List.length_append, subSizeT_of_le hcount (by omega)]
        omega
  | interrupted =>
      show ReadSpec mem msg nbytes (got ++ []) (readnLoop nbytes s)
      rw [List.append_nil]
      exact readSpec_loop hn hmem hptr hleft
  | endOfStream =>
      show ReadSpec mem msg nbytes (got ++ []) (.returned (subSizeT nbytes s.nleft) s)
      rw [List.append_nil, subSizeT_of_le (by omega) hn]
      exact ⟨hmem, by omega, .inl (by omega)⟩
  | failed =>
      show ReadSpec mem msg nbytes (got ++ []) (.returned sizeMax s)
      rw [List.append_nil]
      exact ⟨hmem, by omega, .inr rfl⟩

/-- Out of the loop means nothing is left. -/
theorem value_of_readnLoop {nbytes value : Nat} {s s' : ReadLoop} (hn : nbytes < 2 ^ 64)
    (h : readnLoop nbytes s = .returned value s') : value = nbytes := by
  rw [readnLoop] at h
  by_cases hpos : s.nleft > 0
  · rw [if_pos hpos] at h
    cases h
  · have hzero : s.nleft = 0 := by omega
    rw [if_neg hpos, hzero, subSizeT_of_le (Nat.zero_le nbytes) hn] at h
    cases h
    rfl

/-- A short count means the end of the stream. -/
theorem endOfStream_of_short {nbytes value : Nat} {s s' : ReadLoop} {a : ReadAnswer}
    (hn : nbytes < 2 ^ 63) (h : readnResume nbytes s a = .returned value s')
    (hshort : value < nbytes) : a = .endOfStream := by
  have hlt : nbytes < 2 ^ 64 := by omega
  cases a with
  | endOfStream => rfl
  | bytes bs => exact absurd (value_of_readnLoop hlt h) (by omega)
  | interrupted => exact absurd (value_of_readnLoop hlt h) (by omega)
  | failed =>
      cases h
      rw [sizeMax] at hshort
      omega

end Connection

end Kcmsg
