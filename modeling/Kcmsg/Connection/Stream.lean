import Kcmsg.Connection.Transfer
import Mathlib.Logic.Relation

/-!
# One direction of a stream

A writer makes `Writen` calls one after another and a reader makes `Readn` calls, on the two ends
of a channel of bytes. They interleave at single system calls: a step of the world is the
beginning of a call or one answer of the kernel to one of the two.

`World.Lossless` is what holds of every reachable world, in terms of what each call was asked to
do and what it returned. `World.Inv` adds what the loops in progress have done, by their
specifications, and is what a step preserves.
-/

namespace Kcmsg

/-! ## States -/

/-- `Writen(buf, nbytes)`, with the memory `buf` points into. -/
structure WriteCall where
  mem : Mem
  buf : Nat
  nbytes : Nat
  nbytes_lt : nbytes < 2 ^ 63

/-- `Readn(buf, nbytes)`, with the memory `buf` points into. -/
structure ReadCall where
  mem : Mem
  buf : Nat
  nbytes : Nat
  nbytes_lt : nbytes < 2 ^ 63

/-- The bytes a `Writen` call is asked to write. -/
def WriteCall.buffer (c : WriteCall) : List UInt8 := c.mem.load c.buf c.nbytes

/-- A writer between two calls, in a call that has had `sent` accepted so far, stopped after a
call that returned `(size_t)-1`, or at the end of its sequence. -/
inductive Writer where
  | idle
  | inCall (call : WriteCall) (locals : WriteLoop) (sent : List UInt8)
  | failed (call : WriteCall) (sent : List UInt8)
  | finished

inductive Reader where
  | idle
  | inCall (call : ReadCall) (locals : ReadLoop) (got : List UInt8)

/-- A `Writen` call that returned `value`, with the bytes accepted during it. -/
structure WriteRecord where
  call : WriteCall
  sent : List UInt8
  value : Nat

/-- A `Readn` call that returned `value`, with the bytes delivered during it and the memory it
left. -/
structure ReadRecord where
  call : ReadCall
  got : List UInt8
  value : Nat
  after : Mem

/-- `channel.pushed` is what the kernel accepted, `channel.queued` what is in flight. -/
structure World where
  channel : Channel UInt8
  writer : Writer
  written : List WriteRecord
  reader : Reader
  reads : List ReadRecord

/-- The call the writer is in or failed in, with what was accepted of it. -/
def Writer.current : Writer → Option (WriteCall × List UInt8)
  | inCall c _ sent => some (c, sent)
  | failed c sent => some (c, sent)
  | _ => none

/-- What was accepted of the call the writer is in or failed in. -/
def Writer.sent (w : Writer) : List UInt8 := (w.current.map Prod.snd).getD []

def Writer.Done : Writer → Prop
  | failed _ _ => True
  | finished => True
  | _ => False

def Reader.got : Reader → List UInt8
  | idle => []
  | inCall _ _ got => got

namespace World

def start : World := ⟨.empty, .idle, [], .idle, []⟩

/-- All the bytes the reader has stored, in order. -/
def stored (w : World) : List UInt8 := w.reads.flatMap ReadRecord.got ++ w.reader.got

/-! ## Steps -/

/-- Where the writer stands after the code has run up to its next system call. -/
def writerAt (w : World) (c : WriteCall) (sent : List UInt8) : Progress WriteLoop Nat → World
  | .waiting s => { w with writer := .inCall c s sent }
  | .returned value _ =>
      if value = sizeMax then { w with writer := .failed c sent }
      else { w with writer := .idle, written := w.written ++ [⟨c, sent, value⟩] }

def readerAt (w : World) (c : ReadCall) (got : List UInt8) : Progress ReadLoop Nat → World
  | .waiting s => { w with reader := .inCall c s got }
  | .returned value s => { w with reader := .idle, reads := w.reads ++ [⟨c, got, value, s.mem⟩] }

inductive Step : World → World → Prop where
  | beginWrite {w : World} (c : WriteCall) (hidle : w.writer = .idle) :
      Step w (w.writerAt c [] (Connection.writen c.buf c.nbytes))
  | write {w : World} {c : WriteCall} {s : WriteLoop} {sent : List UInt8} (a : WriteAnswer)
      (hcall : w.writer = .inCall c s sent) (ha : a.Allowed s) :
      Step w (writerAt { w with channel := w.channel.push (a.taken c.mem s) } c
        (sent ++ a.taken c.mem s) (Connection.writenResume c.nbytes s a))
  | finish {w : World} (hidle : w.writer = .idle) : Step w { w with writer := .finished }
  | beginRead {w : World} (c : ReadCall) (hidle : w.reader = .idle) :
      Step w (w.readerAt c [] (Connection.readn c.mem c.buf c.nbytes))
  | read {w : World} {c : ReadCall} {s : ReadLoop} {got : List UInt8} (a : ReadAnswer)
      (hcall : w.reader = .inCall c s got)
      (ha : a.Allowed w.channel.queued w.writer.Done s) :
      Step w (readerAt { w with channel := w.channel.pop a.given.length } c
        (got ++ a.given) (Connection.readnResume c.nbytes s a))

def Reachable (w : World) : Prop := Relation.ReflTransGen Step start w

/-! ## What holds in every reachable world -/

/-- Nothing is lost, duplicated or reordered. -/
structure Lossless (w : World) : Prop where
  /-- What was stored, followed by what is in flight, is what was accepted. -/
  conserved : w.stored ++ w.channel.queued = w.channel.pushed
  /-- What was accepted is the completed buffers and a part of the current one. -/
  accepted : w.channel.pushed =
    w.written.flatMap (fun r => r.call.buffer) ++ w.writer.sent
  current : ∀ c sent, w.writer.current = some (c, sent) → sent <+: c.buffer
  /-- A `Writen` that returned something else than `(size_t)-1` returned `nbytes` and had exactly
  its buffer accepted. -/
  written : ∀ r ∈ w.written, r.value = r.call.nbytes ∧ r.sent = r.call.buffer
  /-- A `Readn` stored what it was given at the start of its buffer and changed nothing else; what
  it returned is how much that was, unless it is `(size_t)-1`. -/
  reads : ∀ r ∈ w.reads, r.after = r.call.mem.store r.call.buf r.got ∧
    r.got.length ≤ r.call.nbytes ∧ (r.value = r.got.length ∨ r.value = sizeMax)
  reading : ∀ c s got, w.reader = .inCall c s got → s.mem = c.mem.store c.buf got
  /-- A `Readn` returned less than `nbytes` only at the end of the stream. -/
  ended : (∃ r ∈ w.reads, r.value < r.call.nbytes) → w.writer.Done ∧ w.channel.queued = []

/-! ## The invariant -/

/-- The writer's half: its history, and the loop it may be in. -/
structure WriterInv (pushed : List UInt8) (writer : Writer) (written : List WriteRecord) :
    Prop where
  accepted : pushed = written.flatMap (fun r => r.call.buffer) ++ writer.sent
  current : ∀ c sent, writer.current = some (c, sent) → sent <+: c.buffer
  written : ∀ r ∈ written, r.value = r.call.nbytes ∧ r.sent = r.call.buffer
  writing : ∀ c s sent, writer = .inCall c s sent →
    Connection.WriteSpec c.mem c.buf c.nbytes sent (.waiting s)

/-- The reader's half. -/
structure ReaderInv (popped : List UInt8) (reader : Reader) (reads : List ReadRecord) : Prop where
  stored : reads.flatMap ReadRecord.got ++ reader.got = popped
  reads : ∀ r ∈ reads, r.after = r.call.mem.store r.call.buf r.got ∧
    r.got.length ≤ r.call.nbytes ∧ (r.value = r.got.length ∨ r.value = sizeMax)
  reading : ∀ c s got, reader = .inCall c s got →
    Connection.ReadSpec c.mem c.buf c.nbytes got (.waiting s)

structure Inv (w : World) : Prop where
  writer : WriterInv w.channel.pushed w.writer w.written
  reader : ReaderInv w.channel.popped w.reader w.reads
  ended : (∃ r ∈ w.reads, r.value < r.call.nbytes) → w.writer.Done ∧ w.channel.queued = []

theorem Inv.lossless {w : World} (h : w.Inv) : w.Lossless where
  conserved := by
    show (w.reads.flatMap ReadRecord.got ++ w.reader.got) ++ w.channel.queued = w.channel.pushed
    rw [h.reader.stored, w.channel.conserved]
  accepted := h.writer.accepted
  current := h.writer.current
  written := h.writer.written
  reads := h.reader.reads
  reading c s got hcall := (h.reader.reading c s got hcall).1
  ended := h.ended

/-- Until the writer is done, every `Readn` filled its buffer. -/
theorem Inv.no_short {w : World} (h : w.Inv) (hdone : ¬ w.writer.Done) :
    ¬ ∃ r ∈ w.reads, r.value < r.call.nbytes := fun hshort => hdone (h.ended hshort).1

section Frame

variable (w : World)

@[simp] theorem writerAt_channel (c : WriteCall) (sent : List UInt8) (p : Progress WriteLoop Nat) :
    (w.writerAt c sent p).channel = w.channel := by
  cases p with
  | waiting s => rfl
  | returned value s =>
      rw [writerAt]
      split <;> rfl

@[simp] theorem writerAt_reader (c : WriteCall) (sent : List UInt8) (p : Progress WriteLoop Nat) :
    (w.writerAt c sent p).reader = w.reader := by
  cases p with
  | waiting s => rfl
  | returned value s =>
      rw [writerAt]
      split <;> rfl

@[simp] theorem writerAt_reads (c : WriteCall) (sent : List UInt8) (p : Progress WriteLoop Nat) :
    (w.writerAt c sent p).reads = w.reads := by
  cases p with
  | waiting s => rfl
  | returned value s =>
      rw [writerAt]
      split <;> rfl

@[simp] theorem readerAt_channel (c : ReadCall) (got : List UInt8) (p : Progress ReadLoop Nat) :
    (w.readerAt c got p).channel = w.channel := by
  cases p <;> rfl

@[simp] theorem readerAt_writer (c : ReadCall) (got : List UInt8) (p : Progress ReadLoop Nat) :
    (w.readerAt c got p).writer = w.writer := by
  cases p <;> rfl

@[simp] theorem readerAt_written (c : ReadCall) (got : List UInt8) (p : Progress ReadLoop Nat) :
    (w.readerAt c got p).written = w.written := by
  cases p <;> rfl

end Frame

/-- Wherever the code of `Writen` has got to, the writer's history says so. -/
theorem writerInv_writerAt {w : World} {c : WriteCall} {sent : List UInt8}
    {p : Progress WriteLoop Nat}
    (haccepted : w.channel.pushed = w.written.flatMap (fun r => r.call.buffer) ++ sent)
    (hwritten : ∀ r ∈ w.written, r.value = r.call.nbytes ∧ r.sent = r.call.buffer)
    (hspec : Connection.WriteSpec c.mem c.buf c.nbytes sent p) :
    WriterInv (w.writerAt c sent p).channel.pushed (w.writerAt c sent p).writer
      (w.writerAt c sent p).written := by
  cases p with
  | waiting s =>
      have hload := hspec.2.2.2
      refine ⟨haccepted, ?_, hwritten, ?_⟩
      · rintro c' sent' ⟨⟩
        exact ⟨c.mem.load (c.buf + sent.length) s.nleft, by
          rw [WriteCall.buffer, ← hspec.2.2.1, Mem.load_add, hload]⟩
      · rintro c' s' sent' ⟨⟩
        exact hspec
  | returned value s =>
      rcases hspec with ⟨hvalue, hsent⟩ | ⟨hvalue, hpart, hsent⟩
      · have hlt := c.nbytes_lt
        -- the bound on `nbytes` tells the two return values apart
        have hmax : ¬ value = sizeMax := by
          rw [sizeMax]
          omega
        rw [writerAt, if_neg hmax]
        refine ⟨?_, fun _ _ h => (by cases h), ?_, fun _ _ _ h => by cases h⟩
        · show w.channel.pushed =
            (w.written ++ [WriteRecord.mk c sent value]).flatMap (fun r => r.call.buffer) ++ []
          rw [haccepted, List.append_nil, List.flatMap_append, List.flatMap_singleton, hsent]
          rfl
        · intro r hr
          rcases List.mem_append.mp hr with hr | hr
          · exact hwritten r hr
          · rw [List.mem_singleton.mp hr]
            exact ⟨hvalue, hsent⟩
      · rw [writerAt, if_pos hvalue]
        refine ⟨haccepted, ?_, hwritten, fun _ _ _ h => by cases h⟩
        rintro c' sent' ⟨⟩
        have hsplit : c.nbytes = sent.length + (c.nbytes - sent.length) := by omega
        exact ⟨c.mem.load (c.buf + sent.length) (c.nbytes - sent.length), by
          rw [WriteCall.buffer, hsplit, Mem.load_add, hsent, Nat.add_sub_cancel_left]⟩

theorem readerInv_readerAt {w : World} {c : ReadCall} {got : List UInt8}
    {p : Progress ReadLoop Nat}
    (hstored : w.reads.flatMap ReadRecord.got ++ got = w.channel.popped)
    (hreads : ∀ r ∈ w.reads, r.after = r.call.mem.store r.call.buf r.got ∧
      r.got.length ≤ r.call.nbytes ∧ (r.value = r.got.length ∨ r.value = sizeMax))
    (hspec : Connection.ReadSpec c.mem c.buf c.nbytes got p) :
    ReaderInv (w.readerAt c got p).channel.popped (w.readerAt c got p).reader
      (w.readerAt c got p).reads := by
  cases p with
  | waiting s =>
      refine ⟨hstored, hreads, ?_⟩
      rintro c' s' got' ⟨⟩
      exact hspec
  | returned value s =>
      refine ⟨?_, ?_, fun _ _ _ h => nomatch h⟩
      · show (w.reads ++ [ReadRecord.mk c got value s.mem]).flatMap ReadRecord.got ++ [] =
          w.channel.popped
        rw [List.append_nil, List.flatMap_append, List.flatMap_singleton, ← hstored]
      · intro r hr
        rcases List.mem_append.mp hr with hr | hr
        · exact hreads r hr
        · rw [List.mem_singleton.mp hr]
          exact hspec

/-- A `Readn` that has just returned a short count has seen the end of the stream. -/
theorem ended_readerAt {w : World} {c : ReadCall} {got : List UInt8} {p : Progress ReadLoop Nat}
    (hended : (∃ r ∈ w.reads, r.value < r.call.nbytes) →
      w.writer.Done ∧ w.channel.queued = [])
    (hshort : ∀ value s, p = .returned value s → value < c.nbytes →
      w.writer.Done ∧ w.channel.queued = []) :
    (∃ r ∈ (w.readerAt c got p).reads, r.value < r.call.nbytes) →
      (w.readerAt c got p).writer.Done ∧ (w.readerAt c got p).channel.queued = [] := by
  rw [readerAt_writer, readerAt_channel]
  rintro ⟨r, hr, hlt⟩
  cases p with
  | waiting s => exact hended ⟨r, hr, hlt⟩
  | returned value s =>
      rcases List.mem_append.mp hr with hr | hr
      · exact hended ⟨r, hr, hlt⟩
      · rw [List.mem_singleton.mp hr] at hlt
        exact hshort value s rfl hlt

/-- The writer's steps leave the reader alone, and a writer that still makes steps is not done. -/
theorem Inv.writerAt {w : World} {c : WriteCall} {sent : List UInt8} {p : Progress WriteLoop Nat}
    (hwriter : WriterInv (w.writerAt c sent p).channel.pushed (w.writerAt c sent p).writer
      (w.writerAt c sent p).written)
    (hreader : ReaderInv w.channel.popped w.reader w.reads)
    (hshort : ¬ ∃ r ∈ w.reads, r.value < r.call.nbytes) : (w.writerAt c sent p).Inv where
  writer := hwriter
  reader := by simpa only [writerAt_channel, writerAt_reader, writerAt_reads] using hreader
  ended hr := by
    rw [writerAt_reads] at hr
    exact absurd hr hshort

theorem Inv.readerAt {w : World} {c : ReadCall} {got : List UInt8} {p : Progress ReadLoop Nat}
    (hwriter : WriterInv w.channel.pushed w.writer w.written)
    (hreader : ReaderInv (w.readerAt c got p).channel.popped (w.readerAt c got p).reader
      (w.readerAt c got p).reads)
    (hended : (∃ r ∈ (w.readerAt c got p).reads, r.value < r.call.nbytes) →
      (w.readerAt c got p).writer.Done ∧ (w.readerAt c got p).channel.queued = []) :
    (w.readerAt c got p).Inv where
  writer := by simpa only [readerAt_channel, readerAt_writer, readerAt_written] using hwriter
  reader := hreader
  ended := hended

/-! ### The steps -/

section Steps

variable {w : World}

theorem Inv.beginWrite (h : w.Inv) (c : WriteCall) (hidle : w.writer = .idle) :
    (w.writerAt c [] (Connection.writen c.buf c.nbytes)).Inv := by
  have hdone : ¬ w.writer.Done := by
    rw [hidle]
    exact id
  have hsent : w.writer.sent = [] := by
    rw [hidle]
    rfl
  refine Inv.writerAt (writerInv_writerAt ?_ h.writer.written ?_) h.reader (h.no_short hdone)
  · rw [h.writer.accepted, hsent]
  · exact Connection.writeSpec_start c.mem c.buf c.nbytes

theorem Inv.write (h : w.Inv) {c : WriteCall} {s : WriteLoop} {sent : List UInt8} {a : WriteAnswer}
    (hcall : w.writer = .inCall c s sent) (ha : a.Allowed s) :
    (World.writerAt { w with channel := w.channel.push (a.taken c.mem s) } c
      (sent ++ a.taken c.mem s) (Connection.writenResume c.nbytes s a)).Inv := by
  have hdone : ¬ w.writer.Done := by
    rw [hcall]
    exact id
  have hsent : w.writer.sent = sent := by
    rw [hcall]
    rfl
  have hlt := c.nbytes_lt
  refine Inv.writerAt (writerInv_writerAt ?_ h.writer.written ?_) ?_ (h.no_short hdone)
  · rw [Channel.pushed_push, h.writer.accepted, hsent, List.append_assoc]
  · exact Connection.writeSpec_resume (by omega) (h.writer.writing c s sent hcall) ha
  · rw [Channel.popped_push]
    exact h.reader

theorem Inv.finish (h : w.Inv) (hidle : w.writer = .idle) :
    Inv { w with writer := .finished } := by
  have hdone : ¬ w.writer.Done := by
    rw [hidle]
    exact id
  have hsent : w.writer.sent = [] := by
    rw [hidle]
    rfl
  exact {
    writer := {
      accepted := by rw [h.writer.accepted, hsent]; rfl
      current _ _ hc := nomatch hc
      written := h.writer.written
      writing _ _ _ hc := nomatch hc }
    reader := h.reader
    ended hr := absurd hr (h.no_short hdone) }

theorem Inv.beginRead (h : w.Inv) (c : ReadCall) (hidle : w.reader = .idle) :
    (w.readerAt c [] (Connection.readn c.mem c.buf c.nbytes)).Inv := by
  have hlt := c.nbytes_lt
  have hgot : w.reader.got = [] := by
    rw [hidle]
    rfl
  refine Inv.readerAt h.writer (readerInv_readerAt ?_ h.reader.reads ?_)
    (ended_readerAt h.ended ?_)
  · rw [← h.reader.stored, hgot]
  · exact Connection.readSpec_start (by omega)
  · intro value s hreturned hshort
    have hfull := Connection.value_of_readnLoop (show c.nbytes < 2 ^ 64 by omega) hreturned
    exact absurd hshort (by omega)

theorem Inv.read (h : w.Inv) {c : ReadCall} {s : ReadLoop} {got : List UInt8} {a : ReadAnswer}
    (hcall : w.reader = .inCall c s got) (ha : a.Allowed w.channel.queued w.writer.Done s) :
    (World.readerAt { w with channel := w.channel.pop a.given.length } c (got ++ a.given)
      (Connection.readnResume c.nbytes s a)).Inv := by
  have hlt := c.nbytes_lt
  have hgot : w.reader.got = got := by
    rw [hcall]
    rfl
  refine Inv.readerAt ?_ (readerInv_readerAt ?_ h.reader.reads ?_) (ended_readerAt ?_ ?_)
  · rw [Channel.pushed_pop]
    exact h.writer
  · rw [Channel.popped_pop ha.isPrefix_queued, ← h.reader.stored, hgot, List.append_assoc]
  · exact Connection.readSpec_resume (by omega) (h.reader.reading c s got hcall) ha
  · intro hr
    obtain ⟨hdone, hempty⟩ := h.ended hr
    exact ⟨hdone, by rw [Channel.queued_pop, hempty, List.drop_nil]⟩
  · intro value s' hreturned hshort
    -- only the end of the stream makes a count short, and the kernel reports it only there
    have hend := Connection.endOfStream_of_short hlt hreturned hshort
    rw [hend] at ha
    exact ⟨ha.1, by rw [Channel.queued_pop, ha.2, List.drop_nil]⟩

/-- The step lemma: one case per kind of step. -/
theorem Inv.step {w' : World} (h : w.Inv) (hstep : Step w w') : w'.Inv := by
  cases hstep with
  | beginWrite c hidle => exact h.beginWrite c hidle
  | write a hcall ha => exact h.write hcall ha
  | finish hidle => exact h.finish hidle
  | beginRead c hidle => exact h.beginRead c hidle
  | read a hcall ha => exact h.read hcall ha

end Steps

theorem inv_start : start.Inv where
  writer := {
    accepted := rfl
    current _ _ h := nomatch h
    written _ h := absurd h List.not_mem_nil
    writing _ _ _ h := nomatch h }
  reader := {
    stored := rfl
    reads _ h := absurd h List.not_mem_nil
    reading _ _ _ h := nomatch h }
  ended := by
    rintro ⟨r, hr, -⟩
    exact absurd hr List.not_mem_nil

/-- **No loss, duplication or reordering.** Whatever calls the two ends make, however the kernel
answers and in whatever order the two proceed. -/
theorem lossless_of_reachable {w : World} (h : w.Reachable) : w.Lossless := by
  have hinv : w.Inv := by
    induction h with
    | refl => exact inv_start
    | tail _ hstep ih => exact ih.step hstep
  exact hinv.lossless

/-- Two bytes are written at once and the first is read. -/
theorem lossless_sample : ∃ w : World, w.Reachable ∧ w.stored = [7] ∧ w.Lossless := by
  have h₁ : Reachable _ :=
    Relation.ReflTransGen.refl.tail (.beginWrite ⟨fun _ => 7, 0, 2, by decide⟩ rfl)
  have h₂ : Reachable _ := h₁.tail (.write (.wrote 2) rfl ⟨by decide, by decide⟩)
  have h₃ : Reachable _ := h₂.tail (.beginRead ⟨fun _ => 0, 0, 1, by decide⟩ rfl)
  have h₄ : Reachable _ :=
    h₃.tail (.read (.bytes [7]) rfl ⟨by decide, by decide, [7], rfl⟩)
  exact ⟨_, h₄, rfl, lossless_of_reachable h₄⟩

end World

end Kcmsg
