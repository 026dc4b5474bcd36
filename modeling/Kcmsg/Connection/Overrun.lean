import Kcmsg.Connection.Receive

/-!
# Past the end of the buffer

The destination of `ReadMessage` is taken here for what its caller says it is, a buffer of `nbytes`
bytes. `nleft` is unsigned and decreased twice: by the count that was read, which the kernel keeps
below it, and, once thirty bytes have been read, by `nbytes - msgsize`. As `msgsize` is still zero
then, that is the size of the whole buffer, of which less is left, and `nleft` wraps around. From
there on `read()` is asked for almost `2 ^ 64` bytes.

`Contained` follows a call through a list of answers and asks of every iteration that neither
happens. It holds exactly as long as fewer than thirty bytes have come (`contained_iff`).
-/

namespace Kcmsg

namespace Connection

/-! ## Any stream -/

/-- What a `read` may be answered, whatever is on the stream: between one byte and all of the
request, however large that is, an interruption, an error, or the end of the stream. -/
def MayAnswer (s : ReadLoop) (a : ReadAnswer) : Prop :=
  ∃ (queued : List UInt8) (closed : Prop), a.Allowed queued closed s

section Iterations

variable (host : ByteOrder) (this nbytes : Nat)

/-- The answers are answers to the calls of `read` that `ReadMessage` makes, one for each. -/
def MayAnswerAll : Progress ReadLoop Nat → List ReadAnswer → Prop
  | _, [] => True
  | .waiting s, a :: as => MayAnswer s a ∧ MayAnswerAll (readMessageResume host this nbytes s a) as
  | .returned _ _, _ :: _ => False

/-- The loop with what was read added, where the body goes on. -/
def afterRead (s : ReadLoop) : ReadAnswer → Option ReadLoop
  | .bytes bs => some (ReadLoop.advance s bs)
  | .interrupted => some s
  | .endOfStream => none
  | .failed => none

/-- One iteration, with `stored` bytes in the buffer: what is asked for fits behind them, and
neither of the two subtractions from `nleft` goes below zero, that of the count nor that of
`nbytes - msgsize` where it is made. -/
structure IterationContained (stored : Nat) (s : ReadLoop) (a : ReadAnswer) : Prop where
  request : stored + s.nleft ≤ nbytes
  count : a.given.length ≤ s.nleft
  correction : ∀ s' ∈ afterRead s a,
    subSizeT nbytes s'.nleft ≥ sizeofMessageHeader + 2 → nbytes ≤ s'.nleft

/-- Every iteration is contained, and so is the request of the one that has no answer yet. -/
def Contained : Nat → Progress ReadLoop Nat → List ReadAnswer → Prop
  | stored, .waiting s, a :: as =>
      IterationContained nbytes stored s a ∧
        Contained (stored + a.given.length) (readMessageResume host this nbytes s a) as
  | stored, .waiting s, [] => stored + s.nleft ≤ nbytes
  | _, .returned _ _, _ => True

end Iterations

/-- All the bytes the kernel gave. -/
def delivered (answers : List ReadAnswer) : Nat := (answers.flatMap ReadAnswer.given).length

theorem delivered_cons (a : ReadAnswer) (as : List ReadAnswer) :
    delivered (a :: as) = a.given.length + delivered as := by
  rw [delivered, List.flatMap_cons, List.length_append, delivered]

/-! ## How far a call is contained -/

section Containment

variable {host : ByteOrder} {this nbytes stored : Nat} {s : ReadLoop}

/-- What has been read by the loop's own count. -/
theorem subSizeT_left (hn : nbytes < 2 ^ 64) {left : Nat} (hleft : stored + left = nbytes) :
    subSizeT nbytes left = stored := by
  rw [subSizeT_of_le (by omega) hn]
  omega

theorem nleft_advance (hn : nbytes < 2 ^ 64) (hleft : stored + s.nleft = nbytes) {bs : List UInt8}
    (hcount : bs.length ≤ s.nleft) : (ReadLoop.advance s bs).nleft = s.nleft - bs.length :=
  subSizeT_of_le hcount (by omega)

/-- An iteration that gives `bs` is contained while fewer than thirty bytes are stored. -/
theorem iterationContained_bytes_iff (hn : nbytes < 2 ^ 64) (hleft : stored + s.nleft = nbytes)
    {bs : List UInt8} (hcount : bs.length ≤ s.nleft) :
    IterationContained nbytes stored s (.bytes bs) ↔ stored + bs.length < 30 := by
  have hnleft := nleft_advance hn hleft hcount
  have hread : subSizeT nbytes (s.nleft - bs.length) = stored + bs.length :=
    subSizeT_left hn (by omega)
  have hheader : sizeofMessageHeader + 2 = 30 := rfl
  constructor
  · intro h
    by_contra hge
    have hcorrection := h.correction (ReadLoop.advance s bs) rfl
    rw [hnleft, hread] at hcorrection
    omega
  · intro hlt
    refine ⟨by omega, hcount, fun s' hs' hcheck => ?_⟩
    cases hs'
    rw [hnleft, hread] at hcheck
    omega

/-- An interrupted one reads nothing. -/
theorem iterationContained_interrupted (hn : nbytes < 2 ^ 64) (hleft : stored + s.nleft = nbytes)
    (hstored : stored < 30) : IterationContained nbytes stored s .interrupted := by
  have hheader : sizeofMessageHeader + 2 = 30 := rfl
  refine ⟨Nat.le_of_eq hleft, Nat.zero_le _, fun s' hs' hcheck => ?_⟩
  cases hs'
  rw [subSizeT_left hn hleft] at hcheck
  omega

/-- With fewer than thirty bytes stored the body goes back to the head of the loop. -/
theorem readMessageResume_bytes (hn : nbytes < 2 ^ 64) (hleft : stored + s.nleft = nbytes)
    {bs : List UInt8} (hcount : bs.length ≤ s.nleft) (hlt : stored + bs.length < 30) :
    readMessageResume host this nbytes s (.bytes bs) =
      readMessageLoop (ReadLoop.advance s bs) :=
  congrArg readMessageLoop (readMessageBody_advance hn hleft hcount hlt)

theorem readMessageResume_interrupted (hn : nbytes < 2 ^ 64) (hleft : stored + s.nleft = nbytes)
    (hstored : stored < 30) :
    readMessageResume host this nbytes s .interrupted = readMessageLoop s := by
  have hbody : readMessageBody host this nbytes s = s :=
    readMessageBody_of_lt (by omega) hn (by omega)
  exact congrArg readMessageLoop hbody

/-- By induction on the answers: as long as the correction has not been made, what is stored and
what is left add up to the buffer. -/
theorem contained_loop_iff (hn : nbytes < 2 ^ 64) (hleft : stored + s.nleft = nbytes)
    (hstored : stored < 30) {answers : List ReadAnswer}
    (hanswers : MayAnswerAll host this nbytes (readMessageLoop s) answers) :
    Contained host this nbytes stored (readMessageLoop s) answers ↔
      stored + delivered answers < 30 := by
  induction answers generalizing stored s with
  | nil =>
      refine iff_of_true ?_ hstored
      rw [readMessageLoop]
      split
      · exact Nat.le_of_eq hleft
      · trivial
  | cons a as ih =>
      by_cases hpos : s.nleft > 0
      · rw [readMessageLoop, if_pos hpos] at hanswers ⊢
        obtain ⟨⟨queued, closed, ha⟩, hrest⟩ := hanswers
        rw [delivered_cons, ← Nat.add_assoc]
        cases a with
        | bytes bs =>
            obtain ⟨-, hcount, -⟩ := ha
            have hiteration := iterationContained_bytes_iff hn hleft hcount
            by_cases hlt : stored + bs.length < 30
            · have hnleft := nleft_advance hn hleft hcount
              rw [readMessageResume_bytes hn hleft hcount hlt] at hrest
              have hih := ih (by omega) hlt hrest
              rw [Contained, readMessageResume_bytes hn hleft hcount hlt]
              exact ⟨fun h => hih.mp h.2, fun h => ⟨hiteration.mpr hlt, hih.mpr h⟩⟩
            · -- the correction is made in this iteration, and it wraps
              refine iff_of_false (fun h => hlt (hiteration.mp h.1)) ?_
              show ¬ stored + bs.length + delivered as < 30
              omega
        | interrupted =>
            have hiteration := iterationContained_interrupted hn hleft hstored
            rw [readMessageResume_interrupted hn hleft hstored] at hrest
            have hih := ih hleft hstored hrest
            rw [Contained, readMessageResume_interrupted hn hleft hstored]
            exact ⟨fun h => hih.mp h.2, fun h => ⟨hiteration, hih.mpr h⟩⟩
        | endOfStream | failed =>
            -- the call returns, so this is the last answer
            cases as with
            | nil =>
                refine iff_of_true ⟨⟨Nat.le_of_eq hleft, Nat.zero_le _, ?_⟩, trivial⟩ hstored
                intro s' hs'
                cases hs'
            | cons b bs => exact hrest.elim
      · rw [readMessageLoop, if_neg hpos] at hanswers
        exact hanswers.elim

/-- **A call of `ReadMessage` stays inside its buffer as long as fewer than thirty bytes come.** For
every size of the buffer, everything that can be on the stream, and all results of `read()`. -/
theorem contained_iff {mem : Mem} (hn : nbytes < 2 ^ 64) {answers : List ReadAnswer}
    (hanswers : MayAnswerAll host this nbytes (readMessage this nbytes mem) answers) :
    Contained host this nbytes 0 (readMessage this nbytes mem) answers ↔
      delivered answers < 30 := by
  have hloop := contained_loop_iff (s := ⟨mem, this, nbytes⟩) hn (Nat.zero_add nbytes)
    (by omega) hanswers
  rwa [Nat.zero_add] at hloop

end Containment

/-- Ten bytes, an interruption, and the end of the stream. -/
theorem contained_iff_sample :
    Contained .little 0x1000 0xFFFF 0 (readMessage 0x1000 0xFFFF fun _ => 0)
      [.bytes (List.replicate 10 0), .interrupted, .endOfStream] := by
  have hanswers : MayAnswerAll .little 0x1000 0xFFFF (readMessage 0x1000 0xFFFF fun _ => 0)
      [.bytes (List.replicate 10 0), .interrupted, .endOfStream] :=
    ⟨⟨List.replicate 10 0, False, by decide, by decide, List.prefix_refl _⟩,
      ⟨[], True, trivial⟩, ⟨[], True, trivial, rfl⟩, trivial⟩
  exact (contained_iff (by decide) hanswers).mpr (by decide)

/-- Thirty bytes with the address of the buffer itself where the object has its pointer. -/
def pointingBytes : List UInt8 := List.replicate 8 0 ++ leBytes 8 0x1000 ++ List.replicate 14 0

/-- Thirty bytes in one read: the pointer that they spell may be followed, and the next read is for
`2 ^ 64 - 30` bytes. -/
theorem not_contained_thirty :
    MayAnswerAll .little 0x1000 0xFFFF (readMessage 0x1000 0xFFFF fun _ => 0)
        [.bytes pointingBytes] ∧
      (∃ s, readMessageResume .little 0x1000 0xFFFF ⟨fun _ => 0, 0x1000, 0xFFFF⟩
          (.bytes pointingBytes) = .waiting s ∧
        Object.data .little s.mem 0x1000 = 0x1000 ∧ s.nleft = 2 ^ 64 - 30) ∧
      ¬ Contained .little 0x1000 0xFFFF 0 (readMessage 0x1000 0xFFFF fun _ => 0)
        [.bytes pointingBytes] := by
  refine ⟨⟨⟨pointingBytes, False, by decide, by decide, List.prefix_refl _⟩, trivial⟩,
    ⟨_, rfl, by decide, by decide⟩, fun h => ?_⟩
  have hiteration := (iterationContained_bytes_iff (s := ⟨fun _ => 0, 0x1000, 0xFFFF⟩)
    (by decide) (Nat.zero_add 0xFFFF) (by decide)).mp h.1
  exact absurd hiteration (by decide)

end Connection

end Kcmsg
