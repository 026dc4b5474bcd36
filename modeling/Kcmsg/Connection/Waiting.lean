import Kcmsg.Connection.Overrun

/-!
# How long the loops wait

The three loops differ in what ends them. `Writen` and `Readn` count down what is left: where they
have got to after any answers depends on the bytes moved and on how they have ended
(`after_writenAt`, `after_readnAt`), and not more than `nbytes` answers can be anything but
interruptions (`answers_le`).

`ReadMessage` with a buffer of thirty bytes or more does not count down to nothing. With the
thirtieth byte it follows the pointer that the bytes spell, and if it survives that what is left
has wrapped to more than any kernel reads at once. So only the end of the stream, an error or its
death gets a caller out of it (`after_readMessage`).
-/

namespace Kcmsg

/-- The bytes that an answer moves. -/
def WriteAnswer.count : WriteAnswer → Nat
  | wrote count => count
  | _ => 0

/-- Neither an error nor the end: the loop goes on. -/
def WriteAnswer.goesOn : WriteAnswer → Bool
  | wrote _ => true
  | interrupted => true
  | nothing => false
  | failed => false

def ReadAnswer.goesOn : ReadAnswer → Bool
  | bytes _ => true
  | interrupted => true
  | endOfStream => false
  | failed => false

def WriteAnswer.isInterruption : WriteAnswer → Bool
  | interrupted => true
  | _ => false

def ReadAnswer.isInterruption : ReadAnswer → Bool
  | interrupted => true
  | _ => false

namespace Connection

/-- The bytes moved by a list of answers. -/
def moved (answers : List WriteAnswer) : Nat := (answers.map WriteAnswer.count).sum

/-- The bytes given by a list of answers. -/
def given (answers : List ReadAnswer) : List UInt8 := answers.flatMap ReadAnswer.given

/-! ## Writen -/

/-- `Writen` after `m` of its bytes. -/
def writenAt (msg nbytes m : Nat) : Progress WriteLoop Nat :=
  writenLoop nbytes ⟨msg + m, nbytes - m⟩

theorem writenResume_at {msg nbytes m : Nat} (hn : nbytes < 2 ^ 64) {a : WriteAnswer}
    (ha : a.Allowed ⟨msg + m, nbytes - m⟩) (hgoes : a.goesOn = true) :
    writenResume nbytes ⟨msg + m, nbytes - m⟩ a = writenAt msg nbytes (m + a.count) := by
  cases a with
  | wrote count =>
      obtain ⟨-, hcount⟩ := ha
      have hle : count ≤ nbytes - m := hcount
      have hleft : subSizeT (nbytes - m) count = nbytes - (m + count) := by
        rw [subSizeT_of_le hle (by omega), Nat.sub_sub]
      simp only [writenResume, writenAt, hleft, Nat.add_assoc, WriteAnswer.count]
  | interrupted => rfl
  | nothing => cases hgoes
  | failed => cases hgoes

/-- After an error `Writen` returns, and after a `write` of nothing as well. -/
theorem writenResume_of_ends (nbytes : Nat) (s : WriteLoop) {a : WriteAnswer}
    (hends : a.goesOn = false) :
    writenResume nbytes s a = .returned sizeMax s ∧ a.count = 0 := by
  cases a with
  | wrote count => cases hends
  | interrupted => cases hends
  | nothing => exact ⟨rfl, rfl⟩
  | failed => exact ⟨rfl, rfl⟩

theorem count_le_of_allowed {s : WriteLoop} {a : WriteAnswer} (ha : a.Allowed s) :
    a.count ≤ s.nleft := by
  cases a with
  | wrote count => exact ha.2
  | _ => exact Nat.zero_le _

theorem moved_cons (a : WriteAnswer) (as : List WriteAnswer) :
    moved (a :: as) = a.count + moved as := rfl

/-- **Where `Writen` has got to** depends on the bytes moved, and on whether it has failed. -/
theorem after_writenAt {msg nbytes m : Nat} (hn : nbytes < 2 ^ 64) (hm : m ≤ nbytes)
    {answers : List WriteAnswer}
    (h : (writenAt msg nbytes m).Takes (writenResume nbytes) (fun s a => a.Allowed s) answers) :
    m + moved answers ≤ nbytes ∧
      (writenAt msg nbytes m).after (writenResume nbytes) answers =
        if answers.all WriteAnswer.goesOn then writenAt msg nbytes (m + moved answers)
        else .returned sizeMax ⟨msg + (m + moved answers), nbytes - (m + moved answers)⟩ := by
  induction answers generalizing m with
  | nil => exact ⟨hm, rfl⟩
  | cons a as ih =>
      by_cases hpos : nbytes - m > 0
      · have hwaits : writenAt msg nbytes m = .waiting ⟨msg + m, nbytes - m⟩ := if_pos hpos
        rw [hwaits] at h ⊢
        obtain ⟨hallows, hlater⟩ := h
        rw [Progress.after, List.all_cons, moved_cons, ← Nat.add_assoc]
        cases hgoes : a.goesOn with
        | true =>
            have hcount : a.count ≤ nbytes - m := count_le_of_allowed hallows
            rw [writenResume_at hn hallows hgoes] at hlater ⊢
            exact ih (by omega) hlater
        | false =>
            obtain ⟨hresume, hcount⟩ := writenResume_of_ends nbytes ⟨msg + m, nbytes - m⟩ hgoes
            rw [hresume] at hlater ⊢
            obtain rfl := Progress.eq_nil_of_takes hlater
            rw [hcount]
            exact ⟨hm, rfl⟩
      · have hreturned : writenAt msg nbytes m = .returned nbytes ⟨msg + m, nbytes - m⟩ :=
          if_neg hpos
        rw [hreturned] at h
        exact h.elim

/-! ## Readn -/

/-- A reading loop with `got` stored. -/
def readLoopAt (mem : Mem) (msg nbytes : Nat) (got : List UInt8) : ReadLoop :=
  ⟨mem.store msg got, msg + got.length, nbytes - got.length⟩

theorem advance_readLoopAt {mem : Mem} {msg nbytes : Nat} {got bs : List UInt8}
    (hn : nbytes < 2 ^ 64) (hcount : bs.length ≤ nbytes - got.length) :
    ReadLoop.advance (readLoopAt mem msg nbytes got) bs =
      readLoopAt mem msg nbytes (got ++ bs) := by
  have hleft : subSizeT (nbytes - got.length) bs.length = nbytes - (got ++ bs).length := by
    rw [subSizeT_of_le hcount (by omega), List.length_append, Nat.sub_sub]
  rw [ReadLoop.advance, readLoopAt, hleft, readLoopAt, Mem.store_append, List.length_append,
    Nat.add_assoc]

/-- `Readn` after the bytes `got`. -/
def readnAt (mem : Mem) (msg nbytes : Nat) (got : List UInt8) : Progress ReadLoop Nat :=
  readnLoop nbytes ⟨mem.store msg got, msg + got.length, nbytes - got.length⟩

theorem readnResume_at {mem : Mem} {msg nbytes : Nat} {got : List UInt8} (hn : nbytes < 2 ^ 64)
    {a : ReadAnswer} (ha : MayAnswer ⟨mem.store msg got, msg + got.length, nbytes - got.length⟩ a)
    (hgoes : a.goesOn = true) :
    readnResume nbytes ⟨mem.store msg got, msg + got.length, nbytes - got.length⟩ a =
      readnAt mem msg nbytes (got ++ a.given) := by
  cases a with
  | bytes bs =>
      obtain ⟨queued, closed, -, hcount, -⟩ := ha
      exact congrArg (readnLoop nbytes) (advance_readLoopAt hn hcount)
  | interrupted =>
      have hnone : got ++ ReadAnswer.interrupted.given = got := List.append_nil got
      rw [hnone]
      rfl
  | endOfStream => cases hgoes
  | failed => cases hgoes

/-- At the end of the stream `Readn` returns, and after an error. -/
theorem readnResume_of_ends (nbytes : Nat) (s : ReadLoop) {a : ReadAnswer}
    (hends : a.goesOn = false) :
    readnResume nbytes s a =
        .returned (if a = .failed then sizeMax else subSizeT nbytes s.nleft) s ∧
      a.given = [] := by
  cases a with
  | bytes bs => cases hends
  | interrupted => cases hends
  | endOfStream => exact ⟨rfl, rfl⟩
  | failed => exact ⟨rfl, rfl⟩

theorem length_given_le {s : ReadLoop} {a : ReadAnswer} (ha : MayAnswer s a) :
    a.given.length ≤ s.nleft := by
  obtain ⟨queued, closed, ha⟩ := ha
  cases a with
  | bytes bs => exact ha.2.1
  | _ => exact Nat.zero_le _

theorem given_cons (a : ReadAnswer) (as : List ReadAnswer) :
    given (a :: as) = a.given ++ given as := List.flatMap_cons

/-- **Where `Readn` has got to** depends on the bytes given, and on how it has ended. -/
theorem after_readnAt {mem : Mem} {msg nbytes : Nat} {got : List UInt8} (hn : nbytes < 2 ^ 64)
    (hgot : got.length ≤ nbytes) {answers : List ReadAnswer}
    (h : (readnAt mem msg nbytes got).Takes (readnResume nbytes) MayAnswer answers) :
    (got ++ given answers).length ≤ nbytes ∧
      (readnAt mem msg nbytes got).after (readnResume nbytes) answers =
        if answers.all ReadAnswer.goesOn then readnAt mem msg nbytes (got ++ given answers)
        else .returned
          (if .failed ∈ answers then sizeMax else (got ++ given answers).length)
          ⟨mem.store msg (got ++ given answers), msg + (got ++ given answers).length,
            nbytes - (got ++ given answers).length⟩ := by
  induction answers generalizing got with
  | nil =>
      have hnil : got ++ given [] = got := List.append_nil got
      rw [hnil]
      exact ⟨hgot, rfl⟩
  | cons a as ih =>
      by_cases hpos : nbytes - got.length > 0
      · have hwaits : readnAt mem msg nbytes got =
            .waiting ⟨mem.store msg got, msg + got.length, nbytes - got.length⟩ := if_pos hpos
        rw [hwaits] at h ⊢
        obtain ⟨hallows, hlater⟩ := h
        rw [Progress.after, List.all_cons, given_cons, ← List.append_assoc]
        cases hgoes : a.goesOn with
        | true =>
            have hcount : a.given.length ≤ nbytes - got.length := length_given_le hallows
            have hfailed : ReadAnswer.failed ∈ a :: as ↔ ReadAnswer.failed ∈ as := by
              cases a with
              | failed => cases hgoes
              | _ => simp
            rw [readnResume_at hn hallows hgoes] at hlater ⊢
            simp only [hfailed]
            exact ih (by rw [List.length_append]; omega) hlater
        | false =>
            obtain ⟨hresume, hnone⟩ := readnResume_of_ends nbytes
              ⟨mem.store msg got, msg + got.length, nbytes - got.length⟩ hgoes
            rw [hresume] at hlater ⊢
            obtain rfl := Progress.eq_nil_of_takes hlater
            have hvalue : subSizeT nbytes (nbytes - got.length) = got.length := by
              rw [subSizeT_of_le (Nat.sub_le _ _) hn]
              omega
            have hnil : got ++ [] ++ given [] = got := by simp [given]
            rw [hnone, hnil, hvalue]
            refine ⟨hgot, ?_⟩
            simp only [List.mem_singleton, eq_comm]
            rfl
      · have hreturned : readnAt mem msg nbytes got =
            .returned (subSizeT nbytes (nbytes - got.length))
              ⟨mem.store msg got, msg + got.length, nbytes - got.length⟩ := if_neg hpos
        rw [hreturned] at h
        exact h.elim

/-! ## How many calls -/

theorem waiting_of_writenLoop {nbytes : Nat} {s s' : WriteLoop}
    (h : writenLoop nbytes s = .waiting s') : s = s' ∧ 0 < s'.nleft := by
  rw [writenLoop] at h
  split at h
  · next hpos =>
      cases h
      exact ⟨rfl, hpos⟩
  · cases h

theorem waiting_of_readnLoop {nbytes : Nat} {s s' : ReadLoop}
    (h : readnLoop nbytes s = .waiting s') : s = s' ∧ 0 < s'.nleft := by
  rw [readnLoop] at h
  split at h
  · next hpos =>
      cases h
      exact ⟨rfl, hpos⟩
  · cases h

/-- `Writen` gets no more than `nbytes` answers that are not interruptions. -/
theorem countP_writen_le {msg nbytes : Nat} (hn : nbytes < 2 ^ 64) {answers : List WriteAnswer}
    (h : (writen msg nbytes).Takes (writenResume nbytes) (fun s a => a.Allowed s) answers) :
    answers.countP (fun a => !a.isInterruption) ≤ nbytes := by
  refine Progress.countP_le (fun s => 0 < s.nleft ∧ s.nleft < 2 ^ 64) WriteLoop.nleft _
    (fun s hs => hs.1) ?_ ?_ h
  · rintro s a s' ⟨hpos, hlt⟩ hallows hnext
    cases a with
    | wrote count =>
        obtain ⟨hone, hcount⟩ := hallows
        obtain ⟨rfl, hpos'⟩ := waiting_of_writenLoop hnext
        have hleft : subSizeT s.nleft count = s.nleft - count := subSizeT_of_le hcount hlt
        simp only [hleft] at hpos' ⊢
        simp only [WriteAnswer.isInterruption]
        exact ⟨⟨hpos', by omega⟩, by simp; omega⟩
    | interrupted =>
        obtain ⟨rfl, -⟩ := waiting_of_writenLoop hnext
        exact ⟨⟨hpos, hlt⟩, by simp [WriteAnswer.isInterruption]⟩
    | nothing => cases hnext
    | failed => cases hnext
  · intro s hs
    obtain ⟨rfl, hpos⟩ := waiting_of_writenLoop hs
    exact ⟨⟨hpos, hn⟩, Nat.le_refl nbytes⟩

/-- Neither does `Readn`. -/
theorem countP_readn_le {mem : Mem} {msg nbytes : Nat} (hn : nbytes < 2 ^ 64)
    {answers : List ReadAnswer}
    (h : (readn mem msg nbytes).Takes (readnResume nbytes) MayAnswer answers) :
    answers.countP (fun a => !a.isInterruption) ≤ nbytes := by
  refine Progress.countP_le (fun s => 0 < s.nleft ∧ s.nleft < 2 ^ 64) ReadLoop.nleft _
    (fun s hs => hs.1) ?_ ?_ h
  · rintro s a s' ⟨hpos, hlt⟩ ⟨queued, closed, hallows⟩ hnext
    cases a with
    | bytes bs =>
        obtain ⟨hne, hcount, -⟩ := hallows
        obtain ⟨rfl, hpos'⟩ := waiting_of_readnLoop hnext
        have hone : 0 < bs.length := List.length_pos_iff.mpr hne
        have hleft : (ReadLoop.advance s bs).nleft = s.nleft - bs.length :=
          subSizeT_of_le hcount hlt
        rw [hleft] at hpos' ⊢
        exact ⟨⟨hpos', by omega⟩, by simp [ReadAnswer.isInterruption]; omega⟩
    | interrupted =>
        obtain ⟨rfl, -⟩ := waiting_of_readnLoop hnext
        exact ⟨⟨hpos, hlt⟩, by simp [ReadAnswer.isInterruption]⟩
    | endOfStream => cases hnext
    | failed => cases hnext
  · intro s hs
    obtain ⟨rfl, hpos⟩ := waiting_of_readnLoop hs
    exact ⟨⟨hpos, hn⟩, Nat.le_refl nbytes⟩

/-- **How long `Writen` and `Readn` wait.** Of the answers a call gets not more than `nbytes` are
anything but interruptions. After any of them the call stands where the bytes moved have put it: it
waits for the rest, or has returned `nbytes` if there is none; after an error it has returned
`(size_t)-1`, `Writen` also after a `write` of nothing, and `Readn` at the end of the stream the
number of the bytes read. -/
theorem answers_le {nbytes : Nat} (hn : nbytes < 2 ^ 64) (mem : Mem) (msg : Nat) :
    (∀ answers,
      (writen msg nbytes).Takes (writenResume nbytes) (fun s a => a.Allowed s) answers →
      answers.countP (fun a => !a.isInterruption) ≤ nbytes ∧
      (writen msg nbytes).after (writenResume nbytes) answers =
        if answers.all WriteAnswer.goesOn then
          if moved answers = nbytes then .returned nbytes ⟨msg + nbytes, 0⟩
          else .waiting ⟨msg + moved answers, nbytes - moved answers⟩
        else .returned sizeMax ⟨msg + moved answers, nbytes - moved answers⟩) ∧
    ∀ answers, (readn mem msg nbytes).Takes (readnResume nbytes) MayAnswer answers →
      answers.countP (fun a => !a.isInterruption) ≤ nbytes ∧
      (readn mem msg nbytes).after (readnResume nbytes) answers =
        if answers.all ReadAnswer.goesOn then
          if (given answers).length = nbytes then
            .returned nbytes ⟨mem.store msg (given answers), msg + nbytes, 0⟩
          else .waiting ⟨mem.store msg (given answers), msg + (given answers).length,
            nbytes - (given answers).length⟩
        else .returned (if .failed ∈ answers then sizeMax else (given answers).length)
          ⟨mem.store msg (given answers), msg + (given answers).length,
            nbytes - (given answers).length⟩ := by
  refine ⟨fun answers h => ⟨countP_writen_le hn h, ?_⟩,
    fun answers h => ⟨countP_readn_le hn h, ?_⟩⟩
  · have hstart : writen msg nbytes = writenAt msg nbytes 0 := rfl
    rw [hstart] at h ⊢
    obtain ⟨hle, hafter⟩ := after_writenAt hn (Nat.zero_le nbytes) h
    rw [Nat.zero_add] at hle hafter
    rw [hafter, writenAt, writenLoop]
    refine if_congr Iff.rfl ?_ rfl
    by_cases hall : moved answers = nbytes
    · rw [if_pos hall, hall, Nat.sub_self]
      rfl
    · rw [if_neg hall]
      exact if_pos (show nbytes - moved answers > 0 by omega)
  · have hstart : readn mem msg nbytes = readnAt mem msg nbytes [] := by
      rw [readnAt, Mem.store_nil]
      rfl
    rw [hstart] at h ⊢
    obtain ⟨hle, hafter⟩ := after_readnAt hn
      (show ([] : List UInt8).length ≤ nbytes from Nat.zero_le nbytes) h
    rw [List.nil_append] at hle hafter
    rw [hafter, readnAt, readnLoop]
    refine if_congr Iff.rfl ?_ rfl
    by_cases hall : (given answers).length = nbytes
    · rw [if_pos hall, hall, Nat.sub_self]
      show Progress.returned (subSizeT nbytes 0) _ = _
      rw [subSizeT_of_le (Nat.zero_le nbytes) hn, Nat.sub_zero]
    · rw [if_neg hall]
      exact if_pos (show nbytes - (given answers).length > 0 by omega)

/-- Two bytes are written in two calls, the first of which is interrupted once; and the second call
of two fails. -/
theorem answers_le_sample :
    (writen 0x1000 2).after (writenResume 2) [.interrupted, .wrote 1, .wrote 1] =
        .returned 2 ⟨0x1002, 0⟩ ∧
      (writen 0x1000 2).after (writenResume 2) [.wrote 1, .failed] =
        .returned sizeMax ⟨0x1001, 1⟩ := by
  have htakes : (writen 0x1000 2).Takes (writenResume 2) (fun s a => a.Allowed s)
      [.interrupted, .wrote 1, .wrote 1] :=
    ⟨trivial, ⟨by decide, by decide⟩, ⟨by decide, by decide⟩, trivial⟩
  have htakes' : (writen 0x1000 2).Takes (writenResume 2) (fun s a => a.Allowed s)
      [.wrote 1, .failed] :=
    ⟨⟨by decide, by decide⟩, trivial, trivial⟩
  exact ⟨((answers_le (by decide) (fun _ => 0) 0x1000).1 _ htakes).2,
    ((answers_le (by decide) (fun _ => 0) 0x1000).1 _ htakes').2⟩

/-! ## ReadMessage -/

/-- The addresses that a process may load from. -/
abbrev AddressSpace : Type := Nat → Bool

/-- `readMessageLength()` loads the length of a message from behind its pointer. -/
def AddressSpace.Serves (space : AddressSpace) (pointer : Nat) : Prop :=
  ∀ i < 2, space (sizeT (pointer + messageLengthOffset + i)) = true

instance (space : AddressSpace) (pointer : Nat) : Decidable (space.Serves pointer) :=
  inferInstanceAs (Decidable (∀ i < 2, _))

/-- `SSIZE_MAX` -/
def ssizeMax : Nat := 2 ^ 63 - 1

/-- A `read` for more than `SSIZE_MAX` bytes is refused. -/
def MayAnswerWithin (s : ReadLoop) (a : ReadAnswer) : Prop :=
  if s.nleft ≤ ssizeMax then MayAnswer s a else a = .failed

section ReadMessage

variable (space : AddressSpace) (host : ByteOrder) (this nbytes : Nat)

/-- The end of the body and the head of the loop, in a process: it dies of a load that it may not
make, and then there is no result. -/
def readMessageRound (s : ReadLoop) : Progress ReadLoop (Option Nat) :=
  if subSizeT nbytes s.nleft ≥ sizeofMessageHeader + 2 ∧
      ¬ space.Serves (Object.data host s.mem this) then
    .returned none s
  else (readMessageLoop (readMessageBody host this nbytes s)).map some

/-- `readMessageResume`, in a process. -/
def readMessageResumeIn (s : ReadLoop) : ReadAnswer → Progress ReadLoop (Option Nat)
  | .bytes bs => readMessageRound space host this nbytes (ReadLoop.advance s bs)
  | .interrupted => readMessageRound space host this nbytes s
  | .endOfStream => .returned (some s.nleft) s
  | .failed => .returned (some sizeMax) s

def readMessageIn (mem : Mem) : Progress ReadLoop (Option Nat) :=
  (readMessage this nbytes mem).map some

/-- Where a call for thirty bytes or more can have got to, with `got` stored: it waits for the
first thirty; it has died of the pointer that they spell; it waits for what `nleft` has wrapped to;
or the stream has ended before, or a `read` has failed. -/
inductive ComesToNothing (mem : Mem) (got : List UInt8) (answers : List ReadAnswer) :
    Progress ReadLoop (Option Nat) → Prop
  | waits (hfew : got.length < 30) :
      ComesToNothing mem got answers
        (.waiting ⟨mem.store this got, this + got.length, nbytes - got.length⟩)
  | dies {s : ReadLoop} (hread : 30 ≤ got.length)
      (hpointer : ¬ space.Serves (host.decode ((got.drop 8).take 8))) :
      ComesToNothing mem got answers (.returned none s)
  | asks {s : ReadLoop} (hread : 30 ≤ got.length)
      (hpointer : space.Serves (host.decode ((got.drop 8).take 8)))
      (hptr : s.ptr = this + got.length) (hleft : s.nleft = 2 ^ 64 - got.length) :
      ComesToNothing mem got answers (.waiting s)
  | ends {s : ReadLoop} (hfew : got.length < 30) (hend : .endOfStream ∈ answers) :
      ComesToNothing mem got answers (.returned (some (nbytes - got.length)) s)
  | fails {s : ReadLoop} (hfailed : .failed ∈ answers) :
      ComesToNothing mem got answers (.returned (some sizeMax) s)

end ReadMessage

theorem ptr_readMessageBody {host : ByteOrder} {this nbytes : Nat} {s : ReadLoop} :
    (readMessageBody host this nbytes s).ptr = s.ptr := by
  by_cases hcheck : (0 : Nat) = 0 ∧ subSizeT nbytes s.nleft ≥ sizeofMessageHeader + 2
  · rw [readMessageBody, if_pos hcheck]
  · rw [readMessageBody, if_neg hcheck]

section Rounds

variable {space : AddressSpace} {host : ByteOrder} {this nbytes : Nat} {mem : Mem}
  {got : List UInt8} {answers : List ReadAnswer} {p : Progress ReadLoop (Option Nat)}

theorem ComesToNothing.cons (h : ComesToNothing space host this nbytes mem got answers p)
    (a : ReadAnswer) : ComesToNothing space host this nbytes mem got (a :: answers) p := by
  cases h with
  | waits hfew => exact .waits hfew
  | dies hread hpointer => exact .dies hread hpointer
  | asks hread hpointer hptr hleft => exact .asks hread hpointer hptr hleft
  | ends hfew hend => exact .ends hfew (List.mem_cons_of_mem a hend)
  | fails hfailed => exact .fails (List.mem_cons_of_mem a hfailed)

/-- The pointer of the object is what the ninth to the sixteenth byte spell. -/
theorem data_readLoopAt (host : ByteOrder) (hread : 30 ≤ got.length) :
    Object.data host (readLoopAt mem this nbytes got).mem this =
      host.decode ((got.drop 8).take 8) := by
  show host.decode ((mem.store this got).load (this + 8) 8) = _
  rw [Mem.load_store_within mem this (by omega)]

/-- With fewer than thirty bytes stored the call goes on. -/
theorem readMessageRound_of_lt (hlong : 30 ≤ nbytes) (hn : nbytes < 2 ^ 64)
    (hfew : got.length < 30) :
    readMessageRound space host this nbytes (readLoopAt mem this nbytes got) =
      .waiting (readLoopAt mem this nbytes got) := by
  have hstored : subSizeT nbytes (nbytes - got.length) = got.length := by
    rw [subSizeT_of_le (Nat.sub_le _ _) hn]
    omega
  have hfew' : ¬ subSizeT nbytes (readLoopAt mem this nbytes got).nleft ≥
      sizeofMessageHeader + 2 := by
    show ¬ 30 ≤ subSizeT nbytes (nbytes - got.length)
    omega
  have hbody : readMessageBody host this nbytes (readLoopAt mem this nbytes got) =
      readLoopAt mem this nbytes got := if_neg fun h => hfew' h.2
  have hleft : nbytes - got.length > 0 := by omega
  rw [readMessageRound, if_neg fun h => hfew' h.1, hbody, readMessageLoop]
  exact congrArg (Progress.map some) (if_pos hleft)

/-- With thirty it dies, or asks for what `nleft` has wrapped to. -/
theorem readMessageRound_of_ge (space : AddressSpace) (host : ByteOrder) (mem : Mem)
    (this : Nat) (hn : nbytes < 2 ^ 64) (hle : got.length ≤ nbytes) (hread : 30 ≤ got.length) :
    (¬ space.Serves (host.decode ((got.drop 8).take 8)) ∧
      readMessageRound space host this nbytes (readLoopAt mem this nbytes got) =
        .returned none (readLoopAt mem this nbytes got)) ∨
    (space.Serves (host.decode ((got.drop 8).take 8)) ∧
      ∃ s, readMessageRound space host this nbytes (readLoopAt mem this nbytes got) =
          .waiting s ∧ s.ptr = this + got.length ∧ s.nleft = 2 ^ 64 - got.length) := by
  have hstored : subSizeT nbytes (nbytes - got.length) = got.length := by
    rw [subSizeT_of_le (Nat.sub_le _ _) hn]
    omega
  have hcheck : 30 ≤ subSizeT nbytes (readLoopAt mem this nbytes got).nleft := by
    show 30 ≤ subSizeT nbytes (nbytes - got.length)
    omega
  rw [readMessageRound, data_readLoopAt host hread]
  by_cases hpointer : space.Serves (host.decode ((got.drop 8).take 8))
  · right
    have hwrapped : subSizeT (nbytes - got.length) nbytes = 2 ^ 64 - got.length := by
      rw [subSizeT, sizeT]
      omega
    have hleft : (readMessageBody host this nbytes (readLoopAt mem this nbytes got)).nleft =
        2 ^ 64 - got.length := (nleft_readMessageBody hn hcheck).trans hwrapped
    have hpos : (readMessageBody host this nbytes (readLoopAt mem this nbytes got)).nleft > 0 :=
      by omega
    refine ⟨hpointer, _, ?_, ptr_readMessageBody, hleft⟩
    rw [if_neg fun h => h.2 hpointer, readMessageLoop, if_pos hpos]
    rfl
  · exact .inl ⟨hpointer, if_pos ⟨hcheck, hpointer⟩⟩

/-- From the thirtieth byte on the kernel refuses. -/
theorem comesToNothing_of_ge (hn : nbytes ≤ ssizeMax) (hle : got.length ≤ nbytes)
    (hread : 30 ≤ got.length)
    (htakes : (readMessageRound space host this nbytes (readLoopAt mem this nbytes got)).Takes
      (readMessageResumeIn space host this nbytes) MayAnswerWithin answers) :
    ComesToNothing space host this nbytes mem (got ++ given answers) answers
      ((readMessageRound space host this nbytes (readLoopAt mem this nbytes got)).after
        (readMessageResumeIn space host this nbytes) answers) := by
  have hmax : ssizeMax = 2 ^ 63 - 1 := rfl
  rcases readMessageRound_of_ge space host mem this (by omega) hle hread with
    ⟨hpointer, hround⟩ | ⟨hpointer, s, hround, hptr, hleft⟩
  · rw [hround] at htakes ⊢
    obtain rfl := Progress.eq_nil_of_takes htakes
    have hnil : got ++ given [] = got := List.append_nil got
    rw [hnil]
    exact .dies hread hpointer
  · rw [hround] at htakes ⊢
    cases answers with
    | nil =>
        have hnil : got ++ given [] = got := List.append_nil got
        rw [hnil]
        exact .asks hread hpointer hptr hleft
    | cons a as =>
        obtain ⟨hallows, hlater⟩ := htakes
        have hlarge : ¬ s.nleft ≤ ssizeMax := by omega
        rw [MayAnswerWithin, if_neg hlarge] at hallows
        subst hallows
        obtain rfl := Progress.eq_nil_of_takes hlater
        exact .fails List.mem_cons_self

/-- Up to the thirtieth byte, by induction on the answers. -/
theorem comesToNothing_of_lt (hlong : 30 ≤ nbytes) (hn : nbytes ≤ ssizeMax)
    (hfew : got.length < 30)
    (htakes : (Progress.waiting (readLoopAt mem this nbytes got)).Takes
      (readMessageResumeIn space host this nbytes) MayAnswerWithin answers) :
    ComesToNothing space host this nbytes mem (got ++ given answers) answers
      ((Progress.waiting (readLoopAt mem this nbytes got)).after
        (readMessageResumeIn space host this nbytes) answers) := by
  have hmax : ssizeMax = 2 ^ 63 - 1 := rfl
  induction answers generalizing got with
  | nil =>
      have hnil : got ++ given [] = got := List.append_nil got
      rw [hnil]
      exact .waits hfew
  | cons a as ih =>
      obtain ⟨hallows, hlater⟩ := htakes
      have hsmall : (readLoopAt mem this nbytes got).nleft ≤ ssizeMax :=
        Nat.le_trans (Nat.sub_le _ _) hn
      rw [MayAnswerWithin, if_pos hsmall] at hallows
      rw [Progress.after, given_cons, ← List.append_assoc]
      cases a with
      | bytes bs =>
          have hcount : bs.length ≤ nbytes - got.length := length_given_le hallows
          have hlength : (got ++ bs).length ≤ nbytes := by
            rw [List.length_append]
            omega
          have hresume : readMessageResumeIn space host this nbytes
              (readLoopAt mem this nbytes got) (.bytes bs) =
                readMessageRound space host this nbytes
                  (readLoopAt mem this nbytes (got ++ bs)) := by
            rw [readMessageResumeIn, advance_readLoopAt (by omega) hcount]
          rw [hresume] at hlater ⊢
          by_cases hfew' : (got ++ bs).length < 30
          · rw [readMessageRound_of_lt hlong (by omega) hfew'] at hlater ⊢
            exact (ih hfew' hlater).cons _
          · exact (comesToNothing_of_ge hn hlength (Nat.le_of_not_lt hfew') hlater).cons _
      | interrupted =>
          have hnone : got ++ ReadAnswer.interrupted.given = got := List.append_nil got
          have hresume : readMessageResumeIn space host this nbytes
              (readLoopAt mem this nbytes got) .interrupted =
                .waiting (readLoopAt mem this nbytes got) :=
            readMessageRound_of_lt hlong (by omega) hfew
          rw [hnone]
          rw [hresume] at hlater ⊢
          exact (ih hfew hlater).cons _
      | endOfStream =>
          obtain rfl := Progress.eq_nil_of_takes hlater
          have hnil : got ++ ReadAnswer.endOfStream.given ++ given [] = got := by
            simp [ReadAnswer.given, given]
          rw [hnil]
          exact .ends hfew List.mem_cons_self
      | failed =>
          obtain rfl := Progress.eq_nil_of_takes hlater
          exact .fails List.mem_cons_self

/-- **`ReadMessage` never receives a message.** In any process, with a buffer of thirty bytes or
more, and whatever it is answered by a kernel that refuses requests for more than `SSIZE_MAX`
bytes: the call waits for the first thirty bytes; once it has them it dies, unless the pointer that
they spell may be followed, and then asks for `2 ^ 64` less the bytes read, which is refused; and it
returns only where the stream has ended before or a `read` has failed, and never zero. -/
theorem after_readMessage (hlong : 30 ≤ nbytes) (hn : nbytes < 2 ^ 64)
    (htakes : (readMessageIn this nbytes mem).Takes (readMessageResumeIn space host this nbytes)
      MayAnswerWithin answers) :
    ComesToNothing space host this nbytes mem (given answers) answers
        ((readMessageIn this nbytes mem).after (readMessageResumeIn space host this nbytes)
          answers) ∧
      ∀ s, (readMessageIn this nbytes mem).after (readMessageResumeIn space host this nbytes)
        answers ≠ .returned (some 0) s := by
  have hstart : readMessageIn this nbytes mem = .waiting (readLoopAt mem this nbytes []) := by
    have hpos : nbytes > 0 := by omega
    rw [readMessageIn, readMessage, readMessageLoop, if_pos hpos, readLoopAt, Mem.store_nil]
    rfl
  rw [hstart] at htakes ⊢
  have hnothing : ComesToNothing space host this nbytes mem (given answers) answers
      ((Progress.waiting (readLoopAt mem this nbytes [])).after
        (readMessageResumeIn space host this nbytes) answers) := by
    by_cases hsmall : nbytes ≤ ssizeMax
    · exact comesToNothing_of_lt hlong hsmall (by decide) htakes
    · -- not even the first `read` is served
      cases answers with
      | nil => exact .waits (by decide)
      | cons a as =>
          obtain ⟨hallows, hlater⟩ := htakes
          have hlarge : ¬ (readLoopAt mem this nbytes []).nleft ≤ ssizeMax := hsmall
          rw [MayAnswerWithin, if_neg hlarge] at hallows
          subst hallows
          obtain rfl := Progress.eq_nil_of_takes hlater
          exact .fails List.mem_cons_self
  refine ⟨hnothing, fun s hs => ?_⟩
  rw [hs] at hnothing
  generalize hvalue : (0 : Nat) = value at hnothing
  cases hnothing with
  | ends hfew hend => omega
  | fails hfailed =>
      rw [sizeMax] at hvalue
      omega

/-- A message of thirty zero bytes comes as a whole, and nothing may be loaded from where a null
pointer leads. -/
theorem after_readMessage_sample : ∃ s,
    (readMessageIn 0x1000 0xFFFF fun _ => 0).after
      (readMessageResumeIn (fun a => decide (0x1000 ≤ a)) .little 0x1000 0xFFFF)
      [.bytes (List.replicate 30 0)] = .returned none s := by
  have htakes : (readMessageIn 0x1000 0xFFFF fun _ => 0).Takes
      (readMessageResumeIn (fun a => decide (0x1000 ≤ a)) .little 0x1000 0xFFFF) MayAnswerWithin
      [.bytes (List.replicate 30 0)] :=
    ⟨⟨List.replicate 30 0, False, by decide, by decide, List.prefix_refl _⟩, trivial⟩
  obtain ⟨hnothing, -⟩ := after_readMessage (by decide) (by decide) htakes
  generalize (readMessageIn 0x1000 0xFFFF fun _ => 0).after
    (readMessageResumeIn (fun a => decide (0x1000 ≤ a)) .little 0x1000 0xFFFF)
    [.bytes (List.replicate 30 0)] = p at hnothing
  cases hnothing with
  | waits hfew => exact absurd hfew (by decide)
  | @dies s hread hpointer => exact ⟨s, rfl⟩
  | asks hread hpointer hptr hleft => exact absurd hpointer (by decide)
  | ends hfew hend => exact absurd hfew (by decide)
  | fails hfailed => exact absurd hfailed (by decide)

end Rounds

end Connection

end Kcmsg
