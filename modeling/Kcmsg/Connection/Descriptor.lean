import Kcmsg.Connection.Basic
import Kcmsg.Connection.Receive
import Kcmsg.Connection.Send

/-!
# Runs of a connection

A `Session` is a connection together with the operation it is in. An event is the beginning of an
operation or an answer of the kernel to the call the operation waits in, so that every state
between two system calls is a state of a run, and an operation that throws is followed by the next
one. Every call that is made is noted in `issued`.

`step_spec` is all that the invariants use: the calls of a step are made on the descriptor the
connection then has, and that is the one it had unless a `connect` was answered. So a connection
keeps its socket (`KeepsSocket`) in the runs in which no `connect` is answered, and in others only
if zero, the result of a successful one, is its socket.
-/

namespace Kcmsg

namespace Connection

/-- The operations, with their arguments; the addresses are those of the process's memory. -/
inductive Operation where
  | resolveHost
  | resolveHostWide
  | setListenerQueueSize (s : UInt32)
  | bind
  | listen
  | connect
  | accept
  | readn (msg nbytes : Nat)
  | writen (msg nbytes : Nat)
  | readMessage (msg nbytes : Nat)
  | writeMessage (msg : Nat)

/-- The call an operation waits in, with its locals. -/
inductive Pending where
  | resolving
  | binding
  | listening
  | connecting
  | accepting
  | readingN (nbytes : Nat) (locals : ReadLoop)
  | writingN (nbytes : Nat) (locals : WriteLoop)
  | readingMessage (msg nbytes : Nat) (locals : ReadLoop)
  | writingMessage (msg : Nat) (locals : WriteLoop)

/-- What the kernel answers. `bind`, `listen` and `connect` succeed with `0` and fail with `-1`. -/
inductive Answer where
  | resolved (res : Int) (aiAddr : Mem)
  | bound (ok : Bool)
  | listening (ok : Bool)
  | connected (ok : Bool)
  | accepted (res errno : Int)
  | read (answer : ReadAnswer)
  | wrote (answer : WriteAnswer)

def status (ok : Bool) : Int := if ok then 0 else -1

inductive Event where
  | call (op : Operation)
  | answer (a : Answer)

/-- How an operation ended. -/
inductive Ending where
  | done
  | int (value : Int)
  | flag (value : Bool)
  | size (value : Nat)
  | exception (what : String)
  deriving DecidableEq

/-- The system call made by an operation that comes to wait; `getaddrinfo` is none. -/
def Pending.systemCall (c : Connection) : Pending → Option SystemCall
  | resolving => none
  | binding => some (.bind c.conn.fd c.conn.addr)
  | listening => some (.listen c.conn.fd c.listenMax)
  | connecting => some (.connect c.conn.fd c.conn.addr)
  | accepting => some (.accept c.conn.fd
      { ConnectionStorage.zero.addr with length := addrLength c.family })
  | readingN _ s => some (.read c.conn.fd s.ptr s.nleft)
  | writingN _ s => some (.write c.conn.fd s.ptr s.nleft)
  | readingMessage _ _ s => some (.read c.conn.fd s.ptr s.nleft)
  | writingMessage _ s => some (.write c.conn.fd s.ptr s.nleft)

/-- A connection, the memory of the process, the operation it is in, the calls made so far, and how
the operations have ended. -/
structure Session where
  conn : Connection
  mem : Mem
  pending : Option Pending
  issued : List SystemCall
  ended : List Ending

namespace Session

def start (c : Connection) (mem : Mem) : Session := ⟨c, mem, none, [], []⟩

/-- The operation makes its next call. -/
def waitIn (σ : Session) (p : Pending) : Session :=
  { σ with
    pending := some p
    issued := σ.issued ++ (p.systemCall σ.conn).toList }

/-- The operation ends. -/
def finish (σ : Session) (e : Ending) : Session :=
  { σ with
    pending := none
    ended := σ.ended ++ [e] }

/-- The operation ends with what is left of its body. -/
def finishWith {α : Type} (σ : Session) (f : α → Ending) (x : Program Connection α) :
    Option Session :=
  match x.run σ.conn with
  | .returns a c => some ({ σ with conn := c }.finish (f a))
  | .throws what c => some ({ σ with conn := c }.finish (.exception what))
  | .aborts => none
  | .faults => none

/-- On to the next `read`, or out of the operation. -/
def readAt (σ : Session) (p : ReadLoop → Pending) : Progress ReadLoop Nat → Session
  | .waiting s => σ.waitIn (p s)
  | .returned value s => { σ with mem := s.mem }.finish (.size value)

/-- On to the next `write`, or out of the operation. -/
def writeAt (σ : Session) (p : WriteLoop → Pending) : Progress WriteLoop Nat → Session
  | .waiting s => σ.waitIn (p s)
  | .returned value _ => σ.finish (.size value)

variable (host : ByteOrder)

/-- An operation runs up to its first call, or to its end. -/
def begin (σ : Session) : Operation → Option Session
  | .resolveHost => some (σ.waitIn .resolving)
  | .resolveHostWide => σ.finishWith .int Connection.resolveHostWide
  | .setListenerQueueSize s => σ.finishWith (fun _ => .done) (Connection.setListenerQueueSize s)
  | .bind => some (σ.waitIn .binding)
  | .listen => some (σ.waitIn .listening)
  | .connect => some (σ.waitIn .connecting)
  | .accept => some (σ.waitIn .accepting)
  | .readn msg nbytes => some (σ.readAt (.readingN nbytes) (Connection.readn σ.mem msg nbytes))
  | .writen msg nbytes => some (σ.writeAt (.writingN nbytes) (Connection.writen msg nbytes))
  | .readMessage msg nbytes =>
      some (σ.readAt (.readingMessage msg nbytes) (Connection.readMessage msg nbytes σ.mem))
  | .writeMessage msg =>
      some (σ.writeAt (.writingMessage msg) (Connection.writeMessage host σ.mem msg))

/-- An answer to the call the operation waits in. -/
def resume (σ : Session) : Pending → Answer → Option Session
  | .resolving, .resolved res aiAddr => σ.finishWith .int (Connection.resolveHost res aiAddr)
  | .binding, .bound ok => σ.finishWith (fun _ => .done) (Connection.bind (status ok))
  | .listening, .listening ok => σ.finishWith (fun _ => .done) (Connection.listen (status ok))
  | .connecting, .connected ok => σ.finishWith (fun _ => .done) (Connection.connect (status ok))
  | .accepting, .accepted res errno => σ.finishWith .flag (Connection.accept res errno)
  | .readingN nbytes s, .read a =>
      some (σ.readAt (.readingN nbytes) (Connection.readnResume nbytes s a))
  | .writingN nbytes s, .wrote a =>
      some (σ.writeAt (.writingN nbytes) (Connection.writenResume nbytes s a))
  | .readingMessage msg nbytes s, .read a =>
      some (σ.readAt (.readingMessage msg nbytes)
        (Connection.readMessageResume host msg nbytes s a))
  | .writingMessage msg s, .wrote a =>
      some (σ.writeAt (.writingMessage msg) (Connection.writeMessageResume host σ.mem msg s a))
  | _, _ => none

/-- Operations follow one another, and answers come to a call that waits. -/
def step (σ : Session) : Event → Option Session
  | .call op =>
      match σ.pending with
      | none => σ.begin host op
      | some _ => none
  | .answer a => σ.pending.bind fun p => σ.resume host p a

def runAll (σ : Session) : List Event → Option Session
  | [] => some σ
  | e :: es => (σ.step host e).bind fun σ' => σ'.runAll es

/-! ## What a step does to the descriptor -/

/-- The descriptor is `fd` afterwards, and the calls that have come are made on it. -/
def MovesOn (fd : Int) (σ σ' : Session) : Prop :=
  σ'.conn.conn.fd = fd ∧
    ∃ calls, σ'.issued = σ.issued ++ calls ∧ ∀ c ∈ calls, c.fd = fd

variable {host} {σ σ' : Session}

theorem movesOn_waitIn (σ : Session) (p : Pending) :
    MovesOn σ.conn.conn.fd σ (σ.waitIn p) := by
  refine ⟨rfl, _, rfl, fun c hc => ?_⟩
  cases p with
  | resolving => exact absurd hc List.not_mem_nil
  | _ =>
      cases List.mem_singleton.mp hc
      rfl

theorem movesOn_finish (σ : Session) (e : Ending) :
    MovesOn σ.conn.conn.fd σ (σ.finish e) :=
  ⟨rfl, [], (List.append_nil _).symm, fun _ hc => absurd hc List.not_mem_nil⟩

theorem movesOn_finishWith {α : Type} {f : α → Ending} {x : Program Connection α} {fd : Int}
    (hx : ∀ c ∈ (x.run σ.conn).state, c.conn.fd = fd) (h : σ.finishWith f x = some σ') :
    MovesOn fd σ σ' := by
  unfold finishWith at h
  cases hrun : x.run σ.conn with
  | returns _ c | throws _ c =>
      rw [hrun] at h hx
      cases h
      have hfd : c.conn.fd = fd := hx c rfl
      rw [← hfd]
      exact movesOn_finish { σ with conn := c } _
  | aborts | faults =>
      rw [hrun] at h
      cases h

theorem movesOn_readAt (σ : Session) (p : ReadLoop → Pending) (progress : Progress ReadLoop Nat) :
    MovesOn σ.conn.conn.fd σ (σ.readAt p progress) := by
  cases progress with
  | waiting s => exact movesOn_waitIn σ (p s)
  | returned value s => exact movesOn_finish { σ with mem := s.mem } _

theorem movesOn_writeAt (σ : Session) (p : WriteLoop → Pending)
    (progress : Progress WriteLoop Nat) : MovesOn σ.conn.conn.fd σ (σ.writeAt p progress) := by
  cases progress with
  | waiting s => exact movesOn_waitIn σ (p s)
  | returned value s => exact movesOn_finish σ _

/-- What the event puts into the descriptor. -/
def assigned : Event → Option Int
  | .answer (.connected ok) => some (status ok)
  | _ => none

theorem movesOn_begin {op : Operation} (h : σ.begin host op = some σ') :
    MovesOn σ.conn.conn.fd σ σ' := by
  cases op with
  | resolveHostWide =>
      exact movesOn_finishWith
        (Program.preserves_pure (R := SameDescriptor) .refl (0 : Int) σ.conn) h
  | setListenerQueueSize s =>
      exact movesOn_finishWith (f := fun _ => .done)
        (sameDescriptor_setListenerQueueSize s σ.conn) h
  | resolveHost | bind | listen | connect | accept =>
      cases h
      exact movesOn_waitIn σ _
  | readn | readMessage =>
      cases h
      exact movesOn_readAt σ _ _
  | writen | writeMessage =>
      cases h
      exact movesOn_writeAt σ _ _

/-- **What a step does**: its calls are made on the descriptor the connection has then, which is the
one it had unless a `connect` was answered. -/
theorem step_spec {e : Event} (h : σ.step host e = some σ') :
    MovesOn ((assigned e).getD σ.conn.conn.fd) σ σ' := by
  cases e with
  | call op =>
      cases hpending : σ.pending with
      | none =>
          rw [step, hpending] at h
          exact movesOn_begin h
      | some p =>
          rw [step, hpending] at h
          cases h
  | answer a =>
      obtain ⟨p, -, hresume⟩ := Option.bind_eq_some_iff.mp h
      unfold resume at hresume
      split at hresume
      · exact movesOn_finishWith (sameDescriptor_resolveHost _ _ σ.conn) hresume
      · exact movesOn_finishWith (sameDescriptor_bind _ σ.conn) hresume
      · exact movesOn_finishWith (sameDescriptor_listen _ σ.conn) hresume
      · exact movesOn_finishWith (connect_descriptor _ σ.conn) hresume
      · exact movesOn_finishWith (sameDescriptor_accept _ _ σ.conn) hresume
      · cases hresume
        exact movesOn_readAt σ _ _
      · cases hresume
        exact movesOn_writeAt σ _ _
      · cases hresume
        exact movesOn_readAt σ _ _
      · cases hresume
        exact movesOn_writeAt σ _ _
      · cases hresume

/-! ## Which runs keep the socket -/

/-- `getDescriptor` returns `s`, and every call so far was made on `s`. -/
structure KeepsSocket (s : Int) (σ : Session) : Prop where
  descriptor : σ.conn.getDescriptor = s
  issued : ∀ c ∈ σ.issued, c.fd = s

/-- The step lemma: a step keeps the socket unless it puts something else into the descriptor. -/
theorem keepsSocket_step_iff {s : Int} (hσ : KeepsSocket s σ) {e : Event}
    (h : σ.step host e = some σ') : KeepsSocket s σ' ↔ ∀ fd ∈ assigned e, fd = s := by
  obtain ⟨hfd, calls, hissued, hcalls⟩ := step_spec h
  have hdescriptor : σ.conn.conn.fd = s := hσ.descriptor
  constructor
  · intro hσ' fd hassigned
    rw [Option.mem_def.mp hassigned, Option.getD_some] at hfd
    exact hfd.symm.trans hσ'.descriptor
  · intro hassigned
    have hsame : (assigned e).getD σ.conn.conn.fd = s := by
      cases hcase : assigned e with
      | none => exact hdescriptor
      | some fd => exact hassigned fd hcase
    rw [hsame] at hfd hcalls
    refine ⟨hfd, fun c hc => ?_⟩
    rw [hissued] at hc
    rcases List.mem_append.mp hc with hc | hc
    · exact hσ.issued c hc
    · exact hcalls c hc

/-- What a `connect` puts there is the socket only if it is zero and the call succeeded. -/
theorem assigned_eq_iff {s : Int} (hs : 0 ≤ s) (e : Event) :
    (∀ fd ∈ assigned e, fd = s) ↔
      ∀ ok, e = .answer (.connected ok) → ok = true ∧ s = 0 := by
  constructor
  · rintro h ok rfl
    have hstatus : status ok = s := h _ rfl
    cases ok with
    | true => exact ⟨rfl, hstatus.symm⟩
    | false =>
        have hneg : (-1 : Int) = s := hstatus
        omega
  · intro h fd hfd
    unfold assigned at hfd
    split at hfd
    · obtain ⟨rfl, rfl⟩ := h _ rfl
      exact (Option.some.inj hfd).symm
    · cases hfd

/-- The run lemma. -/
theorem keepsSocket_runAll_iff {s : Int} (hs : 0 ≤ s) {events : List Event} {last : Session}
    (hσ : KeepsSocket s σ) (hrun : σ.runAll host events = some last) :
    (∀ pre, pre <+: events → ∃ σ', σ.runAll host pre = some σ' ∧ KeepsSocket s σ') ↔
      ∀ ok, .answer (.connected ok) ∈ events → ok = true ∧ s = 0 := by
  induction events generalizing σ with
  | nil =>
      refine iff_of_true (fun pre hpre => ?_) (fun _ hmem => absurd hmem List.not_mem_nil)
      rw [List.prefix_nil.mp hpre]
      exact ⟨σ, rfl, hσ⟩
  | cons e es ih =>
      obtain ⟨σ₁, hstep, hrest⟩ := Option.bind_eq_some_iff.mp hrun
      have hfirst := (keepsSocket_step_iff hσ hstep).trans (assigned_eq_iff hs e)
      have hcons (pre : List Event) : σ.runAll host (e :: pre) = σ₁.runAll host pre := by
        rw [runAll, hstep, Option.bind_some]
      constructor
      · intro hall
        obtain ⟨σ', hσ', hkeeps⟩ := hall [e] ⟨es, rfl⟩
        rw [hcons] at hσ'
        cases hσ'
        have hlater := (ih hkeeps hrest).mp fun pre hpre => by
          obtain ⟨σ', hσ', hkeeps'⟩ := hall (e :: pre) (List.cons_prefix_cons.mpr ⟨rfl, hpre⟩)
          exact ⟨σ', hcons pre ▸ hσ', hkeeps'⟩
        intro ok hmem
        rcases List.mem_cons.mp hmem with heq | hmem
        · exact hfirst.mp hkeeps ok heq.symm
        · exact hlater ok hmem
      · intro hok pre hpre
        have hkeeps := hfirst.mpr fun ok heq => hok ok (heq ▸ List.mem_cons_self)
        have hlater := (ih hkeeps hrest).mpr fun ok hmem => hok ok (List.mem_cons_of_mem e hmem)
        cases pre with
        | nil => exact ⟨σ, rfl, hσ⟩
        | cons d ds =>
            obtain ⟨rfl, hds⟩ := List.cons_prefix_cons.mp hpre
            rw [hcons]
            exact hlater ds hds

theorem keepsSocket_start {fam t p s : Int} {maxthreads : Int32} {c : Connection}
    (hnew : Connection.new fam t p maxthreads s = some c) (mem : Mem) :
    KeepsSocket s (start c mem) := by
  unfold Connection.new at hnew
  split at hnew
  · cases hnew
    exact ⟨rfl, fun _ hc => absurd hc List.not_mem_nil⟩
  · cases hnew

/-- **A connection keeps its socket** through every run of its operations, whatever the kernel
answers, as long as no `connect` is answered; after one it has its socket only if that is zero and
the call succeeded. -/
theorem keepsSocket_iff {fam t p s : Int} {maxthreads : Int32} {c : Connection} (hs : 0 ≤ s)
    (hnew : Connection.new fam t p maxthreads s = some c) {mem : Mem} {events : List Event}
    {last : Session} (hrun : (start c mem).runAll host events = some last) :
    (∀ pre, pre <+: events →
      ∃ σ, (start c mem).runAll host pre = some σ ∧ KeepsSocket s σ) ↔
      ∀ ok, .answer (.connected ok) ∈ events → ok = true ∧ s = 0 :=
  keepsSocket_runAll_iff hs (keepsSocket_start hnew mem) hrun

/-- A TCP connection whose socket is the descriptor 3. -/
def sampleConnection : Connection where
  listenMax := 10
  family := afInet
  protocolType := sockStream
  protocol := ipprotoTcp
  conn := { ConnectionStorage.zero with
    fd := 3
    addr.length := 16 }
  clients := []

theorem new_sampleConnection :
    Connection.new afInet sockStream ipprotoTcp 10 3 = some sampleConnection := rfl

/-- A server that cannot listen the first time. -/
def sampleServer : List Event :=
  [.call .bind, .answer (.bound true), .call .listen, .answer (.listening false), .call .listen,
    .answer (.listening true), .call .accept, .answer (.accepted 4 0)]

theorem keepsSocket_iff_sample :
    ∃ last, (start sampleConnection fun _ => 0).runAll .little sampleServer = some last ∧
      ∀ pre, pre <+: sampleServer → ∃ σ,
        (start sampleConnection fun _ => 0).runAll .little pre = some σ ∧ KeepsSocket 3 σ := by
  have hreturns : ((start sampleConnection fun _ => 0).runAll .little sampleServer).isSome := by
    decide
  obtain ⟨last, hrun⟩ := Option.isSome_iff_exists.mp hreturns
  refine ⟨last, hrun, (keepsSocket_iff (by decide) new_sampleConnection hrun).mpr fun ok hmem => ?_⟩
  simp [sampleServer] at hmem

/-- A client that connects and writes a byte: the byte goes to descriptor 0. If the call fails
instead, the descriptor is `-1`, and so is that of the next attempt. -/
theorem not_keepsSocket_connect :
    (∃ σ, (start sampleConnection fun _ => 0).runAll .little
        [.call .connect, .answer (.connected true), .call (.writen 0x1000 1)] = some σ ∧
      σ.conn.getDescriptor = 0 ∧ (∃ c ∈ σ.issued, c = .write 0 0x1000 1) ∧ ¬ KeepsSocket 3 σ) ∧
    ∃ σ, (start sampleConnection fun _ => 0).runAll .little
        [.call .connect, .answer (.connected false), .call .connect] = some σ ∧
      σ.ended = [.exception (iosFailure "Unable to Connect()")] ∧ σ.conn.getDescriptor = -1 ∧
      ¬ KeepsSocket 3 σ := by
  constructor
  · exact ⟨_, rfl, rfl, ⟨_, List.mem_append_right _ List.mem_cons_self, rfl⟩,
      fun h => absurd h.descriptor (by decide)⟩
  · exact ⟨_, rfl, rfl, rfl, fun h => absurd h.descriptor (by decide)⟩

end Session

end Connection

end Kcmsg
