import Kcmsg.Connection.Descriptor
import Kcmsg.Library.Slots

/-!
# Connections in a process

The connections of a process share its descriptors. The kernel gives out the lowest one that is
free, to a constructor for the socket and to `Accept` for the client, which forgets it. A
descriptor is only ever closed by the program, which can close what `getDescriptor` returns and
knows of no other. After a `Connect` that is zero, the standard input, or `-1`.

So the socket of a connection that has called `Connect` stays open for good, and so does every
client; and descriptor zero is one place for all connections that have connected. If the program
closes one of these, the next socket or client of the process comes to be in that place, and the
calls of the others are made on it. To a program the connections are a `Pool`
(`Sockets.reaches_pool`): a connection has a socket of its own, or what is in the shared place, or
nothing.
-/

namespace Kcmsg

/-- What a descriptor stands for. -/
inductive OpenFile where
  | inherited (fd : Nat)
  /-- The socket that the constructor of connection `i` has opened. -/
  | socket (i : Nat)
  /-- A client that connection `i` has accepted. -/
  | client (i : Nat)
  deriving DecidableEq

namespace Connection

/-- What `close(sockfd)` does to the descriptors; its result is dropped. -/
def close (sockfd : Int) (slots : Slots OpenFile) : Slots OpenFile := slots.free sockfd

end Connection

/-- What a program does with connections, which are numbered in the order of their construction.
An answer to `accept` is a call of its own, because it is the kernel that finds the descriptor. The
program closes a connection by `Close(getDescriptor())` and destroys it then. -/
inductive SocketCall where
  | construct (fam t p : Int) (maxthreads : Int32) (mem : Mem) (granted : Bool)
  | event (i : Nat) (e : Connection.Event)
  | accepted (i : Nat) (granted : Bool) (errno : Int)
  | shutdown (i : Nat) (howto : Int)
  | close (i : Nat)
  | destroy (i : Nat)

/-- The descriptors of a process and its connections, each with buffers of its own, `none` where
one has been destroyed. -/
structure Sockets where
  slots : Slots OpenFile
  objects : List (Option Connection.Session)

namespace Sockets

/-- A process that may have as many descriptors as there are entries, and was started with those
open that say so. -/
def start (inherited : List Bool) : Sockets where
  slots := ⟨inherited.mapIdx fun fd isOpen => if isOpen then some (.inherited fd) else none⟩
  objects := []

def object (s : Sockets) (i : Nat) : Option Connection.Session := s.objects[i]?.join

/-- What each of the calls that a connection has made in a step reaches. -/
def reports (slots : Slots OpenFile) (σ σ' : Connection.Session) : List (Option OpenFile) :=
  (σ'.issued.drop σ.issued.length).map fun c => slots.content c.fd

variable (host : ByteOrder)

def step (s : Sockets) : SocketCall → Option (List (Option OpenFile) × Sockets)
  | .construct fam t p maxthreads mem granted =>
      let made := s.slots.take (if granted then some (.socket s.objects.length) else none)
      (Connection.new fam t p maxthreads made.1).map fun c =>
        ([], ⟨made.2, s.objects ++ [some (.start c mem)]⟩)
  | .event _ (.answer (.accepted _ _)) => none
  | .event i e => (s.object i).bind fun σ => (σ.step host e).map fun σ' =>
      (reports s.slots σ σ', ⟨s.slots, s.objects.set i (some σ')⟩)
  | .accepted i granted errno => (s.object i).bind fun σ =>
      let made := s.slots.take (if granted then some (.client i) else none)
      (σ.step host (.answer (.accepted made.1 errno))).map fun σ' =>
        (reports made.2 σ σ', ⟨made.2, s.objects.set i (some σ')⟩)
  -- the descriptor stays open, whatever becomes of its connection
  | .shutdown i _ => (s.object i).map fun σ => ([s.slots.content σ.conn.getDescriptor], s)
  | .close i => (s.object i).bind fun σ =>
      match σ.pending with
      | none => some ([s.slots.content σ.conn.getDescriptor],
          ⟨Connection.close σ.conn.getDescriptor s.slots, s.objects.set i none⟩)
      | some _ => none
  -- the destructor does nothing
  | .destroy i => (s.object i).bind fun σ =>
      match σ.pending with
      | none => some ([], ⟨s.slots, s.objects.set i none⟩)
      | some _ => none

def runAll (s : Sockets) :
    List SocketCall → Option (List (List (Option OpenFile)) × Sockets)
  | [] => some ([], s)
  | c :: cs => (step host s c).bind fun r =>
      (runAll r.2 cs).map fun rs => (r.1 :: rs.1, rs.2)

end Sockets

/-! ## What the calls are to a pool -/

namespace SocketCall

/-- What the call is to the descriptors, where there have been `k` connections. -/
def slotCall (k : Nat) : SocketCall → Option (SlotCall OpenFile)
  | construct _ _ _ _ _ granted => some (.acquire (if granted then some (.socket k) else none))
  | event i (.answer (.connected ok)) => some (.assign i ok)
  | event _ _ => none
  | accepted i granted _ => some (.fill (if granted then some (.client i) else none))
  | shutdown _ _ => none
  | close i => some (.release i)
  | destroy i => some (.drop i)

def after (p : Pool OpenFile) (c : SocketCall) : Pool OpenFile :=
  match c.slotCall p.holds.length with
  | some d => p.step d
  | none => p

/-- The file that the system calls of a call reach. -/
def reached (p : Pool OpenFile) : SocketCall → Option OpenFile
  | construct _ _ _ _ _ _ => none
  | event i e => (after p (event i e)).reached i
  | accepted i granted errno => (after p (accepted i granted errno)).reached i
  | shutdown i _ => p.reached i
  | close i => p.reached i
  | destroy _ => none

def reachedAll (p : Pool OpenFile) : List SocketCall → List (Option OpenFile)
  | [] => []
  | c :: cs => c.reached p :: reachedAll (c.after p) cs

def afterAll (p : Pool OpenFile) (calls : List SocketCall) : Pool OpenFile := calls.foldl after p

end SocketCall

/-! ## Connections as holders of descriptors -/

namespace Sockets

variable {host : ByteOrder} {s s' : Sockets} {p : Pool OpenFile} {i : Nat}
  {report : List (Option OpenFile)} {σ σ' : Connection.Session}

/-- The descriptors of the connections. -/
def holders (s : Sockets) : Holders OpenFile :=
  ⟨s.slots, s.objects.map (Option.map fun σ => σ.conn.getDescriptor)⟩

theorem number_holders (s : Sockets) (i : Nat) :
    s.holders.number i = (s.object i).map fun σ => σ.conn.getDescriptor := by
  rw [Holders.number, holders, List.getElem?_map, object]
  cases s.objects[i]? <;> rfl

theorem length_holders (s : Sockets) : s.holders.numbers.length = s.objects.length :=
  List.length_map ..

theorem holders_concat (s : Sockets) (slots : Slots OpenFile) {c : Connection} (mem : Mem)
    {fd : Int} (hc : c.getDescriptor = fd) :
    holders ⟨slots, s.objects ++ [some (.start c mem)]⟩ =
      ⟨slots, s.holders.numbers ++ [some fd]⟩ := by
  rw [holders, List.map_append, ← hc]
  rfl

theorem holders_set (s : Sockets) (slots : Slots OpenFile) (i : Nat) (σ' : Connection.Session) :
    holders ⟨slots, s.objects.set i (some σ')⟩ =
      ⟨slots, s.holders.numbers.set i (some σ'.conn.conn.fd)⟩ := by
  rw [holders, List.map_set]
  rfl

theorem holders_erase (s : Sockets) (slots : Slots OpenFile) (i : Nat) :
    holders ⟨slots, s.objects.set i none⟩ = ⟨slots, s.holders.numbers.set i none⟩ := by
  rw [holders, List.map_set]
  rfl

theorem numbers_set_self (hσ : s.object i = some σ) :
    s.holders.numbers.set i (some σ.conn.conn.fd) = s.holders.numbers := by
  have hnumber : s.holders.number i = some σ.conn.conn.fd := by
    rw [number_holders, hσ]
    rfl
  obtain ⟨hlt, hget⟩ := List.getElem?_eq_some_iff.mp (Option.join_eq_some_iff.mp hnumber)
  rw [← hget, List.set_getElem_self hlt]

/-- The calls that a connection makes in a step are all made on the descriptor it then has. -/
theorem reports_eq {fd : Int} (h : Connection.Session.MovesOn fd σ σ') (slots : Slots OpenFile) :
    ∀ f ∈ reports slots σ σ', f = slots.content σ'.conn.conn.fd := by
  obtain ⟨hfd, calls, hissued, hcalls⟩ := h
  intro f hf
  rw [reports, hissued, List.drop_left] at hf
  obtain ⟨c, hc, rfl⟩ := List.mem_map.mp hf
  rw [hcalls c hc, hfd]

theorem descriptor_new {fam t q fd : Int} {maxthreads : Int32} {c : Connection}
    (h : Connection.new fam t q maxthreads fd = some c) : c.getDescriptor = fd :=
  (Connection.Session.keepsSocket_start h fun _ => 0).descriptor

theorem content_of_object (hp : p.Shows s.holders) (hσ : s.object i = some σ) :
    s.slots.content σ.conn.getDescriptor = p.reached i := by
  rw [← hp.reached, Holders.reached, number_holders, hσ]
  rfl

/-- A step of a connection, where the slots and the pool have become what they are by then. -/
theorem moved {slots : Slots OpenFile} {fd : Int} (hσ : s.object i = some σ)
    (h : Connection.Session.MovesOn fd σ σ')
    (hp : p.Shows ⟨slots, s.holders.numbers.set i (some fd)⟩) :
    p.Shows (holders ⟨slots, s.objects.set i (some σ')⟩) ∧
      ∀ f ∈ reports slots σ σ', f = p.reached i := by
  have hfd : σ'.conn.conn.fd = fd := h.1
  have hlt : i < s.holders.numbers.length := by
    rw [length_holders]
    exact lt_of_getElem?_join hσ
  refine ⟨by rwa [holders_set, hfd], fun f hf => ?_⟩
  rw [reports_eq h slots f hf, hfd, ← hp.reached, Holders.reached, Holders.number,
    List.getElem?_set_self hlt]
  rfl

/-- An event that puts nothing into the descriptor. -/
theorem unmoved {e : Connection.Event} (hσ : s.object i = some σ) (hstep : σ.step host e = some σ')
    (hassigned : Connection.Session.assigned e = none) {slots : Slots OpenFile}
    (hp : p.Shows ⟨slots, s.holders.numbers⟩) :
    p.Shows (holders ⟨slots, s.objects.set i (some σ')⟩) ∧
      ∀ f ∈ reports slots σ σ', f = p.reached i := by
  have hmoves := Connection.Session.step_spec hstep
  rw [hassigned, Option.getD_none] at hmoves
  refine moved hσ hmoves ?_
  rwa [numbers_set_self hσ]

/-- **The step lemma.** -/
theorem shows_step (hp : p.Shows s.holders) {c : SocketCall}
    (h : s.step host c = some (report, s')) :
    (c.after p).Shows s'.holders ∧ ∀ f ∈ report, f = c.reached p := by
  cases c with
  | construct fam t q maxthreads mem granted =>
      obtain ⟨c, hnew, heq⟩ := Option.map_eq_some_iff.mp h
      cases heq
      have hlength : p.holds.length = s.objects.length := by rw [← hp.length, length_holders]
      refine ⟨?_, fun f hf => absurd hf List.not_mem_nil⟩
      rw [holders_concat s _ mem (descriptor_new hnew), SocketCall.after, SocketCall.slotCall,
        hlength]
      exact hp.step (.acquire _)
  | event i e =>
      cases e with
      | call op =>
          obtain ⟨σ, hσ, h⟩ := Option.bind_eq_some_iff.mp h
          obtain ⟨σ', hstep, heq⟩ := Option.map_eq_some_iff.mp h
          cases heq
          exact unmoved hσ hstep rfl hp
      | answer a =>
          cases a with
          | accepted res errno => cases h
          | connected ok =>
              obtain ⟨σ, hσ, h⟩ := Option.bind_eq_some_iff.mp h
              obtain ⟨σ', hstep, heq⟩ := Option.map_eq_some_iff.mp h
              cases heq
              have hassign := hp.step (.assign i ok)
              rw [Holders.step, number_holders, hσ, Option.map_some] at hassign
              exact moved hσ (Connection.Session.step_spec hstep) hassign
          | resolved | bound | listening | read | wrote =>
              obtain ⟨σ, hσ, h⟩ := Option.bind_eq_some_iff.mp h
              obtain ⟨σ', hstep, heq⟩ := Option.map_eq_some_iff.mp h
              cases heq
              exact unmoved hσ hstep rfl hp
  | accepted i granted errno =>
      obtain ⟨σ, hσ, h⟩ := Option.bind_eq_some_iff.mp h
      obtain ⟨σ', hstep, heq⟩ := Option.map_eq_some_iff.mp h
      cases heq
      exact unmoved hσ hstep rfl (hp.step (.fill _))
  | shutdown i howto =>
      obtain ⟨σ, hσ, heq⟩ := Option.map_eq_some_iff.mp h
      cases heq
      refine ⟨hp, fun f hf => ?_⟩
      rw [List.mem_singleton.mp hf]
      exact content_of_object hp hσ
  | close i =>
      obtain ⟨σ, hσ, h⟩ := Option.bind_eq_some_iff.mp h
      have hrelease := hp.step (.release i)
      rw [Holders.step, number_holders, hσ, Option.map_some] at hrelease
      cases hpending : σ.pending with
      | some _ => simp [hpending] at h
      | none =>
          simp only [hpending] at h
          cases h
          refine ⟨by rwa [holders_erase], fun f hf => ?_⟩
          rw [List.mem_singleton.mp hf]
          exact content_of_object hp hσ
  | destroy i =>
      obtain ⟨σ, hσ, h⟩ := Option.bind_eq_some_iff.mp h
      have hdrop := hp.step (.drop i)
      rw [Holders.step, number_holders, hσ, Option.map_some] at hdrop
      cases hpending : σ.pending with
      | some _ => simp [hpending] at h
      | none =>
          simp only [hpending] at h
          cases h
          exact ⟨by rwa [holders_erase], fun f hf => absurd hf List.not_mem_nil⟩

/-- The run lemma. -/
theorem shows_runAll (hp : p.Shows s.holders) {calls : List SocketCall}
    {reports : List (List (Option OpenFile))} (h : s.runAll host calls = some (reports, s')) :
    (SocketCall.afterAll p calls).Shows s'.holders ∧
      List.Forall₂ (fun report file => ∀ f ∈ report, f = file) reports
        (SocketCall.reachedAll p calls) := by
  induction calls generalizing s p reports with
  | nil =>
      cases h
      exact ⟨hp, .nil⟩
  | cons c cs ih =>
      obtain ⟨⟨report, s₁⟩, hstep, h⟩ := Option.bind_eq_some_iff.mp h
      obtain ⟨⟨reports', s₂⟩, hrest, heq⟩ := Option.map_eq_some_iff.mp h
      cases heq
      obtain ⟨hfirst, hreport⟩ := shows_step hp hstep
      obtain ⟨hlast, hreports⟩ := ih hfirst hrest
      exact ⟨hlast, .cons hreport hreports⟩

end Sockets

/-! ## What a pool of connections keeps -/

namespace SocketCall

variable {p : Pool OpenFile}

/-- What a connection has of its own is its socket. -/
def OwnSockets (p : Pool OpenFile) : Prop := ∀ i f, p.hold i = some (.own f) → f = .socket i

theorem OwnSockets.concat (h : OwnSockets p) {x : Hold OpenFile}
    (hx : ∀ f, x = .own f → f = .socket p.holds.length) (shared : Option OpenFile) :
    OwnSockets ⟨p.size, shared, p.kept, p.holds ++ [some x]⟩ := by
  intro i f hi
  have hhold : Pool.hold ⟨p.size, shared, p.kept, p.holds ++ [some x]⟩ i =
      if i = p.holds.length then some x else p.hold i := getElem?_join_concat _ _ i
  rw [hhold] at hi
  by_cases heq : i = p.holds.length
  · rw [if_pos heq, Option.some.injEq] at hi
    rw [heq]
    exact hx f hi
  · rw [if_neg heq] at hi
    exact h i f hi

theorem OwnSockets.set (h : OwnSockets p) {o : Option (Hold OpenFile)}
    (ho : o.any Hold.isOwn = false) (i : Nat) (shared : Option OpenFile) (kept : Nat) :
    OwnSockets ⟨p.size, shared, kept, p.holds.set i o⟩ := by
  intro j f hj
  by_cases hlt : i < p.holds.length
  · have hhold : Pool.hold ⟨p.size, shared, kept, p.holds.set i o⟩ j =
        if j = i then o else p.hold j := getElem?_join_set hlt o j
    rw [hhold] at hj
    by_cases heq : j = i
    · rw [if_pos heq] at hj
      rw [hj] at ho
      cases ho
    · rw [if_neg heq] at hj
      exact h j f hj
  · have hsame : p.holds.set i o = p.holds := List.set_eq_of_length_le (Nat.le_of_not_lt hlt)
    rw [hsame] at hj
    exact h j f hj

theorem OwnSockets.step (h : OwnSockets p) {d : SlotCall OpenFile}
    (hd : ∀ f, d = .acquire (some f) → f = .socket p.holds.length) : OwnSockets (p.step d) := by
  cases d with
  | acquire a =>
      have hadmitted (f : OpenFile) (hf : p.admitted a = some f) : a = some f := by
        unfold Pool.admitted at hf
        split at hf
        · exact hf
        · cases hf
      rw [Pool.step]
      split
      · exact h.concat (fun f hf => by cases hf) _
      · exact h.concat (fun f hf => by cases hf) _
      · next b _ hb _ =>
          refine h.concat (fun f hf => ?_) _
          cases hf
          exact hd _ (by rw [hadmitted _ hb])
  | fill a =>
      rw [Pool.step]
      split <;> exact h
  | assign i zero =>
      rw [Pool.step]
      split
      · cases zero <;> exact h.set rfl i _ _
      · exact h
  | release i | drop i =>
      rw [Pool.step]
      split
      · exact h.set rfl i _ _
      · exact h

theorem OwnSockets.after (h : OwnSockets p) (c : SocketCall) : OwnSockets (c.after p) := by
  rw [SocketCall.after]
  cases hd : c.slotCall p.holds.length with
  | none => exact h
  | some d =>
      refine h.step fun f hf => ?_
      subst hf
      unfold SocketCall.slotCall at hd
      split at hd
      · next granted =>
          cases granted with
          | true =>
              cases hd
              rfl
          | false => cases hd
      all_goals cases hd

theorem OwnSockets.afterAll (h : OwnSockets p) (calls : List SocketCall) :
    OwnSockets (afterAll p calls) := by
  induction calls generalizing p with
  | nil => exact h
  | cons c cs ih => exact ih (h.after c)

theorem kept_le_afterAll (p : Pool OpenFile) (calls : List SocketCall) :
    p.kept ≤ (afterAll p calls).kept := by
  induction calls generalizing p with
  | nil => exact Nat.le_refl _
  | cons c cs ih =>
      refine Nat.le_trans ?_ (ih (c.after p))
      rw [after]
      cases c.slotCall p.holds.length with
      | none => exact Nat.le_refl _
      | some d => exact p.kept_le_step d

end SocketCall

namespace Sockets

variable {host : ByteOrder} {s : Sockets}

/-- **Connections are a pool.** In every run of a program with connections, whatever the kernel
answers, all system calls reach the files that the pool says they do, what a connection has of its
own is its socket, as many descriptors are open as the pool has in use, and those that were let go
of at any time are still open at the end. -/
theorem reaches_pool (inherited : List Bool) {calls : List SocketCall}
    {reports : List (List (Option OpenFile))}
    (hrun : (start inherited).runAll host calls = some (reports, s)) :
    List.Forall₂ (fun report file => ∀ f ∈ report, f = file) reports
        (SocketCall.reachedAll (start inherited).slots.pool calls) ∧
      SocketCall.OwnSockets (SocketCall.afterAll (start inherited).slots.pool calls) ∧
      s.slots.used = (SocketCall.afterAll (start inherited).slots.pool calls).inUse ∧
      ∀ pre, pre <+: calls →
        (SocketCall.afterAll (start inherited).slots.pool pre).kept ≤ s.slots.used := by
  obtain ⟨hshows, hreports⟩ := shows_runAll (Pool.Shows.pool (start inherited).slots) hrun
  have hnone : SocketCall.OwnSockets (start inherited).slots.pool := by
    intro i f hi
    cases hi
  refine ⟨hreports, hnone.afterAll calls, hshows.used, ?_⟩
  rintro pre ⟨later, rfl⟩
  have hkept := SocketCall.kept_le_afterAll
    (SocketCall.afterAll (start inherited).slots.pool pre) later
  have hused : s.slots.used = _ := hshows.used
  rw [SocketCall.afterAll, List.foldl_append, ← SocketCall.afterAll, ← SocketCall.afterAll,
    Pool.inUse] at hused
  omega

/-- Two clients connect, and one of them is closed: what the other one writes then goes to the
socket of a connection that was made in the meantime. -/
def sampleClients : List SocketCall :=
  [.construct afInet sockStream ipprotoTcp 10 (fun _ => 0) true,
    .construct afInet sockStream ipprotoTcp 10 (fun _ => 0) true,
    .event 0 (.call .connect), .event 0 (.answer (.connected true)),
    .event 1 (.call .connect), .event 1 (.answer (.connected true)), .close 0,
    .construct afInet sockStream ipprotoTcp 10 (fun _ => 0) true,
    .event 1 (.call (.writen 0x1000 1))]

/-- Eight descriptors, of which the first three are open. -/
def sampleTable : List Bool := [true, true, true, false, false, false, false, false]

theorem reaches_pool_sample : ∃ reports s,
    (start sampleTable).runAll .little sampleClients = some (reports, s) ∧
      List.Forall₂ (fun report file => ∀ f ∈ report, f = file) reports
        [none, none, some (.socket 0), some (.inherited 0), some (.socket 1), some (.inherited 0),
          some (.inherited 0), none, some (.socket 2)] ∧ s.slots.used = 5 := by
  have hreturns : ((start sampleTable).runAll .little sampleClients).isSome := by decide
  obtain ⟨⟨reports, s⟩, hrun⟩ := Option.isSome_iff_exists.mp hreturns
  obtain ⟨hreports, -, hused, -⟩ := reaches_pool sampleTable hrun
  have hfiles : SocketCall.reachedAll (start sampleTable).slots.pool sampleClients =
      [none, none, some (.socket 0), some (.inherited 0), some (.socket 1), some (.inherited 0),
        some (.inherited 0), none, some (.socket 2)] := by
    decide
  rw [hfiles] at hreports
  exact ⟨reports, s, hrun, hreports, hused⟩

end Sockets

end Kcmsg
