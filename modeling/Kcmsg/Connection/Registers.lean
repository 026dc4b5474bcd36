import Kcmsg.Connection.Descriptor

/-!
# What a connection remembers

Of all that has happened to it a connection remembers three things: the descriptor, the address
that was resolved last and the length of the queue. `Registers` keeps just these, and is driven by
the events alone. A connection follows its registers through every run (`follows_runAll`), so that
the calls which set up a stream are known from the history of the connection: `bind` and `connect`
use the last address that was resolved, or zeros if there is none, and a `connect` is the only
thing that ever moves the descriptor.
-/

namespace Kcmsg

/-- Neither a read nor a write. -/
def SystemCall.isControl : SystemCall → Bool
  | .read _ _ _ => false
  | .write _ _ _ => false
  | _ => true

namespace Connection

/-- The descriptor, the answer of the last resolution that succeeded, and the queue length. -/
structure Registers where
  fd : Int
  resolved : Option Mem
  backlog : Int32

namespace Registers

/-- The address in use for a family: what was resolved, on a background of zeros. -/
def address (family : Int) (r : Registers) : AddrStorage where
  length := addrLength family
  addr :=
    match r.resolved with
    | none => Vector.replicate maxAddrLen 0
    | some aiAddr =>
        copyAddr (Vector.replicate maxAddrLen 0) (aiAddr.load 0 (addrLength family).toNat)
  port := 0

/-- What an event changes. -/
def after (r : Registers) : Event → Registers
  | .call (.setListenerQueueSize s) => { r with backlog := s.toInt32 }
  | .answer (.resolved res aiAddr) => if res = 0 then { r with resolved := some aiAddr } else r
  | .answer (.connected ok) => { r with fd := status ok }
  | _ => r

/-- The call to the kernel that an event leads to, reads and writes aside. -/
def control (family : Int) (r : Registers) : Event → Option SystemCall
  | .call .bind => some (.bind r.fd (r.address family))
  | .call .listen => some (.listen r.fd r.backlog)
  | .call .connect => some (.connect r.fd (r.address family))
  | .call .accept =>
      some (.accept r.fd { ConnectionStorage.zero.addr with length := addrLength family })
  | _ => none

/-- The calls a sequence of events leads to. -/
def controls (family : Int) (r : Registers) : List Event → List SystemCall
  | [] => []
  | e :: es => (r.control family e).toList ++ (r.after e).controls family es

def afterAll (r : Registers) (events : List Event) : Registers := events.foldl after r

/-- The connection that `c` has become. -/
def connection (r : Registers) (c : Connection) : Connection :=
  { c with
    listenMax := r.backlog
    conn := ⟨r.fd, r.address c.family⟩ }

/-- The registers of a connection that was just constructed. -/
def start (s : Int) (maxthreads : Int32) : Registers := ⟨s, none, maxthreads⟩

end Registers

/-! ## Steps -/

namespace Session

variable {host : ByteOrder} {c : Connection} {r : Registers} {σ σ' : Session}

/-- The connection of the session is what the registers say, and so far the calls were `calls`. -/
structure Follows (c : Connection) (r : Registers) (calls : List SystemCall) (σ : Session) :
    Prop where
  conn : σ.conn = r.connection c
  issued : σ.issued.filter SystemCall.isControl = calls

variable {calls : List SystemCall}

theorem Follows.append_nil (h : Follows c r calls σ) : Follows c r (calls ++ []) σ := by
  rwa [List.append_nil]

theorem Follows.finish (h : Follows c r calls σ) (e : Ending) : Follows c r calls (σ.finish e) :=
  ⟨h.conn, h.issued⟩

theorem Follows.waitIn (h : Follows c r calls σ) (p : Pending) :
    Follows c r (calls ++ (p.systemCall (r.connection c)).toList.filter SystemCall.isControl)
      (σ.waitIn p) := by
  refine ⟨h.conn, ?_⟩
  rw [Session.waitIn, List.filter_append, h.issued, h.conn]

/-- What is left of an operation changes the connection only. -/
theorem Follows.finishWith (h : Follows c r calls σ) {α : Type} {f : α → Ending}
    {x : Program Connection α} {r' : Registers}
    (hx : ∀ c' ∈ (x.run (r.connection c)).state, c' = r'.connection c)
    (hσ : σ.finishWith f x = some σ') : Follows c r' calls σ' := by
  unfold Session.finishWith at hσ
  rw [h.conn] at hσ
  cases hrun : x.run (r.connection c) with
  | returns _ c' | throws _ c' =>
      rw [hrun] at hσ hx
      cases hσ
      exact ⟨hx c' rfl, h.issued⟩
  | aborts | faults =>
      rw [hrun] at hσ
      cases hσ

theorem Follows.readAt (h : Follows c r calls σ) {p : ReadLoop → Pending}
    (hp : ∀ s c', (p s).systemCall c' = some (.read c'.conn.fd s.ptr s.nleft))
    (progress : Progress ReadLoop Nat) : Follows c r calls (σ.readAt p progress) := by
  cases progress with
  | waiting s =>
      show Follows c r calls (σ.waitIn (p s))
      simpa [hp, SystemCall.isControl] using h.waitIn (p s)
  | returned value s => exact ⟨h.conn, h.issued⟩

theorem Follows.writeAt (h : Follows c r calls σ) {p : WriteLoop → Pending}
    (hp : ∀ s c', (p s).systemCall c' = some (.write c'.conn.fd s.ptr s.nleft))
    (progress : Progress WriteLoop Nat) : Follows c r calls (σ.writeAt p progress) := by
  cases progress with
  | waiting s =>
      show Follows c r calls (σ.waitIn (p s))
      simpa [hp, SystemCall.isControl] using h.waitIn (p s)
  | returned value s => exact h.finish _

/-- The beginning of an operation. -/
theorem Follows.begin (h : Follows c r calls σ) {op : Operation}
    (hσ : σ.begin host op = some σ') :
    Follows c (r.after (.call op)) (calls ++ (r.control c.family (.call op)).toList) σ' := by
  cases op with
  | resolveHost =>
      cases hσ
      exact h.waitIn .resolving
  | resolveHostWide =>
      refine (h.finishWith (x := Connection.resolveHostWide) (fun c' hc' => ?_) hσ).append_nil
      cases hc'
      rfl
  | setListenerQueueSize s =>
      refine (h.finishWith (f := fun _ => .done) (x := Connection.setListenerQueueSize s)
        (fun c' hc' => ?_) hσ).append_nil
      cases hc'
      rfl
  | bind =>
      cases hσ
      exact h.waitIn .binding
  | listen =>
      cases hσ
      exact h.waitIn .listening
  | connect =>
      cases hσ
      exact h.waitIn .connecting
  | accept =>
      cases hσ
      exact h.waitIn .accepting
  | readn msg nbytes =>
      cases hσ
      exact (h.readAt (fun _ _ => rfl) _).append_nil
  | writen msg nbytes =>
      cases hσ
      exact (h.writeAt (fun _ _ => rfl) _).append_nil
  | readMessage msg nbytes =>
      cases hσ
      exact (h.readAt (fun _ _ => rfl) _).append_nil
  | writeMessage msg =>
      cases hσ
      exact (h.writeAt (fun _ _ => rfl) _).append_nil

/-! ## Answers -/

theorem getElem_copyAddr (addr : Vector UInt8 maxAddrLen) (src : List UInt8) (i : Nat)
    (hi : i < maxAddrLen) : (copyAddr addr src)[i] = (src[i]?).getD addr[i] := by
  simp [copyAddr]

/-- A copied prefix is covered by a copy of the same length. -/
theorem copyAddr_copyAddr (addr : Vector UInt8 maxAddrLen) {old new : List UInt8}
    (hlength : old.length = new.length) : copyAddr (copyAddr addr old) new = copyAddr addr new := by
  apply Vector.ext
  intro i hi
  rw [getElem_copyAddr, getElem_copyAddr, getElem_copyAddr]
  by_cases hnew : i < new.length
  · have hsome : new[i]? = some new[i] := List.getElem?_eq_getElem hnew
    rw [hsome, Option.getD_some, Option.getD_some]
  · have hold : old[i]? = none := List.getElem?_eq_none (by omega)
    rw [hold, Option.getD_none]

/-- A resolution replaces what was resolved before. -/
theorem copyAddr_address (family : Int) (r : Registers) (aiAddr : Mem) :
    copyAddr (r.address family).addr (aiAddr.load 0 (addrLength family).toNat) =
      (Registers.address family { r with resolved := some aiAddr }).addr := by
  unfold Registers.address
  cases r.resolved with
  | none => rfl
  | some old => exact copyAddr_copyAddr _ (by rw [Mem.length_load, Mem.length_load])

theorem storeAddress_connection (hfamily : c.family = afInet ∨ c.family = afInet6)
    (r : Registers) (aiAddr : Mem) :
    storeAddress aiAddr (r.connection c) =
      Registers.connection { r with resolved := some aiAddr } c := by
  have hcopy := copyAddr_address c.family r aiAddr
  have hsame : (r.connection c).family = c.family := rfl
  have hne : afInet6 ≠ afInet := by decide
  rcases hfamily with hfam | hfam
  · have hlength : addrLength c.family = 16 := if_pos hfam
    have htoNat : (addrLength c.family).toNat = 16 := by rw [hlength]; rfl
    rw [htoNat] at hcopy
    rw [storeAddress, hsame, if_pos hfam]
    simp only [Registers.connection, Registers.address, hlength] at hcopy ⊢
    rw [hcopy]
  · have hlength : addrLength c.family = 28 := by
      rw [addrLength, if_neg (by rw [hfam]; exact hne), if_pos hfam]
    have htoNat : (addrLength c.family).toNat = 28 := by rw [hlength]; rfl
    rw [htoNat] at hcopy
    rw [storeAddress, hsame, if_neg (by rw [hfam]; exact hne), if_pos hfam]
    simp only [Registers.connection, Registers.address, hlength] at hcopy ⊢
    rw [hcopy]

/-- The answer to the call an operation waits in. -/
theorem Follows.resume (hfamily : c.family = afInet ∨ c.family = afInet6)
    (h : Follows c r calls σ) {p : Pending} {a : Answer} (hσ : σ.resume host p a = some σ') :
    Follows c (r.after (.answer a)) calls σ' := by
  unfold Session.resume at hσ
  split at hσ
  · next res aiAddr =>
      refine h.finishWith (x := Connection.resolveHost res aiAddr) (fun c' hc' => ?_) hσ
      unfold Connection.resolveHost at hc'
      show c' = (if res = 0 then { r with resolved := some aiAddr } else r).connection c
      by_cases hres : res = 0
      · rw [if_neg (not_not.mpr hres)] at hc'
        rw [if_pos hres, ← storeAddress_connection hfamily r aiAddr]
        cases hc'
        rfl
      · rw [if_pos hres] at hc'
        rw [if_neg hres]
        cases hc'
        rfl
  · next ok =>
      refine h.finishWith (f := fun _ => .done) (x := Connection.bind (status ok))
        (fun c' hc' => ?_) hσ
      cases ok <;> (cases hc'; rfl)
  · next ok =>
      refine h.finishWith (f := fun _ => .done) (x := Connection.listen (status ok))
        (fun c' hc' => ?_) hσ
      cases ok <;> (cases hc'; rfl)
  · next ok =>
      refine h.finishWith (f := fun _ => .done) (x := Connection.connect (status ok))
        (fun c' hc' => ?_) hσ
      cases ok <;> (cases hc'; rfl)
  · next res errno =>
      refine h.finishWith (x := Connection.accept res errno) (fun c' hc' => ?_) hσ
      unfold Connection.accept at hc'
      split at hc' <;> (cases hc'; rfl)
  · cases hσ
    exact h.readAt (fun _ _ => rfl) _
  · cases hσ
    exact h.writeAt (fun _ _ => rfl) _
  · cases hσ
    exact h.readAt (fun _ _ => rfl) _
  · cases hσ
    exact h.writeAt (fun _ _ => rfl) _
  · cases hσ

/-- The step lemma. -/
theorem Follows.step (hfamily : c.family = afInet ∨ c.family = afInet6)
    (h : Follows c r calls σ) {e : Event} (hσ : σ.step host e = some σ') :
    Follows c (r.after e) (calls ++ (r.control c.family e).toList) σ' := by
  cases e with
  | call op =>
      cases hpending : σ.pending with
      | none =>
          rw [Session.step, hpending] at hσ
          exact h.begin hσ
      | some p =>
          rw [Session.step, hpending] at hσ
          cases hσ
  | answer a =>
      obtain ⟨p, -, hresume⟩ := Option.bind_eq_some_iff.mp hσ
      exact (h.resume hfamily hresume).append_nil

/-- The run lemma. -/
theorem Follows.runAll (hfamily : c.family = afInet ∨ c.family = afInet6)
    (h : Follows c r calls σ) {events : List Event} (hσ : σ.runAll host events = some σ') :
    Follows c (r.afterAll events) (calls ++ r.controls c.family events) σ' := by
  induction events generalizing σ r calls with
  | nil =>
      cases hσ
      exact h.append_nil
  | cons e es ih =>
      obtain ⟨σ₁, hstep, hrest⟩ := Option.bind_eq_some_iff.mp hσ
      have hall := ih (h.step hfamily hstep) hrest
      rw [List.append_assoc] at hall
      exact hall

theorem follows_start {fam t p s : Int} {maxthreads : Int32}
    (hnew : Connection.new fam t p maxthreads s = some c) (mem : Mem) :
    (c.family = afInet ∨ c.family = afInet6) ∧
      Follows c (Registers.start s maxthreads) [] (start c mem) := by
  unfold Connection.new at hnew
  split at hnew
  · next hvalid =>
      cases hnew
      exact ⟨hvalid.1, rfl, rfl⟩
  · cases hnew

/-- **A connection is what its history makes of it.** Whatever operations are called and however
the kernel answers, the connection is the constructed one with its registers driven by the events,
and the calls that it made to set up a stream are those the registers say. -/
theorem follows_runAll {fam t p s : Int} {maxthreads : Int32}
    (hnew : Connection.new fam t p maxthreads s = some c) {mem : Mem} {events : List Event}
    (hrun : (start c mem).runAll host events = some σ) :
    σ.conn = ((Registers.start s maxthreads).afterAll events).connection c ∧
      σ.issued.filter SystemCall.isControl =
        (Registers.start s maxthreads).controls c.family events := by
  obtain ⟨hfamily, hstart⟩ := follows_start hnew mem
  have hfollows := hstart.runAll hfamily hrun
  exact ⟨hfollows.conn, hfollows.issued⟩

/-- A server whose socket is 3 binds to the second of two addresses it has resolved. -/
theorem follows_runAll_sample : ∃ σ,
    (start sampleConnection fun _ => 0).runAll .little
      [.call .resolveHost, .answer (.resolved 0 fun _ => 1), .call .resolveHost,
        .answer (.resolved 0 fun _ => 2), .call .bind] = some σ ∧
      σ.issued.filter SystemCall.isControl =
        [.bind 3 (Registers.address afInet ⟨3, some fun _ => 2, 10⟩)] := by
  have hreturns : ((start sampleConnection fun _ => 0).runAll .little
      [.call .resolveHost, .answer (.resolved 0 fun _ => 1), .call .resolveHost,
        .answer (.resolved 0 fun _ => 2), .call .bind]).isSome := by
    decide
  obtain ⟨σ, hrun⟩ := Option.isSome_iff_exists.mp hreturns
  exact ⟨σ, hrun, (follows_runAll new_sampleConnection hrun).2⟩

end Session

end Connection

end Kcmsg
