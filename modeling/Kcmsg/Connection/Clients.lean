import Kcmsg.Connection.Basic

/-!
# The list of clients

`Connection` documents that each successful `Accept` adds a storage to the end of `clients`. The
body fills a storage of its own, `cliaddr`, and returns: `true` after a success, `errno` as a
`bool` after a failure. So a run of calls leaves the connection as it was (`run_acceptAll`), and
the documented run is the one in which there is nothing to record and nothing to report.
-/

namespace Kcmsg

namespace Connection

/-- What the kernel answers to `accept`: a descriptor with the address of the peer and its length,
or a failure, which leaves its reason in `errno`. -/
inductive AcceptAnswer where
  | accepted (fd : Nat) (peer : List UInt8) (length : UInt32)
  | failed (errno : Int)

namespace AcceptAnswer

/-- The result of the call. -/
def res : AcceptAnswer → Int
  | accepted fd _ _ => fd
  | failed _ => -1

/-- `errno` after the call; a success does not set it, and nobody looks at it then. -/
def errno : AcceptAnswer → Int
  | accepted _ _ _ => 0
  | failed errno => errno

def succeeded : AcceptAnswer → Bool
  | accepted _ _ _ => true
  | failed _ => false

/-- `cliaddr` after a successful call. The kernel writes as much of the address as the length it
was handed allows, and the length the address really has. -/
def cliaddr (family : Int) : AcceptAnswer → Option ConnectionStorage
  | accepted fd peer length =>
      some ⟨fd, ⟨length, copyAddr ConnectionStorage.zero.addr.addr
        (peer.take (addrLength family).toNat), 0⟩⟩
  | failed _ => none

end AcceptAnswer

/-- A call of `Accept`, answered. -/
def acceptAnswered (a : AcceptAnswer) : Program Connection Bool := accept a.res a.errno

/-- A sequence of calls, and what each of them returned. -/
def acceptAll : List AcceptAnswer → Program Connection (List Bool)
  | [] => return []
  | a :: as => do
    let result ← acceptAnswered a
    let results ← acceptAll as
    return result :: results

/-- What is documented of a sequence of calls: the results tell the successes from the failures,
every success has added its storage to the clients, and a failure has changed nothing. -/
structure RecordsClients (c : Connection) (answers : List AcceptAnswer) : Prop where
  recorded : ∃ last, (acceptAll answers).run c =
      .returns (answers.map AcceptAnswer.succeeded) last ∧
    last.clients = c.clients ++ answers.filterMap (AcceptAnswer.cliaddr c.family)
  failure : ∀ before errno later, answers = before ++ .failed errno :: later →
    ∀ results c₁, (acceptAll before).run c = .returns results c₁ →
      ∃ result c₂, (acceptAnswered (.failed errno)).run c₁ = .returns result c₂ ∧
        c₂.clients = c₁.clients ∧ c₂.conn = c₁.conn

/-! ## What the calls do -/

/-- What a call returns. -/
def AcceptAnswer.returned : AcceptAnswer → Bool
  | accepted _ _ _ => true
  | failed errno => errno != 0

theorem run_acceptAnswered (a : AcceptAnswer) (c : Connection) :
    (acceptAnswered a).run c = .returns a.returned c := by
  unfold acceptAnswered accept
  cases a with
  | accepted fd peer length =>
      have hres : ¬ (AcceptAnswer.accepted fd peer length).res < 0 := by
        simp [AcceptAnswer.res]
      rw [if_neg hres]
      rfl
  | failed errno =>
      have hres : (AcceptAnswer.failed errno).res < 0 := by simp [AcceptAnswer.res]
      rw [if_pos hres]
      rfl

/-- A run of calls changes nothing. -/
theorem run_acceptAll (answers : List AcceptAnswer) (c : Connection) :
    (acceptAll answers).run c = .returns (answers.map AcceptAnswer.returned) c := by
  induction answers with
  | nil => rfl
  | cons a as ih =>
      unfold acceptAll
      rw [Program.run_bind_returns _ (run_acceptAnswered a c), Program.run_bind_returns _ ih]
      rfl

theorem returned_eq_succeeded_iff (a : AcceptAnswer) :
    a.returned = a.succeeded ∧ (∀ family, a.cliaddr family = none) ↔ a = .failed 0 := by
  constructor
  · rintro ⟨hreturned, hnone⟩
    cases a with
    | accepted fd peer length => exact absurd (hnone 0) (Option.some_ne_none _)
    | failed errno =>
        have hzero : errno = 0 := by simpa [AcceptAnswer.returned, AcceptAnswer.succeeded]
          using hreturned
        rw [hzero]
  · rintro rfl
    exact ⟨rfl, fun _ => rfl⟩

/-- **The clients are recorded exactly when there are none**: in the sequences in which every call
fails and leaves `errno` at zero. -/
theorem recordsClients_iff (c : Connection) (answers : List AcceptAnswer) :
    RecordsClients c answers ↔ ∀ a ∈ answers, a = .failed 0 := by
  constructor
  · rintro ⟨⟨last, hrun, hclients⟩, -⟩ a ha
    rw [run_acceptAll] at hrun
    obtain ⟨hresults, hlast⟩ := Outcome.returns.inj hrun
    rw [← hlast] at hclients
    have hnone : answers.filterMap (AcceptAnswer.cliaddr c.family) = [] :=
      List.self_eq_append_right.mp hclients
    apply (returned_eq_succeeded_iff a).mp
    refine ⟨List.map_inj_left.mp hresults a ha, fun family => ?_⟩
    have hunrecorded := List.filterMap_eq_nil_iff.mp hnone a ha
    cases a with
    | accepted fd peer length => cases hunrecorded
    | failed errno => rfl
  · intro hall
    refine ⟨⟨c, ?_, ?_⟩, fun before errno later _ results c₁ _ => ?_⟩
    · rw [run_acceptAll]
      congr 1
      exact List.map_congr_left fun a ha => ((returned_eq_succeeded_iff a).mpr (hall a ha)).1
    · have hnone : answers.filterMap (AcceptAnswer.cliaddr c.family) = [] :=
        List.filterMap_eq_nil_iff.mpr fun a ha =>
          ((returned_eq_succeeded_iff a).mpr (hall a ha)).2 c.family
      rw [hnone, List.append_nil]
    · exact ⟨_, c₁, run_acceptAnswered _ c₁, rfl, rfl⟩

/-- A server that has no client yet. -/
def listener : Connection :=
  ⟨5, afInet, sockStream, ipprotoTcp, { ConnectionStorage.zero with fd := 3 }, []⟩

/-- The first client is accepted on descriptor `4` and is not recorded; a call that is interrupted
(`EINTR` is `4`) returns `true`. -/
theorem not_recordsClients_listener :
    ¬ RecordsClients listener [.accepted 4 [2, 0, 0x1F, 0x90, 127, 0, 0, 1] 16] ∧
      ¬ RecordsClients listener [.failed 4] := by
  constructor
  · rintro ⟨⟨last, hrun, hclients⟩, -⟩
    rw [run_acceptAll] at hrun
    cases hrun
    cases hclients
  · rintro ⟨⟨last, hrun, -⟩, -⟩
    rw [run_acceptAll] at hrun
    exact absurd (Outcome.returns.inj hrun).1 (by decide)

end Connection

end Kcmsg
