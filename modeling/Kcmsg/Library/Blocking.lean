import Mathlib.Tactic.Common

/-!
# Calls that wait for an environment

A function that makes system calls runs until it has to ask something, waits, and goes on with
the answer. `Progress` says where such a call stands and `resume` is its body between two
questions. The environment answers as it likes within what it allows, and its own state moves
with every answer; `Run` is any finite exchange between the two.

One rule proves things about all of them: what holds at the start and survives every allowed
answer holds wherever an exchange has got to (`Run.preserves`). Where only the answers matter, a
call is followed through a list of them (`Progress.after`); a call in which every answer of some
kind makes a rank smaller gets no more of those than its rank (`Progress.countP_le`).
-/

/-- Where a call stands: waiting for an answer, or returned. -/
inductive Progress (σ α : Type) where
  | waiting (state : σ)
  | returned (value : α) (state : σ)
  deriving DecidableEq

/-- The same call with another result. -/
def Progress.map {σ α β : Type} (f : α → β) : Progress σ α → Progress σ β
  | waiting s => waiting s
  | returned value s => returned (f value) s

/-- The other side: which answers it may give to a call waiting in a state, and what an answer
does to its own state. -/
structure Environment (E σ A : Type) where
  Allows : E → σ → A → Prop
  next : E → σ → A → E

/-- A finite exchange, from one pair of states to another. -/
inductive Run {E σ A α : Type} (resume : σ → A → Progress σ α) (env : Environment E σ A) :
    Progress σ α → E → Progress σ α → E → Prop where
  | refl (p : Progress σ α) (e : E) : Run resume env p e p e
  | answer {s : σ} {e : E} (a : A) {p' : Progress σ α} {e' : E} (hallows : env.Allows e s a)
      (hrest : Run resume env (resume s a) (env.next e s a) p' e') :
      Run resume env (.waiting s) e p' e'

namespace Run

variable {E σ A α : Type} {resume : σ → A → Progress σ α} {env : Environment E σ A}
  {p p' : Progress σ α} {e e' : E}

/-- The invariant rule. -/
theorem preserves (Inv : Progress σ α → E → Prop)
    (hstep : ∀ s e a, Inv (.waiting s) e → env.Allows e s a → Inv (resume s a) (env.next e s a))
    (hrun : Run resume env p e p' e') (hinv : Inv p e) : Inv p' e' := by
  induction hrun with
  | refl p e => exact hinv
  | answer a hallows _ ih => exact ih (hstep _ _ a hinv hallows)

/-- An exchange of one answer. -/
theorem single {s : σ} {e : E} {a : A} (hallows : env.Allows e s a) :
    Run resume env (.waiting s) e (resume s a) (env.next e s a) :=
  .answer a hallows (.refl _ _)

end Run

/-! ## Lists of answers -/

namespace Progress

variable {σ A α : Type}

/-- Where a call stands after some answers. -/
def after (resume : σ → A → Progress σ α) : Progress σ α → List A → Progress σ α
  | p, [] => p
  | waiting s, a :: as => after resume (resume s a) as
  | returned value s, _ :: _ => returned value s

/-- Each of the answers is given to a call that waits, and is allowed there. -/
def Takes (resume : σ → A → Progress σ α) (allows : σ → A → Prop) :
    Progress σ α → List A → Prop
  | _, [] => True
  | waiting s, a :: as => allows s a ∧ Takes resume allows (resume s a) as
  | returned _ _, _ :: _ => False

variable {resume : σ → A → Progress σ α} {allows : σ → A → Prop}

/-- A call that has returned takes no more answers. -/
theorem eq_nil_of_takes {value : α} {s : σ} {answers : List A}
    (h : (returned value s).Takes resume allows answers) : answers = [] := by
  cases answers with
  | nil => rfl
  | cons a as => exact h.elim

/-- The ranking rule. -/
theorem countP_le (Inv : σ → Prop) (rank : σ → Nat) (counts : A → Bool)
    (hpos : ∀ s, Inv s → 0 < rank s)
    (hstep : ∀ s a s', Inv s → allows s a → resume s a = waiting s' →
      Inv s' ∧ rank s' + (if counts a then 1 else 0) ≤ rank s)
    {p : Progress σ α} {n : Nat} (hp : ∀ s, p = waiting s → Inv s ∧ rank s ≤ n)
    {answers : List A} (h : p.Takes resume allows answers) : answers.countP counts ≤ n := by
  induction answers generalizing p n with
  | nil => exact Nat.zero_le n
  | cons a as ih =>
      cases p with
      | returned value s => exact h.elim
      | waiting s =>
          obtain ⟨hallows, hrest⟩ := h
          obtain ⟨hinv, hrank⟩ := hp s rfl
          have hone := hpos s hinv
          have hlater : as.countP counts ≤ n - if counts a then 1 else 0 := by
            refine ih (fun s' hs' => ?_) hrest
            obtain ⟨hinv', hsmaller⟩ := hstep s a s' hinv hallows hs'
            exact ⟨hinv', by omega⟩
          rw [List.countP_cons]
          by_cases hcounts : counts a = true
          · rw [if_pos hcounts] at hlater ⊢
            omega
          · rw [if_neg hcounts] at hlater ⊢
            omega

end Progress
