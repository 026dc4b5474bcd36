import Mathlib.Data.List.Basic

/-!
# Programs that change a state and may stop

`Program σ α` is a function that runs on a state `σ` and ends in one of four ways: it returns a
value, it throws an exception, an assertion of its own fails, or it commits a memory error. A
thrown exception keeps the state reached so far, as it does in a language whose exceptions do not
undo anything; after the other two ways of stopping there is no state to go on from.

The lemmas evaluate a program step by step from what its first step does on the state at hand.
-/

/-- How a program ends. -/
inductive Outcome (σ α : Type) where
  | returns (value : α) (state : σ)
  | throws (what : String) (state : σ)
  | aborts
  | faults
  deriving DecidableEq

/-- The state that is left to go on from. -/
def Outcome.state {σ α : Type} : Outcome σ α → Option σ
  | returns _ s => some s
  | throws _ s => some s
  | aborts => none
  | faults => none

/-- The text of the exception, where there is one. -/
def Outcome.exception {σ α : Type} : Outcome σ α → Option String
  | throws what _ => some what
  | _ => none

/-- The same end, with another value returned. -/
def Outcome.map {σ α β : Type} (f : α → β) : Outcome σ α → Outcome σ β
  | returns a s => returns (f a) s
  | throws what s => throws what s
  | aborts => aborts
  | faults => faults

theorem Outcome.map_map {σ α β γ : Type} (f : α → β) (g : β → γ) (x : Outcome σ α) :
    (x.map f).map g = x.map fun a => g (f a) := by
  cases x <;> rfl

def Program (σ α : Type) : Type := σ → Outcome σ α

namespace Program

variable {σ α β : Type}

def run (x : Program σ α) (s : σ) : Outcome σ α := x s

/-- Run `x`, then what `f` makes of its value on the state `x` leaves. -/
protected def bind (x : Program σ α) (f : α → Program σ β) : Program σ β := fun s =>
  match x.run s with
  | .returns a s' => (f a).run s'
  | .throws what s' => .throws what s'
  | .aborts => .aborts
  | .faults => .faults

instance : Monad (Program σ) where
  pure a := fun s => .returns a s
  bind := Program.bind

def get : Program σ σ := fun s => .returns s s

def modify (f : σ → σ) : Program σ Unit := fun s => .returns () (f s)

def throw (what : String) : Program σ α := fun s => .throws what s

/-- Abort unless `condition` holds. -/
def assert (condition : Bool) : Program σ Unit := fun s =>
  if condition then .returns () s else .aborts

/-- Go on with a value that is there, fault where there is none. -/
def orFault (x : Option α) : Program σ α := fun s =>
  match x with
  | some a => .returns a s
  | none => .faults

@[simp] theorem run_pure (a : α) (s : σ) : (pure a : Program σ α).run s = .returns a s := rfl

@[simp] theorem run_modify (f : σ → σ) (s : σ) : (modify f).run s = .returns () (f s) := rfl

@[simp] theorem run_throw (what : String) (s : σ) :
    (throw what : Program σ α).run s = .throws what s := rfl

@[simp] theorem run_get_bind (f : σ → Program σ β) (s : σ) :
    (get >>= f).run s = (f s).run s := rfl

theorem run_bind_returns {x : Program σ α} {s s' : σ} {a : α} (f : α → Program σ β)
    (h : x.run s = .returns a s') : (x >>= f).run s = (f a).run s' := by
  show Program.bind x f s = (f a).run s'
  rw [Program.bind, h]

theorem run_bind_throws {x : Program σ α} {s s' : σ} {what : String} (f : α → Program σ β)
    (h : x.run s = .throws what s') : (x >>= f).run s = .throws what s' := by
  show Program.bind x f s = .throws what s'
  rw [Program.bind, h]

theorem run_bind_aborts {x : Program σ α} {s : σ} (f : α → Program σ β)
    (h : x.run s = .aborts) : (x >>= f).run s = .aborts := by
  show Program.bind x f s = .aborts
  rw [Program.bind, h]

theorem run_bind_faults {x : Program σ α} {s : σ} (f : α → Program σ β)
    (h : x.run s = .faults) : (x >>= f).run s = .faults := by
  show Program.bind x f s = .faults
  rw [Program.bind, h]

/-- A step that only makes something else of a value. -/
theorem run_bind_pure (x : Program σ α) (f : α → β) (s : σ) :
    (x >>= fun a => pure (f a)).run s = (x.run s).map f := by
  cases hx : x.run s with
  | returns a s₁ => exact run_bind_returns _ hx
  | throws what s₁ => exact run_bind_throws _ hx
  | aborts => exact run_bind_aborts _ hx
  | faults => exact run_bind_faults _ hx

theorem run_bind_pure_pure {γ : Type} (x : Program σ α) (f : α → β) (g : β → γ) (s : σ) :
    ((x >>= fun a => pure (f a)) >>= fun b => pure (g b)).run s =
      (x.run s).map fun a => g (f a) := by
  rw [run_bind_pure, run_bind_pure, Outcome.map_map]

/-- What returned as a whole returned step by step. -/
theorem exists_of_bind_returns {x : Program σ α} {f : α → Program σ β} {s s' : σ} {b : β}
    (h : (x >>= f).run s = .returns b s') :
    ∃ a s₁, x.run s = .returns a s₁ ∧ (f a).run s₁ = .returns b s' := by
  cases hx : x.run s with
  | returns a s₁ => exact ⟨a, s₁, rfl, (run_bind_returns f hx).symm.trans h⟩
  | throws what s₁ =>
      rw [run_bind_throws f hx] at h
      cases h
  | aborts =>
      rw [run_bind_aborts f hx] at h
      cases h
  | faults =>
      rw [run_bind_faults f hx] at h
      cases h

theorem run_assert_true {condition : Bool} (h : condition = true) (s : σ) :
    (assert condition).run s = .returns () s := if_pos h

theorem run_assert_false {condition : Bool} (h : condition = false) (s : σ) :
    (assert condition).run s = .aborts := if_neg (by rw [h]; exact Bool.false_ne_true)

@[simp] theorem run_orFault_some (a : α) (s : σ) :
    (orFault (some a) : Program σ α).run s = .returns a s := rfl

@[simp] theorem run_orFault_none (s : σ) : (orFault none : Program σ α).run s = .faults := rfl

/-! ## Programs on a part of the state -/

/-- Run a program on a part of the state; where it leaves one, it is put in place. -/
def zoom {τ : Type} (part : τ → σ) (put : σ → τ → τ) (x : Program σ α) : Program τ α := fun t =>
  match x.run (part t) with
  | .returns a s => .returns a (put s t)
  | .throws what s => .throws what (put s t)
  | .aborts => .aborts
  | .faults => .faults

section Zoom

variable {τ : Type} {part : τ → σ} {put : σ → τ → τ} {x : Program σ α} {t : τ}

theorem run_zoom_returns {a : α} {s : σ} (h : x.run (part t) = .returns a s) :
    (zoom part put x).run t = .returns a (put s t) := by
  show zoom part put x t = _
  rw [zoom, h]

theorem run_zoom_throws {what : String} {s : σ} (h : x.run (part t) = .throws what s) :
    (zoom part put x).run t = .throws what (put s t) := by
  show zoom part put x t = _
  rw [zoom, h]

theorem run_zoom_aborts (h : x.run (part t) = .aborts) :
    (zoom part put x).run t = .aborts := by
  show zoom part put x t = _
  rw [zoom, h]

theorem run_zoom_faults (h : x.run (part t) = .faults) :
    (zoom part put x).run t = .faults := by
  show zoom part put x t = _
  rw [zoom, h]

end Zoom

/-! ## What a program does to the state

A relation that every step of a program keeps is kept by the program. -/

/-- Where the program leaves a state to its caller, by a return or by an exception, that state is
related to the one it started from. -/
def Preserves (R : σ → σ → Prop) (x : Program σ α) : Prop := ∀ s, ∀ s' ∈ (x.run s).state, R s s'

section Preserves

variable {R : σ → σ → Prop}

theorem preserves_pure (hrefl : ∀ s, R s s) (a : α) : Preserves R (pure a : Program σ α) := by
  intro s s' hs'
  cases hs'
  exact hrefl s

theorem preserves_get (hrefl : ∀ s, R s s) : Preserves R (get : Program σ σ) := by
  intro s s' hs'
  cases hs'
  exact hrefl s

theorem preserves_modify {f : σ → σ} (hf : ∀ s, R s (f s)) : Preserves R (modify f) := by
  intro s s' hs'
  cases hs'
  exact hf s

theorem preserves_assert (hrefl : ∀ s, R s s) (condition : Bool) :
    Preserves R (assert condition : Program σ Unit) := by
  intro s s' hs'
  cases condition with
  | true =>
      cases hs'
      exact hrefl s
  | false => cases hs'

theorem preserves_orFault (hrefl : ∀ s, R s s) (x : Option α) :
    Preserves R (orFault x : Program σ α) := by
  intro s s' hs'
  cases x with
  | some a =>
      cases hs'
      exact hrefl s
  | none => cases hs'

theorem preserves_bind (htrans : ∀ {a b c}, R a b → R b c → R a c) {x : Program σ α}
    {f : α → Program σ β} (hx : Preserves R x) (hf : ∀ a, Preserves R (f a)) :
    Preserves R (x >>= f) := by
  intro s s' hs'
  cases hrun : x.run s with
  | returns a s₁ =>
      rw [run_bind_returns f hrun] at hs'
      have hfirst : R s s₁ := hx s s₁ (by rw [hrun]; rfl)
      exact htrans hfirst (hf a s₁ s' hs')
  | throws what s₁ =>
      rw [run_bind_throws f hrun] at hs'
      cases hs'
      exact hx s s' (by rw [hrun]; rfl)
  | aborts =>
      rw [run_bind_aborts f hrun] at hs'
      cases hs'
  | faults =>
      rw [run_bind_faults f hrun] at hs'
      cases hs'

/-- A program on a part keeps what it keeps of the part. -/
theorem preserves_zoom {τ : Type} {part : τ → σ} {put : σ → τ → τ} {Q : τ → τ → Prop}
    (hput : ∀ t s, R (part t) s → Q t (put s t)) {x : Program σ α} (hx : Preserves R x) :
    Preserves Q (zoom part put x) := by
  intro t t' ht'
  cases hrun : x.run (part t) with
  | returns a s =>
      rw [run_zoom_returns hrun] at ht'
      cases ht'
      exact hput t s (hx (part t) s (by rw [hrun]; rfl))
  | throws what s =>
      rw [run_zoom_throws hrun] at ht'
      cases ht'
      exact hput t s (hx (part t) s (by rw [hrun]; rfl))
  | aborts =>
      rw [run_zoom_aborts hrun] at ht'
      cases ht'
  | faults =>
      rw [run_zoom_faults hrun] at ht'
      cases ht'

end Preserves

end Program
