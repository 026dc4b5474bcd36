import Mathlib.Data.List.Basic

/-!
# First-in first-out channels

A channel remembers all that went into it and all that came out of it beside what it still holds,
and carries the law that relates the three. Whoever feeds or drains it has only to say how much:
that nothing is lost, duplicated or reordered is in the type.
-/

structure Channel (α : Type) where
  pushed : List α
  queued : List α
  popped : List α
  conserved : popped ++ queued = pushed

namespace Channel

variable {α : Type}

def empty : Channel α := ⟨[], [], [], rfl⟩

/-- A channel nobody has drained yet. -/
def ofList (xs : List α) : Channel α := ⟨xs, xs, [], rfl⟩

def push (c : Channel α) (xs : List α) : Channel α where
  pushed := c.pushed ++ xs
  queued := c.queued ++ xs
  popped := c.popped
  conserved := by rw [← List.append_assoc, c.conserved]

def pop (c : Channel α) (n : Nat) : Channel α where
  pushed := c.pushed
  queued := c.queued.drop n
  popped := c.popped ++ c.queued.take n
  conserved := by rw [List.append_assoc, List.take_append_drop, c.conserved]

@[simp] theorem pushed_push (c : Channel α) (xs : List α) : (c.push xs).pushed = c.pushed ++ xs :=
  rfl

@[simp] theorem popped_push (c : Channel α) (xs : List α) : (c.push xs).popped = c.popped := rfl

@[simp] theorem pushed_pop (c : Channel α) (n : Nat) : (c.pop n).pushed = c.pushed := rfl

@[simp] theorem queued_pop (c : Channel α) (n : Nat) : (c.pop n).queued = c.queued.drop n := rfl

/-- Who takes the front of the queue gets it. -/
theorem popped_pop {c : Channel α} {xs : List α} (h : xs <+: c.queued) :
    (c.pop xs.length).popped = c.popped ++ xs := by
  obtain ⟨rest, hrest⟩ := h
  show c.popped ++ c.queued.take xs.length = c.popped ++ xs
  rw [← hrest, List.take_left]

/-- What has come out is the beginning of what went in. -/
theorem popped_prefix_pushed (c : Channel α) : c.popped <+: c.pushed :=
  ⟨c.queued, c.conserved⟩

end Channel
