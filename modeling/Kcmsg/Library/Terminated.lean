import Mathlib.Data.List.TakeWhile

/-!
# Terminated sequences

A sequence that is stored without its length ends at the first occurrence of a reserved element.
`untilStop` is the reader of such a sequence: it knows where the sequence starts and goes on until
it meets the terminator, or, where there is none, runs off the end of what it is given
(`untilStop_eq_none_iff`). `reach` counts the elements it looks at on the way.

A writer that puts a terminator behind a sequence gets back what it wrote up to the first
terminator inside it (`untilStop_append_stop`), and all of it only if there is none.
-/

variable {α : Type} [DecidableEq α]

/-- The elements in front of the first `stop`, if there is one. -/
def untilStop (stop : α) : List α → Option (List α)
  | [] => none
  | x :: xs => if x = stop then some [] else (untilStop stop xs).map (x :: ·)

/-- How many elements are looked at to find the first `stop`, itself included. -/
def reach (stop : α) : List α → Nat
  | [] => 0
  | x :: xs => if x = stop then 1 else reach stop xs + 1

/-- A sequence cut at its first `stop`. -/
def cutAt (stop : α) (xs : List α) : List α := xs.takeWhile (· ≠ stop)

section

variable {stop : α} {xs : List α}

/-! ## Cutting -/

theorem cutAt_of_notMem (h : stop ∉ xs) : cutAt stop xs = xs := by
  apply List.takeWhile_eq_self_iff.mpr
  intro x hx
  exact decide_eq_true (fun hstop => h (hstop ▸ hx))

theorem notMem_cutAt (stop : α) (xs : List α) : stop ∉ cutAt stop xs := by
  intro h
  have hne : decide (stop ≠ stop) = true :=
    List.mem_takeWhile_imp (p := fun x => decide (x ≠ stop)) h
  exact of_decide_eq_true hne rfl

theorem cutAt_eq_self_iff : cutAt stop xs = xs ↔ stop ∉ xs := by
  constructor
  · intro h
    rw [← h]
    exact notMem_cutAt stop xs
  · exact cutAt_of_notMem

/-! ## Reading -/

/-- What is in front of the terminator is passed over. -/
theorem untilStop_append_of_notMem (h : stop ∉ xs) (ys : List α) :
    untilStop stop (xs ++ ys) = (untilStop stop ys).map (xs ++ ·) := by
  induction xs with
  | nil => exact Option.map_id'.symm
  | cons x xs ih =>
      have hx : x ≠ stop := fun hstop => h (hstop ▸ List.mem_cons_self)
      rw [List.cons_append, untilStop, if_neg hx, ih fun hmem => h (List.mem_cons_of_mem x hmem),
        Option.map_map]
      rfl

/-- What is behind a terminator is not looked at. -/
theorem untilStop_of_mem (h : stop ∈ xs) (ys : List α) :
    untilStop stop (xs ++ ys) = some (cutAt stop xs) := by
  induction xs with
  | nil => exact absurd h List.not_mem_nil
  | cons x xs ih =>
      rw [List.cons_append, untilStop]
      by_cases hx : x = stop
      · rw [if_pos hx, cutAt, List.takeWhile_cons_of_neg (by simpa using hx)]
      · have hmem : stop ∈ xs := (List.mem_cons.mp h).resolve_left (Ne.symm hx)
        rw [if_neg hx, ih hmem, cutAt, cutAt, List.takeWhile_cons_of_pos (by simpa using hx)]
        rfl

/-- A terminator put behind a sequence is found, if not an earlier one. -/
theorem untilStop_append_stop (stop : α) (xs ys : List α) :
    untilStop stop (xs ++ stop :: ys) = some (cutAt stop xs) := by
  by_cases h : stop ∈ xs
  · exact untilStop_of_mem h _
  · rw [untilStop_append_of_notMem h, cutAt_of_notMem h, untilStop, if_pos rfl, Option.map_some,
      List.append_nil]

theorem untilStop_eq_none_iff : untilStop stop xs = none ↔ stop ∉ xs := by
  constructor
  · intro hnone hmem
    have hfound := untilStop_of_mem hmem []
    rw [List.append_nil, hnone] at hfound
    cases hfound
  · intro h
    have hpassed := untilStop_append_of_notMem h []
    rwa [List.append_nil] at hpassed

/-! ## How far the reader looks -/

/-- With a terminator in it the reader stays inside the sequence. -/
theorem reach_append_le (h : stop ∈ xs) (ys : List α) : reach stop (xs ++ ys) ≤ xs.length := by
  induction xs with
  | nil => exact absurd h List.not_mem_nil
  | cons x xs ih =>
      rw [List.cons_append, reach, List.length_cons]
      by_cases hx : x = stop
      · rw [if_pos hx]
        omega
      · have hmem : stop ∈ xs := (List.mem_cons.mp h).resolve_left (Ne.symm hx)
        have hle := ih hmem
        rw [if_neg hx]
        omega

/-- Without one it looks at whatever comes behind. -/
theorem reach_append_of_notMem (h : stop ∉ xs) (ys : List α) :
    reach stop (xs ++ ys) = xs.length + reach stop ys := by
  induction xs with
  | nil => exact (Nat.zero_add _).symm
  | cons x xs ih =>
      have hx : x ≠ stop := fun hstop => h (hstop ▸ List.mem_cons_self)
      rw [List.cons_append, reach, if_neg hx, ih fun hmem => h (List.mem_cons_of_mem x hmem),
        List.length_cons]
      omega

theorem reach_cons_pos (y : α) (ys : List α) : 0 < reach stop (y :: ys) := by
  rw [reach]
  split <;> omega

end
