import Mathlib.Data.List.Basic

/-!
# Writers with a mode

A writer goes through a list of items and writes a text for each. What it writes depends on a
mode, which items can change for those behind them. `written` is the result.

Such a writer is a function of the single items, the same for all of them, exactly if the mode in
which each item is written makes no difference to it (`written_eq_map_iff`).
-/

section

variable {ι μ τ : Type} {text : μ → ι → τ} {next : μ → ι → μ} {s : μ} {xs ys : List ι}

/-- The texts of the items, from mode `s` on. -/
def written (text : μ → ι → τ) (next : μ → ι → μ) (s : μ) : List ι → List τ
  | [] => []
  | x :: xs => text s x :: written text next (next s x) xs

@[simp] theorem length_written : (written text next s xs).length = xs.length := by
  induction xs generalizing s with
  | nil => rfl
  | cons x xs ih => rw [written, List.length_cons, List.length_cons, ih]

/-- The second part is written in the mode the first has left. -/
theorem written_append :
    written text next s (xs ++ ys) =
      written text next s xs ++ written text next (xs.foldl next s) ys := by
  induction xs generalizing s with
  | nil => rfl
  | cons x xs ih => rw [List.cons_append, written, written, ih, List.foldl_cons, List.cons_append]

/-- **Every item has its own text exactly if it has it in the mode it is written in.** -/
theorem written_eq_map_iff {own : ι → τ} :
    written text next s xs = xs.map own ↔
      ∀ before x after, xs = before ++ x :: after → text (before.foldl next s) x = own x := by
  induction xs generalizing s with
  | nil =>
      refine iff_of_true rfl fun before x after h => ?_
      exact absurd h.symm (List.append_ne_nil_of_right_ne_nil before (List.cons_ne_nil x after))
  | cons y ys ih =>
      rw [written, List.map_cons, List.cons.injEq, ih]
      constructor
      · rintro ⟨hhead, htail⟩ before x after h
        cases before with
        | nil =>
            obtain ⟨rfl, -⟩ := List.cons.inj h
            exact hhead
        | cons z zs =>
            obtain ⟨rfl, hys⟩ := List.cons.inj h
            exact htail zs x after hys
      · intro h
        refine ⟨h [] y ys rfl, fun before x after hys => ?_⟩
        exact h (y :: before) x after (by rw [hys, List.cons_append])

end
