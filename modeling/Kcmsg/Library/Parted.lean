import Mathlib.Data.List.Infix

/-!
# Lists that part

Two lists part when they differ at a position both of them have. Unlike plain inequality this
survives whatever is appended to either of them, so it can be established at the point where two
runs go different ways and carried to their ends.
-/

/-- Neither list is the beginning of the other. -/
def Parted {α : Type} (xs ys : List α) : Prop := ¬ xs <+: ys ∧ ¬ ys <+: xs

namespace Parted

variable {α : Type} {xs ys : List α}

theorem ne (h : Parted xs ys) : xs ≠ ys := by
  rintro rfl
  exact h.1 (List.prefix_refl xs)

theorem cons {x y : α} (h : x ≠ y) (xs ys : List α) : Parted (x :: xs) (y :: ys) := by
  constructor
  · intro hle
    exact h (List.cons_prefix_cons.mp hle).1
  · intro hle
    exact h (List.cons_prefix_cons.mp hle).1.symm

/-- After a common beginning. -/
theorem append_left (h : Parted xs ys) (zs : List α) : Parted (zs ++ xs) (zs ++ ys) :=
  ⟨fun hle => h.1 ((List.prefix_append_right_inj zs).mp hle),
    fun hle => h.2 ((List.prefix_append_right_inj zs).mp hle)⟩

/-- Whatever comes behind. -/
theorem append (h : Parted xs ys) (us vs : List α) : Parted (xs ++ us) (ys ++ vs) := by
  have hcomparable {ws : List α} (hx : xs <+: ws) (hy : ys <+: ws) : False :=
    (List.prefix_or_prefix_of_prefix hx hy).elim h.1 h.2
  constructor
  · intro hle
    exact hcomparable ((List.prefix_append xs us).trans hle) (List.prefix_append ys vs)
  · intro hle
    exact hcomparable (List.prefix_append xs us) ((List.prefix_append ys vs).trans hle)

end Parted
