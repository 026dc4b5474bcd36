import Kcmsg.Library.Modes
import Kcmsg.Library.Parted

/-!
# Codes

A code is self-delimiting if the code of an item is told from that of any other whatever follows
it, and so is its end. Of a writer with a mode that has such a code in every mode, the items can be
read off what is written: up to a mark that begins no code (`written_append_inj`), or if there is
nothing behind (`written_flatten_inj`).
-/

section

variable {ι μ β : Type}

/-- On the items of `P`. -/
def SelfDelimiting (code : ι → List β) (P : ι → Prop) : Prop :=
  ∀ x y, P x → P y → ∀ s t, code x ++ s = code y ++ t → x = y ∧ s = t

/-- A character that is in neither of two lists tells their ends. -/
theorem append_cons_inj {c : β} {xs ys s t : List β} (hxs : c ∉ xs) (hys : c ∉ ys)
    (h : xs ++ c :: s = ys ++ c :: t) : xs = ys ∧ s = t := by
  induction xs generalizing ys with
  | nil =>
      cases ys with
      | nil => exact ⟨rfl, (List.cons.inj h).2⟩
      | cons y ys => exact absurd (List.cons.inj h).1 (List.ne_of_not_mem_cons hys)
  | cons x xs ih =>
      cases ys with
      | nil => exact absurd (List.cons.inj h).1.symm (List.ne_of_not_mem_cons hxs)
      | cons y ys =>
          obtain ⟨hhead, htail⟩ := List.cons.inj h
          obtain ⟨rfl, hrest⟩ :=
            ih (List.not_mem_of_not_mem_cons hxs) (List.not_mem_of_not_mem_cons hys) htail
          exact ⟨by rw [hhead], hrest⟩

variable {text : μ → ι → List β} {next : μ → ι → μ} {P : ι → Prop} {xs ys : List ι}

/-- What becomes of the texts by a function of each. -/
theorem flatMap_written {τ : Type} (line : μ → ι → τ) (next : μ → ι → μ) (f : τ → List β) (m : μ)
    (xs : List ι) :
    (written line next m xs).flatMap f = (written (fun m x => f (line m x)) next m xs).flatten := by
  induction xs generalizing m with
  | nil => rfl
  | cons x xs ih => rw [written, written, List.flatMap_cons, List.flatten_cons, ih]

/-- A writer that makes its items of others. -/
theorem written_map {κ : Type} (text : μ → ι → List β) (next : μ → ι → μ) (f : κ → ι) (m : μ)
    (xs : List κ) :
    written text next m (xs.map f) =
      written (fun m x => text m (f x)) (fun m x => next m (f x)) m xs := by
  induction xs generalizing m with
  | nil => rfl
  | cons x xs ih => rw [List.map_cons, written, written, ih]

theorem written_append_inj (hcode : ∀ m, SelfDelimiting (text m) P) {stop : List β}
    (hstop : ∀ m x, P x → Parted stop (text m x)) (hxs : ∀ x ∈ xs, P x) (hys : ∀ y ∈ ys, P y)
    {m : μ} {s t : List β}
    (h : (written text next m xs).flatten ++ (stop ++ s) =
      (written text next m ys).flatten ++ (stop ++ t)) : xs = ys ∧ s = t := by
  induction xs generalizing ys m with
  | nil =>
      cases ys with
      | nil => exact ⟨rfl, List.append_cancel_left h⟩
      | cons y ys =>
          rw [written, written, List.flatten_cons, List.append_assoc] at h
          exact absurd h ((hstop m y (hys y List.mem_cons_self)).append _ _).ne
  | cons x xs ih =>
      cases ys with
      | nil =>
          rw [written, written, List.flatten_cons, List.append_assoc] at h
          exact absurd h.symm ((hstop m x (hxs x List.mem_cons_self)).append _ _).ne
      | cons y ys =>
          rw [written, written, List.flatten_cons, List.flatten_cons, List.append_assoc,
            List.append_assoc] at h
          obtain ⟨rfl, hrest⟩ := hcode m x y (hxs x List.mem_cons_self)
            (hys y List.mem_cons_self) _ _ h
          obtain ⟨rfl, hst⟩ := ih (fun z hz => hxs z (List.mem_cons_of_mem x hz))
            (fun z hz => hys z (List.mem_cons_of_mem x hz)) hrest
          exact ⟨rfl, hst⟩

theorem written_flatten_inj (hcode : ∀ m, SelfDelimiting (text m) P)
    (hne : ∀ m x, P x → text m x ≠ []) (hxs : ∀ x ∈ xs, P x) (hys : ∀ y ∈ ys, P y) {m : μ}
    (h : (written text next m xs).flatten = (written text next m ys).flatten) : xs = ys := by
  induction xs generalizing ys m with
  | nil =>
      cases ys with
      | nil => rfl
      | cons y ys =>
          rw [written, written, List.flatten_cons] at h
          exact absurd (List.append_eq_nil_iff.mp h.symm).1 (hne m y (hys y List.mem_cons_self))
  | cons x xs ih =>
      cases ys with
      | nil =>
          rw [written, written, List.flatten_cons] at h
          exact absurd (List.append_eq_nil_iff.mp h).1 (hne m x (hxs x List.mem_cons_self))
      | cons y ys =>
          rw [written, written, List.flatten_cons, List.flatten_cons] at h
          obtain ⟨rfl, hrest⟩ := hcode m x y (hxs x List.mem_cons_self)
            (hys y List.mem_cons_self) _ _ h
          rw [ih (fun z hz => hxs z (List.mem_cons_of_mem x hz))
            (fun z hz => hys z (List.mem_cons_of_mem x hz)) hrest]

end
