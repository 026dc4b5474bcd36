import Kcmsg.Library.Program

/-!
# While loops

`whileLoop test body` runs `body` as long as `test` holds of the state. The body may be a different
one in every round (it may depend on what the rest of the world does in the meantime), and it ends
the loop when it does not return. The loop is cut off after `fuel` rounds, which is the value
`none`.

`Rounds` are the states the loop comes to. What a loop does is found out by following them: the
loop goes on from any of them as it does from its start (`Rounds.whileLoop_eq`), an end of it is
the end of a round or a state in which the test fails (`Rounds.exists_end`), and it ends if every
round makes a number smaller (`exists_fuel`).
-/

section

variable {σ : Type}

/-- The loop from round `i` on. -/
def whileLoop (test : σ → Bool) (body : Nat → Program σ Unit) :
    Nat → Nat → σ → Option (Outcome σ Unit)
  | 0, _, _ => none
  | fuel + 1, i, s =>
      if test s then
        match (body i).run s with
        | .returns _ s' => whileLoop test body fuel (i + 1) s'
        | .throws what s' => some (.throws what s')
        | .aborts => some .aborts
        | .faults => some .faults
      else some (.returns () s)

/-- The loop that starts in `s` is in `s'` after `n` rounds. -/
inductive Rounds (test : σ → Bool) (body : Nat → Program σ Unit) (s : σ) : Nat → σ → Prop
  | start : Rounds test body s 0 s
  | next {n : Nat} {s' s'' : σ} : Rounds test body s n s' → test s' = true →
      (body n).run s' = .returns () s'' → Rounds test body s (n + 1) s''

variable {test : σ → Bool} {body : Nat → Program σ Unit} {s s' s'' : σ} {n fuel : Nat}
  {x : Outcome σ Unit}

theorem whileLoop_stop (h : test s = false) (fuel i : Nat) :
    whileLoop test body (fuel + 1) i s = some (.returns () s) :=
  if_neg (by rw [h]; exact Bool.false_ne_true)

theorem whileLoop_next {i : Nat} (h : test s = true) (hbody : (body i).run s = .returns () s')
    (fuel : Nat) : whileLoop test body (fuel + 1) i s = whileLoop test body fuel (i + 1) s' := by
  rw [whileLoop, if_pos h, hbody]

theorem whileLoop_end {i : Nat} (h : test s = true) (hbody : (body i).run s = x)
    (hx : ∀ s', x ≠ .returns () s') (fuel : Nat) :
    whileLoop test body (fuel + 1) i s = some x := by
  rw [whileLoop, if_pos h, hbody]
  cases x with
  | returns a s' => exact absurd rfl (hx s')
  | throws what s' => rfl
  | aborts => rfl
  | faults => rfl

namespace Rounds

/-- A loop is in one state after `n` rounds. -/
theorem unique (h : Rounds test body s n s') (h' : Rounds test body s n s'') : s' = s'' := by
  induction h generalizing s'' with
  | start =>
      cases h'
      rfl
  | next hn ht hbody ih =>
      cases h' with
      | next hn' ht' hbody' =>
          cases ih hn'
          cases hbody.symm.trans hbody'
          rfl

/-- The loop goes on from a state it comes to as it would from its start. -/
theorem whileLoop_eq (h : Rounds test body s n s') (fuel : Nat) :
    whileLoop test body (fuel + n) 0 s = whileLoop test body fuel n s' := by
  induction h generalizing fuel with
  | start => rfl
  | @next n s' s'' hn ht hbody ih =>
      rw [← Nat.add_assoc, Nat.add_right_comm, ih (fuel + 1), whileLoop_next ht hbody]

/-- What every round keeps is kept by the loop. -/
theorem keeps {I : σ → Prop} (h : Rounds test body s n s') (hs : I s)
    (hround : ∀ n s' s'', I s' → (body n).run s' = .returns () s'' → I s'') : I s' := by
  induction h with
  | start => exact hs
  | next hn ht hbody ih => exact hround _ _ _ ih hbody

/-- Every end of the loop is the end of a round, or comes when the test fails. -/
theorem exists_end (h : Rounds test body s n s') (hx : whileLoop test body fuel n s' = some x) :
    ∃ k t, Rounds test body s k t ∧
      ((test t = false ∧ x = .returns () t) ∨
        (test t = true ∧ (body k).run t = x ∧ ∀ t', x ≠ .returns () t')) := by
  induction fuel generalizing n s' with
  | zero => cases hx
  | succ fuel ih =>
      by_cases ht : test s' = true
      · by_cases hreturns : ∃ s'', (body n).run s' = .returns () s''
        · obtain ⟨s'', hbody⟩ := hreturns
          rw [whileLoop_next ht hbody] at hx
          exact ih (h.next ht hbody) hx
        · have hnot := not_exists.mp hreturns
          rw [whileLoop_end ht rfl hnot] at hx
          cases hx
          exact ⟨n, s', h, .inr ⟨ht, rfl, hnot⟩⟩
      · have hf : test s' = false := Bool.eq_false_iff.mpr ht
        rw [whileLoop_stop hf] at hx
        cases hx
        exact ⟨n, s', h, .inl ⟨hf, rfl⟩⟩

end Rounds

/-- A loop whose rounds change nothing does not end. -/
theorem whileLoop_stuck (ht : test s = true) (hbody : ∀ i, (body i).run s = .returns () s)
    (fuel i : Nat) : whileLoop test body fuel i s = none := by
  induction fuel generalizing i with
  | zero => rfl
  | succ fuel ih => rw [whileLoop_next ht (hbody i), ih]

/-- More fuel does not change an end. -/
theorem whileLoop_mono {i : Nat} (h : whileLoop test body fuel i s = some x) (k : Nat) :
    whileLoop test body (fuel + k) i s = some x := by
  induction fuel generalizing i s with
  | zero => cases h
  | succ fuel ih =>
      rw [Nat.add_right_comm]
      by_cases ht : test s = true
      · by_cases hreturns : ∃ s', (body i).run s = .returns () s'
        · obtain ⟨s', hbody⟩ := hreturns
          rw [whileLoop_next ht hbody] at h ⊢
          exact ih h
        · have hnot := not_exists.mp hreturns
          rw [whileLoop_end ht rfl hnot] at h ⊢
          exact h
      · have hf : test s = false := Bool.eq_false_iff.mpr ht
        rw [whileLoop_stop hf] at h ⊢
        exact h

/-- Two ends of one loop are the same. -/
theorem whileLoop_unique {i fuel' : Nat} {y : Outcome σ Unit}
    (h : whileLoop test body fuel i s = some x) (h' : whileLoop test body fuel' i s = some y) :
    x = y := by
  have hx := whileLoop_mono h fuel'
  have hy := whileLoop_mono h' fuel
  rw [Nat.add_comm] at hy
  exact Option.some.inj (hx.symm.trans hy)

/-- **A loop in which every round makes a number smaller comes to an end.** -/
theorem exists_fuel (measure : σ → Nat)
    (hsmaller : ∀ n s' s'', Rounds test body s n s' → test s' = true →
      (body n).run s' = .returns () s'' → measure s'' < measure s') :
    ∃ fuel x, whileLoop test body fuel 0 s = some x := by
  suffices h : ∀ k n s', Rounds test body s n s' → measure s' < k →
      ∃ fuel x, whileLoop test body fuel n s' = some x from
    h (measure s + 1) 0 s .start (Nat.lt_succ_self _)
  intro k
  induction k with
  | zero => exact fun n s' _ hlt => absurd hlt (Nat.not_lt_zero _)
  | succ k ih =>
      intro n s' hn hlt
      by_cases ht : test s' = true
      · by_cases hreturns : ∃ s'', (body n).run s' = .returns () s''
        · obtain ⟨s'', hbody⟩ := hreturns
          have hless := hsmaller n s' s'' hn ht hbody
          obtain ⟨fuel, x, hx⟩ := ih (n + 1) s'' (hn.next ht hbody) (by omega)
          exact ⟨fuel + 1, x, by rw [whileLoop_next ht hbody, hx]⟩
        · exact ⟨1, _, whileLoop_end ht rfl (not_exists.mp hreturns) 0⟩
      · exact ⟨1, _, whileLoop_stop (Bool.eq_false_iff.mpr ht) 0 n⟩

end
