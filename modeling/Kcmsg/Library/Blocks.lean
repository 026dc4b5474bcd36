import Kcmsg.Library.Program

/-!
# Allocated blocks

Blocks of memory that a program allocates, reads, overwrites and releases through their
addresses. An address is used once: a released block leaves a gap behind, and reading or releasing
a gap faults. A block is released as one of a kind, and releasing it as one of another kind faults
as well.

Two rules say what programs do with them. A list of blocks can be released one after the other
exactly when they are different blocks, all there and of their kinds (`run_releaseAll_iff`). And
what is gone stays gone (`Later`), so a pointer that dangles once dangles for good.
-/

/-- Block `a` stands at index `a`; `none` is a block that was released. -/
@[ext]
structure Blocks (β : Type) where
  cells : List (Option β)
  deriving DecidableEq

namespace Blocks

variable {β κ : Type}

def get? (h : Blocks β) (a : Nat) : Option β := h.cells[a]?.join

/-- The number of blocks that were not released. -/
def live (h : Blocks β) : Nat := h.cells.countP Option.isSome

def push (h : Blocks β) (b : β) : Blocks β := ⟨h.cells ++ [some b]⟩

def put (h : Blocks β) (a : Nat) (b : β) : Blocks β := ⟨h.cells.set a (some b)⟩

def erase (h : Blocks β) (a : Nat) : Blocks β := ⟨h.cells.set a none⟩

def eraseAll (h : Blocks β) (as : List Nat) : Blocks β :=
  ⟨h.cells.mapIdx fun a c => if a ∈ as then none else c⟩

/-! ## What is where -/

variable {h h' : Blocks β} {a a' : Nat} {b : β}

theorem lt_of_get? (ha : h.get? a = some b) : a < h.cells.length := by
  by_contra hle
  rw [get?, List.getElem?_eq_none (Nat.le_of_not_lt hle)] at ha
  cases ha

theorem get?_push_same (h : Blocks β) (b : β) : (h.push b).get? h.cells.length = some b := by
  simp [get?, push]

theorem get?_push_of_ne (ha : a ≠ h.cells.length) : (h.push b).get? a = h.get? a := by
  rcases Nat.lt_or_gt_of_ne ha with hlt | hgt
  · simp [get?, push, List.getElem?_append_left hlt]
  · have hbeyond : (h.cells ++ [some b]).length ≤ a := by rwa [List.length_append]
    rw [get?, push, get?, List.getElem?_eq_none hbeyond,
      List.getElem?_eq_none (Nat.le_of_lt hgt)]

theorem get?_put_same (ha : a < h.cells.length) : (h.put a b).get? a = some b := by
  simp [get?, put, ha]

theorem get?_put_of_ne (hne : a ≠ a') : (h.put a b).get? a' = h.get? a' := by
  simp [get?, put, List.getElem?_set_ne hne]

theorem get?_erase_same (h : Blocks β) (a : Nat) : (h.erase a).get? a = none := by
  by_cases ha : a < h.cells.length
  · simp [get?, erase, ha]
  · simp [get?, erase, Nat.le_of_not_lt ha]

theorem get?_erase_of_ne (hne : a ≠ a') : (h.erase a).get? a' = h.get? a' := by
  simp [get?, erase, List.getElem?_set_ne hne]

theorem get?_eraseAll (h : Blocks β) (as : List Nat) (a : Nat) :
    (h.eraseAll as).get? a = if a ∈ as then none else h.get? a := by
  rw [get?, eraseAll, List.getElem?_mapIdx]
  cases hc : h.cells[a]? with
  | none => simp [get?, hc]
  | some c =>
      by_cases hmem : a ∈ as
      · simp [hmem]
      · simp [get?, hc, hmem]

theorem eraseAll_nil (h : Blocks β) : h.eraseAll [] = h := by
  apply Blocks.ext
  apply List.ext_getElem?
  intro i
  simp [eraseAll, List.getElem?_mapIdx]

theorem eraseAll_cons (h : Blocks β) (a : Nat) (as : List Nat) :
    h.eraseAll (a :: as) = (h.erase a).eraseAll as := by
  apply Blocks.ext
  apply List.ext_getElem?
  intro i
  simp only [eraseAll, erase, List.getElem?_mapIdx, List.getElem?_set, List.mem_cons]
  by_cases hia : a = i
  · subst hia
    by_cases hi : a < h.cells.length
    · simp [hi]
    · simp [hi]
  · simp [hia, Ne.symm hia]

/-! ## How many there are -/

@[simp] theorem live_push (h : Blocks β) (b : β) : (h.push b).live = h.live + 1 := by
  simp [live, push, List.countP_append]

/-- What one place of a list counts for, before and after it is set. -/
theorem countP_set_add {γ : Type} {l : List γ} {i : Nat} {x : γ} (h : l[i]? = some x)
    (q : γ → Bool) (y : γ) :
    (l.set i y).countP q + (if q x then 1 else 0) = l.countP q + if q y then 1 else 0 := by
  obtain ⟨hlt, rfl⟩ := List.getElem?_eq_some_iff.mp h
  have hpos (hx : q l[i] = true) : 0 < l.countP q :=
    List.countP_pos_iff.mpr ⟨l[i], List.getElem_mem hlt, hx⟩
  rw [List.countP_set hlt]
  by_cases hx : q l[i] = true
  · have hcounted := hpos hx
    rw [if_pos hx]
    omega
  · rw [if_neg hx]
    omega

theorem live_erase (ha : h.get? a = some b) : (h.erase a).live + 1 = h.live :=
  countP_set_add (Option.join_eq_some_iff.mp ha) Option.isSome none

theorem live_put (ha : h.get? a = some b) (b' : β) : (h.put a b').live = h.live :=
  Nat.add_right_cancel (countP_set_add (Option.join_eq_some_iff.mp ha) Option.isSome (some b'))

/-! ## Programs -/

/-- `new` -/
def new (b : β) : Program (Blocks β) Nat := fun h => .returns h.cells.length (h.push b)

/-- Read through a pointer; the null pointer is `none`. -/
def load (p : Option Nat) : Program (Blocks β) β := fun h =>
  match p.bind h.get? with
  | some b => .returns b h
  | none => .faults

/-- Overwrite a block that is there. -/
def assign (a : Nat) (b : β) : Program (Blocks β) Unit := fun h =>
  if (h.get? a).isSome then .returns () (h.put a b) else .faults

/-- `delete`, as a block of the kind `o.2`. -/
def release [DecidableEq κ] (kind : β → κ) (o : Nat × κ) : Program (Blocks β) Unit := fun h =>
  if (h.get? o.1).map kind = some o.2 then .returns () (h.erase o.1) else .faults

def releaseAll [DecidableEq κ] (kind : β → κ) : List (Nat × κ) → Program (Blocks β) Unit
  | [] => pure ()
  | o :: owners => do
      release kind o
      releaseAll kind owners

@[simp] theorem run_new (b : β) (h : Blocks β) :
    (new b).run h = .returns h.cells.length (h.push b) := rfl

/-- What is behind a pointer. -/
theorem run_load {p : Option Nat} (hp : p.bind h.get? = some b) :
    (load p).run h = .returns b h := by
  show load p h = _
  rw [load, hp]

theorem run_load_none {p : Option Nat} (hp : p.bind h.get? = none) :
    (load p).run h = (.faults : Outcome (Blocks β) β) := by
  show load p h = _
  rw [load, hp]

section Release

variable {kind : β → κ} {owners : List (Nat × κ)}

/-- The owners of different blocks, all there and of their kinds. -/
structure Owned (kind : β → κ) (h : Blocks β) (owners : List (Nat × κ)) : Prop where
  nodup : (owners.map Prod.fst).Nodup
  live : ∀ o ∈ owners, (h.get? o.1).map kind = some o.2

theorem Owned.nil (kind : β → κ) (h : Blocks β) : Owned kind h [] :=
  ⟨List.nodup_nil, fun _ ho => absurd ho List.not_mem_nil⟩

theorem owned_cons {o : Nat × κ} :
    Owned kind h (o :: owners) ↔
      (h.get? o.1).map kind = some o.2 ∧ Owned kind (h.erase o.1) owners := by
  constructor
  · intro howned
    have hnodup := List.nodup_cons.mp howned.nodup
    refine ⟨howned.live o List.mem_cons_self, hnodup.2, fun o' ho' => ?_⟩
    have hne : o.1 ≠ o'.1 := fun heq =>
      hnodup.1 (heq ▸ List.mem_map_of_mem ho')
    rw [get?_erase_of_ne hne]
    exact howned.live o' (List.mem_cons_of_mem o ho')
  · rintro ⟨hfirst, howned⟩
    have hne : ∀ o' ∈ owners, o.1 ≠ o'.1 := by
      intro o' ho' heq
      have hlive := howned.live o' ho'
      rw [← heq, get?_erase_same] at hlive
      cases hlive
    refine ⟨List.nodup_cons.mpr ⟨?_, howned.nodup⟩, ?_⟩
    · intro hmem
      obtain ⟨o', ho', heq⟩ := List.mem_map.mp hmem
      exact hne o' ho' heq.symm
    · intro o' ho'
      rcases List.mem_cons.mp ho' with rfl | ho'
      · exact hfirst
      · have hlive := howned.live o' ho'
        rwa [get?_erase_of_ne (hne o' ho')] at hlive

variable [DecidableEq κ]

/-- The rule for one release. -/
theorem run_release {o : Nat × κ} (ho : (h.get? o.1).map kind = some o.2) :
    (release kind o).run h = .returns () (h.erase o.1) := if_pos ho

theorem run_release_faults {o : Nat × κ} (ho : ¬ (h.get? o.1).map kind = some o.2) :
    (release kind o).run h = .faults := if_neg ho

theorem run_releaseAll (howned : Owned kind h owners) :
    (releaseAll kind owners).run h = .returns () (h.eraseAll (owners.map Prod.fst)) := by
  induction owners generalizing h with
  | nil => exact congrArg (Outcome.returns ()) (eraseAll_nil h).symm
  | cons o owners ih =>
      obtain ⟨hfirst, hrest⟩ := owned_cons.mp howned
      rw [releaseAll, Program.run_bind_returns _ (run_release hfirst), ih hrest, List.map_cons,
        eraseAll_cons]

theorem run_releaseAll_faults (hnot : ¬ Owned kind h owners) :
    (releaseAll kind owners).run h = .faults := by
  induction owners generalizing h with
  | nil => exact absurd (Owned.nil kind h) hnot
  | cons o owners ih =>
      rw [releaseAll]
      by_cases hfirst : (h.get? o.1).map kind = some o.2
      · rw [Program.run_bind_returns _ (run_release hfirst)]
        exact ih fun hrest => hnot (owned_cons.mpr ⟨hfirst, hrest⟩)
      · exact Program.run_bind_faults _ (run_release_faults hfirst)

/-- **Releasing a list of blocks goes well exactly when they are owned.** -/
theorem run_releaseAll_iff :
    (releaseAll kind owners).run h = .returns () h' ↔
      Owned kind h owners ∧ h' = h.eraseAll (owners.map Prod.fst) := by
  constructor
  · intro hrun
    by_cases howned : Owned kind h owners
    · rw [run_releaseAll howned] at hrun
      cases hrun
      exact ⟨howned, rfl⟩
    · rw [run_releaseAll_faults howned] at hrun
      cases hrun
  · rintro ⟨howned, rfl⟩
    exact run_releaseAll howned

end Release

/-! ## What is gone stays gone -/

/-- `h'` comes later than `h`: addresses given out stay given out, and no block comes back. -/
structure Later (h h' : Blocks β) : Prop where
  length_le : h.cells.length ≤ h'.cells.length
  gone : ∀ a < h.cells.length, h.get? a = none → h'.get? a = none

namespace Later

theorem refl (h : Blocks β) : Later h h := ⟨Nat.le_refl _, fun _ _ ha => ha⟩

theorem push (h : Blocks β) (b : β) : Later h (h.push b) := by
  refine ⟨by simp [Blocks.push], fun a ha hgone => ?_⟩
  rwa [get?_push_of_ne (Nat.ne_of_lt ha)]

theorem put (ha : (h.get? a).isSome) : Later h (h.put a b) := by
  refine ⟨by simp [Blocks.put], fun a' ha' hgone => ?_⟩
  have hne : a ≠ a' := by
    intro heq
    rw [heq, hgone] at ha
    cases ha
  rwa [get?_put_of_ne hne]

theorem erase (h : Blocks β) (a : Nat) : Later h (h.erase a) := by
  refine ⟨by simp [Blocks.erase], fun a' _ hgone => ?_⟩
  by_cases hne : a = a'
  · rw [hne, get?_erase_same]
  · rwa [get?_erase_of_ne hne]

end Later

end Blocks
