import Kcmsg.Library.Blocks

/-!
# Objects with a raw pointer

The objects of a class whose constructor allocates a block, whose destructor frees what its pointer
points to, and whose copies are made member by member: a copy has the pointer of its original.
`Handles` are such objects and the memory they share. `Owners` is what the author of such a class
has in mind: every object has its block to itself, and there is no copy of one that has a block.

A program of owners does the same on handles (`Owners.Rel.runAll`). A program of handles that no
program of owners does may go well for a while, but some object then has a pointer that is another
object's as well, or to a block that is gone (`Tangled`), and nothing but a fault gets it out of
that. So the programs that come to an end with all objects destroyed are the same for the two
(`Handles.clean_iff`).
-/

/-- The members of an object, its pointer apart, and the pointer. -/
structure Handle (α : Type) where
  own : α
  pointer : Option Nat

/-- The methods of a class, on an object with a block and on one without; a call that is not `some`
does not come back. -/
structure Methods (α β γ ρ : Type) where
  run : γ → α → β → Option (ρ × α × β)
  runNull : γ → α → Option (ρ × α)

/-- What a program does with objects, which it numbers in the order in which they come to be. A
constructor that does not come back is `none`. -/
inductive ObjectCall (α β γ : Type) where
  | construct (made : Option (α × Option β))
  | copy (i : Nat)
  | destroy (i : Nat)
  | call (i : Nat) (method : γ)

variable {α β γ ρ : Type}

/-! ## Owners -/

/-- The objects with their blocks, `none` where one has been destroyed. -/
structure Owners (α β : Type) where
  objects : List (Option (α × Option β))

namespace Owners

def start : Owners α β := ⟨[]⟩

def object (s : Owners α β) (i : Nat) : Option (α × Option β) := s.objects[i]?.join

def set (s : Owners α β) (i : Nat) (o : Option (α × Option β)) : Owners α β :=
  ⟨s.objects.set i o⟩

def add (s : Owners α β) (o : α × Option β) : Owners α β := ⟨s.objects ++ [some o]⟩

def step (M : Methods α β γ ρ) (s : Owners α β) :
    ObjectCall α β γ → Option (Option ρ × Owners α β)
  | .construct made => made.map fun o => (none, s.add o)
  | .copy i => (s.object i).bind fun o => if o.2.isNone then some (none, s.add o) else none
  | .destroy i => (s.object i).map fun _ => (none, s.set i none)
  | .call i method => (s.object i).bind fun o =>
      match o.2 with
      | none => (M.runNull method o.1).map fun r => (some r.1, s.set i (some (r.2, none)))
      | some b => (M.run method o.1 b).map fun r =>
          (some r.1, s.set i (some (r.2.1, some r.2.2)))

def runAll (M : Methods α β γ ρ) (s : Owners α β) :
    List (ObjectCall α β γ) → Option (List (Option ρ) × Owners α β)
  | [] => some ([], s)
  | c :: cs => (s.step M c).bind fun r =>
      (runAll M r.2 cs).map fun rs => (r.1 :: rs.1, rs.2)

/-- All objects have been destroyed. -/
def Clean (s : Owners α β) : Prop := ∀ o ∈ s.objects, o = none

/-- The number of blocks. -/
def owned (s : Owners α β) : Nat := s.objects.countP fun o => (o.bind Prod.snd).isSome

end Owners

/-! ## Handles -/

structure Handles (α β : Type) where
  objects : List (Option (Handle α))
  blocks : Blocks β

namespace Handles

def start : Handles α β := ⟨[], ⟨[]⟩⟩

def object (s : Handles α β) (i : Nat) : Option (Handle α) := s.objects[i]?.join

/-- `if (pointer) free(pointer);` -/
def free (h : Blocks β) : Option Nat → Option (Blocks β)
  | none => some h
  | some a => if (h.get? a).isSome then some (h.erase a) else none

def step (M : Methods α β γ ρ) (s : Handles α β) :
    ObjectCall α β γ → Option (Option ρ × Handles α β)
  | .construct made => made.map fun o =>
      match o.2 with
      | none => (none, ⟨s.objects ++ [some ⟨o.1, none⟩], s.blocks⟩)
      | some b =>
          (none, ⟨s.objects ++ [some ⟨o.1, some s.blocks.cells.length⟩], s.blocks.push b⟩)
  | .copy i => (s.object i).map fun o => (none, ⟨s.objects ++ [some o], s.blocks⟩)
  | .destroy i => (s.object i).bind fun o =>
      (free s.blocks o.pointer).map fun h => (none, ⟨s.objects.set i none, h⟩)
  | .call i method => (s.object i).bind fun o =>
      match o.pointer with
      | none => (M.runNull method o.own).map fun r =>
          (some r.1, ⟨s.objects.set i (some ⟨r.2, none⟩), s.blocks⟩)
      | some a => (s.blocks.get? a).bind fun b =>
          (M.run method o.own b).map fun r =>
            (some r.1, ⟨s.objects.set i (some ⟨r.2.1, some a⟩), s.blocks.put a r.2.2⟩)

def runAll (M : Methods α β γ ρ) (s : Handles α β) :
    List (ObjectCall α β γ) → Option (List (Option ρ) × Handles α β)
  | [] => some ([], s)
  | c :: cs => (s.step M c).bind fun r =>
      (runAll M r.2 cs).map fun rs => (r.1 :: rs.1, rs.2)

def Clean (s : Handles α β) : Prop := ∀ o ∈ s.objects, o = none

end Handles

/-! ## Lists with gaps -/

section Gaps

variable {δ : Type} {l : List (Option δ)} {i : Nat} {x : δ}

theorem lt_of_getElem?_join (h : l[i]?.join = some x) : i < l.length := by
  by_contra hle
  rw [List.getElem?_eq_none (Nat.le_of_not_lt hle)] at h
  cases h

theorem getElem?_join_concat (l : List (Option δ)) (o : Option δ) (i : Nat) :
    (l ++ [o])[i]?.join = if i = l.length then o else l[i]?.join := by
  rcases Nat.lt_trichotomy i l.length with hlt | rfl | hgt
  · rw [List.getElem?_append_left hlt, if_neg (Nat.ne_of_lt hlt)]
  · simp
  · have hbeyond : (l ++ [o]).length ≤ i := by rwa [List.length_append]
    rw [List.getElem?_eq_none hbeyond, List.getElem?_eq_none (Nat.le_of_lt hgt),
      if_neg (Nat.ne_of_gt hgt)]

theorem getElem?_join_set (hi : i < l.length) (o : Option δ) (j : Nat) :
    (l.set i o)[j]?.join = if j = i then o else l[j]?.join := by
  by_cases hij : j = i
  · subst hij
    rw [List.getElem?_set_self hi, if_pos rfl, Option.join_some]
  · rw [List.getElem?_set_ne (Ne.symm hij), if_neg hij]

theorem forall_eq_none_iff : (∀ o ∈ l, o = none) ↔ ∀ i : Nat, l[i]?.join = none := by
  constructor
  · intro h i
    cases hget : l[i]? with
    | none => rfl
    | some o => exact h o (List.mem_of_getElem? hget)
  · intro h o ho
    obtain ⟨i, hi⟩ := List.mem_iff_getElem?.mp ho
    have hjoin := h i
    rwa [hi] at hjoin

end Gaps

/-- The last state of a run, shown as another. -/
theorem exists_map_eq_some_iff {σ τ : Type} (f : σ → τ) {run : Option (γ × σ)} {r : γ}
    {P : τ → Prop} :
    (∃ t, (run.map fun x => (x.1, f x.2)) = some (r, t) ∧ P t) ↔
      ∃ s, run = some (r, s) ∧ P (f s) := by
  constructor
  · rintro ⟨t, ht, hP⟩
    obtain ⟨⟨r', s⟩, hs, heq⟩ := Option.map_eq_some_iff.mp ht
    cases heq
    exact ⟨s, hs, hP⟩
  · rintro ⟨s, rfl, hP⟩
    exact ⟨f s, rfl, hP⟩

/-! ## Owners and handles -/

namespace Handles

variable {h h' : Blocks β} {o : Handle α}

/-- What an object is worth: its members, and what is behind its pointer. -/
def value (h : Blocks β) (o : Handle α) : α × Option β := (o.own, o.pointer.bind h.get?)

/-- An object is worth the same wherever its block is the same. -/
theorem value_congr (hsame : ∀ a, o.pointer = some a → h'.get? a = h.get? a) :
    value h' o = value h o := by
  cases hp : o.pointer with
  | none => simp [value, hp]
  | some a => simp [value, hp, hsame a hp]

theorem value_of_none (hp : o.pointer = none) : value h o = (o.own, none) := by
  simp [value, hp]

theorem value_of_some {a : Nat} {b : β} (hp : o.pointer = some a) (hb : h.get? a = some b) :
    value h o = (o.own, some b) := by
  simp [value, hp, hb]

theorem isSome_value (halive : ∀ a, o.pointer = some a → (h.get? a).isSome) :
    (value h o).2.isSome = o.pointer.isSome := by
  cases hp : o.pointer with
  | none =>
      rw [value_of_none hp]
      rfl
  | some a =>
      obtain ⟨b, hb⟩ := Option.isSome_iff_exists.mp (halive a hp)
      rw [value_of_some hp hb]
      rfl

/-- What is freed was there, and is gone. -/
theorem later_of_free {p : Option Nat} (hfree : free h p = some h') :
    Blocks.Later h h' ∧ ∀ a, p = some a → (h.get? a).isSome ∧ h'.get? a = none := by
  cases p with
  | none =>
      cases hfree
      exact ⟨Blocks.Later.refl _, fun a ha => by cases ha⟩
  | some a =>
      rw [free] at hfree
      by_cases halive : (h.get? a).isSome
      · rw [if_pos halive] at hfree
        cases hfree
        refine ⟨Blocks.Later.erase _ a, fun a' ha' => ?_⟩
        cases ha'
        exact ⟨halive, Blocks.get?_erase_same _ a⟩
      · rw [if_neg halive] at hfree
        cases hfree

end Handles

namespace Owners

variable {M : Methods α β γ ρ} {s : Owners α β} {t : Handles α β} {i : Nat} {o : Handle α}

theorem owned_add (s : Owners α β) (v : α × Option β) :
    (s.add v).owned = s.owned + if v.2.isSome then 1 else 0 := by
  rw [owned, owned, add, List.countP_append, List.countP_singleton, Option.bind_some]

theorem owned_set {v : α × Option β} (hi : s.object i = some v) (v' : Option (α × Option β)) :
    (s.set i v').owned + (if v.2.isSome then 1 else 0) =
      s.owned + if (v'.bind Prod.snd).isSome then 1 else 0 :=
  Blocks.countP_set_add (Option.join_eq_some_iff.mp hi) (fun o => (o.bind Prod.snd).isSome) v'

/-- The objects are worth the same, their blocks are there, and no two objects have one block. -/
structure Rel (s : Owners α β) (t : Handles α β) : Prop where
  length : s.objects.length = t.objects.length
  shows : ∀ i, s.object i = (t.object i).map (Handles.value t.blocks)
  alive : ∀ i o a, t.object i = some o → o.pointer = some a → (t.blocks.get? a).isSome
  apart : ∀ i j o p a, t.object i = some o → t.object j = some p → o.pointer = some a →
    p.pointer = some a → i = j
  live : t.blocks.live = s.owned

namespace Rel

theorem start : Rel (Owners.start : Owners α β) Handles.start where
  length := rfl
  shows _ := rfl
  alive i o a ho := by cases ho
  apart i j o p a ho := by cases ho
  live := rfl

theorem object (h : Rel s t) (ht : t.object i = some o) :
    s.object i = some (Handles.value t.blocks o) := by
  rw [h.shows, ht, Option.map_some]

theorem exists_object (h : Rel s t) {v : α × Option β} (hv : s.object i = some v) :
    ∃ o, t.object i = some o ∧ Handles.value t.blocks o = v := by
  rw [h.shows] at hv
  exact Option.map_eq_some_iff.mp hv

/-- A new object, with a pointer that no other object has, in a memory where the others find what
they had. -/
theorem add (h : Rel s t) {blocks : Blocks β}
    (hothers : ∀ a, (t.blocks.get? a).isSome → blocks.get? a = t.blocks.get? a)
    (hnew : ∀ a, o.pointer = some a → (blocks.get? a).isSome ∧ t.blocks.get? a = none)
    (hlive : blocks.live = t.blocks.live + if o.pointer.isSome then 1 else 0) :
    Rel (s.add (Handles.value blocks o)) ⟨t.objects ++ [some o], blocks⟩ := by
  have hobject (j : Nat) : (Handles.mk (t.objects ++ [some o]) blocks).object j =
      if j = t.objects.length then some o else t.object j := getElem?_join_concat _ _ j
  have hsame (j : Nat) (p : Handle α) (hp : t.object j = some p) :
      Handles.value blocks p = Handles.value t.blocks p :=
    Handles.value_congr fun a ha => hothers a (h.alive j p a hp ha)
  refine ⟨?_, fun j => ?_, fun j p a hp ha => ?_, fun j k p q a hp hq ha hb => ?_, ?_⟩
  · simp [Owners.add, h.length]
  · have hadd : (s.add (Handles.value blocks o)).object j =
        if j = s.objects.length then some (Handles.value blocks o) else s.object j :=
      getElem?_join_concat _ _ j
    rw [hadd, hobject, h.length]
    by_cases hj : j = t.objects.length
    · rw [if_pos hj, if_pos hj, Option.map_some]
    · rw [if_neg hj, if_neg hj, h.shows]
      cases hp : t.object j with
      | none => rfl
      | some p => rw [Option.map_some, Option.map_some, hsame j p hp]
  · rw [hobject] at hp
    by_cases hj : j = t.objects.length
    · rw [if_pos hj, Option.some.injEq] at hp
      exact (hnew a (hp ▸ ha)).1
    · rw [if_neg hj] at hp
      have halive := h.alive j p a hp ha
      rwa [hothers a halive]
  · rw [hobject] at hp hq
    -- the pointer of the new object is to no block of an old one
    have hfresh (k : Nat) (q : Handle α) (hq : t.object k = some q) (hb : q.pointer = some a) :
        o.pointer ≠ some a := by
      intro ho
      have halive := h.alive k q a hq hb
      rw [(hnew a ho).2] at halive
      cases halive
    by_cases hj : j = t.objects.length
    · by_cases hk : k = t.objects.length
      · exact hj.trans hk.symm
      · rw [if_pos hj, Option.some.injEq] at hp
        rw [if_neg hk] at hq
        exact absurd (hp ▸ ha) (hfresh k q hq hb)
    · rw [if_neg hj] at hp
      by_cases hk : k = t.objects.length
      · rw [if_pos hk, Option.some.injEq] at hq
        exact absurd (hq ▸ hb) (hfresh j p hp ha)
      · rw [if_neg hk] at hq
        exact h.apart j k p q a hp hq ha hb
  · rw [hlive, h.live, owned_add, Handles.isSome_value fun a ha => (hnew a ha).1]

/-- An object that is changed, or destroyed, with whatever becomes of its block. -/
theorem put (h : Rel s t) (hi : t.object i = some o) (o' : Option (Handle α)) {blocks : Blocks β}
    (hothers : ∀ a, o.pointer ≠ some a → blocks.get? a = t.blocks.get? a)
    (hpointer : ∀ p, o' = some p → p.pointer = o.pointer ∧
      ∀ a, o.pointer = some a → (blocks.get? a).isSome)
    (hlive : blocks.live + (if o.pointer.isSome then 1 else 0) =
      t.blocks.live + if (o'.bind Handle.pointer).isSome then 1 else 0) :
    Rel (s.set i (o'.map (Handles.value blocks))) ⟨t.objects.set i o', blocks⟩ := by
  have hlt : i < t.objects.length := lt_of_getElem?_join hi
  have hobject (j : Nat) : (Handles.mk (t.objects.set i o') blocks).object j =
      if j = i then o' else t.object j := getElem?_join_set hlt _ j
  -- an object other than `i` has another block
  have hne (j : Nat) (p : Handle α) (a : Nat) (hj : j ≠ i) (hp : t.object j = some p)
      (ha : p.pointer = some a) : o.pointer ≠ some a := fun ho =>
    hj (h.apart j i p o a hp hi ha ho)
  refine ⟨?_, fun j => ?_, fun j p a hp ha => ?_, fun j k p q a hp hq ha hb => ?_, ?_⟩
  · simp [Owners.set, h.length]
  · have hset : (s.set i (o'.map (Handles.value blocks))).object j =
        if j = i then o'.map (Handles.value blocks) else s.object j :=
      getElem?_join_set (h.length ▸ hlt) _ j
    rw [hset, hobject]
    by_cases hj : j = i
    · rw [if_pos hj, if_pos hj]
    · rw [if_neg hj, if_neg hj, h.shows]
      cases hp : t.object j with
      | none => rfl
      | some p =>
          rw [Option.map_some, Option.map_some,
            Handles.value_congr fun a ha => hothers a (hne j p a hj hp ha)]
  · rw [hobject] at hp
    by_cases hj : j = i
    · rw [if_pos hj] at hp
      obtain ⟨hsame, halive⟩ := hpointer p hp
      exact halive a (hsame ▸ ha)
    · rw [if_neg hj] at hp
      rw [hothers a (hne j p a hj hp ha)]
      exact h.alive j p a hp ha
  · -- the objects have the pointers that they had
    have hold (j : Nat) (p : Handle α)
        (hp : (Handles.mk (t.objects.set i o') blocks).object j = some p) :
        ∃ p₀, t.object j = some p₀ ∧ p.pointer = p₀.pointer := by
      rw [hobject] at hp
      by_cases hj : j = i
      · rw [if_pos hj] at hp
        exact ⟨o, hj ▸ hi, (hpointer p hp).1⟩
      · rw [if_neg hj] at hp
        exact ⟨p, hp, rfl⟩
    obtain ⟨p₀, hp₀, hsame⟩ := hold j p hp
    obtain ⟨q₀, hq₀, hsame'⟩ := hold k q hq
    exact h.apart j k p₀ q₀ a hp₀ hq₀ (hsame ▸ ha) (hsame' ▸ hb)
  · have hold := Handles.isSome_value fun a ha => h.alive i o a hi ha
    have hnew : ((o'.map (Handles.value blocks)).bind Prod.snd).isSome =
        (o'.bind Handle.pointer).isSome := by
      cases ho' : o' with
      | none => rfl
      | some p =>
          obtain ⟨hsame, halive⟩ := hpointer p ho'
          exact Handles.isSome_value fun a ha => halive a (hsame ▸ ha)
    have howned := owned_set (h.object hi) (o'.map (Handles.value blocks))
    rw [hold, hnew, ← h.live] at howned
    exact Nat.add_right_cancel (hlive.trans howned.symm)

/-! ### One call -/

variable {r : Option ρ × Owners α β}

theorem construct (h : Rel s t) {made : Option (α × Option β)}
    (hs : s.step M (.construct made) = some r) :
    ∃ t', t.step M (.construct made) = some (r.1, t') ∧ Rel r.2 t' := by
  obtain ⟨⟨own, block⟩, hmade, rfl⟩ := Option.map_eq_some_iff.mp hs
  subst hmade
  cases block with
  | none =>
      refine ⟨_, rfl, ?_⟩
      exact h.add (o := ⟨own, none⟩) (fun _ _ => rfl) (fun a ha => by cases ha) rfl
  | some b =>
      have hnew : Handles.value (t.blocks.push b) ⟨own, some t.blocks.cells.length⟩ =
          (own, some b) := Handles.value_of_some rfl (Blocks.get?_push_same _ _)
      have hnone : t.blocks.get? t.blocks.cells.length = none := by simp [Blocks.get?]
      refine ⟨_, rfl, ?_⟩
      rw [← hnew]
      refine h.add (fun a ha => ?_) (fun a ha => ?_) (Blocks.live_push _ _)
      · refine Blocks.get?_push_of_ne fun heq => ?_
        rw [heq, hnone] at ha
        cases ha
      · cases ha
        rw [Blocks.get?_push_same]
        exact ⟨rfl, hnone⟩

theorem copy (h : Rel s t) (hs : s.step M (.copy i) = some r) :
    ∃ t', t.step M (.copy i) = some (r.1, t') ∧ Rel r.2 t' := by
  obtain ⟨v, hv, hs⟩ := Option.bind_eq_some_iff.mp hs
  obtain ⟨o, ho, rfl⟩ := h.exists_object hv
  by_cases hnull : (Handles.value t.blocks o).2.isNone
  · rw [if_pos hnull, Option.some.injEq] at hs
    subst hs
    have hp : o.pointer = none := by
      have hsome := Handles.isSome_value fun a ha => h.alive i o a ho ha
      rwa [Option.isNone_iff_eq_none.mp hnull, Option.isSome_none, eq_comm,
        Option.isSome_eq_false_iff, Option.isNone_iff_eq_none] at hsome
    refine ⟨⟨t.objects ++ [some o], t.blocks⟩, by rw [Handles.step, ho]; rfl, ?_⟩
    refine h.add (fun _ _ => rfl) (fun a ha => ?_) (by rw [hp]; rfl)
    rw [hp] at ha
    cases ha
  · rw [if_neg hnull] at hs
    cases hs

theorem destroy (h : Rel s t) (hs : s.step M (.destroy i) = some r) :
    ∃ t', t.step M (.destroy i) = some (r.1, t') ∧ Rel r.2 t' := by
  obtain ⟨v, hv, rfl⟩ := Option.map_eq_some_iff.mp hs
  obtain ⟨o, ho, rfl⟩ := h.exists_object hv
  cases hp : o.pointer with
  | none =>
      refine ⟨⟨t.objects.set i none, t.blocks⟩, ?_, ?_⟩
      · rw [Handles.step, ho, Option.bind_some, hp]
        rfl
      · exact h.put ho none (fun _ _ => rfl) (fun p hp' => by cases hp') (by rw [hp]; rfl)
  | some a =>
      have halive := h.alive i o a ho hp
      obtain ⟨b, hb⟩ := Option.isSome_iff_exists.mp halive
      refine ⟨⟨t.objects.set i none, t.blocks.erase a⟩, ?_, ?_⟩
      · rw [Handles.step, ho, Option.bind_some, hp, Handles.free, if_pos halive]
        rfl
      · refine h.put ho none (fun a' ha' => ?_) (fun p hp' => by cases hp') ?_
        · exact Blocks.get?_erase_of_ne fun heq => ha' (heq ▸ hp)
        · rw [hp]
          exact Blocks.live_erase hb

theorem call (h : Rel s t) {method : γ} (hs : s.step M (.call i method) = some r) :
    ∃ t', t.step M (.call i method) = some (r.1, t') ∧ Rel r.2 t' := by
  obtain ⟨v, hv, hs⟩ := Option.bind_eq_some_iff.mp hs
  obtain ⟨o, ho, rfl⟩ := h.exists_object hv
  cases hp : o.pointer with
  | none =>
      rw [Handles.value_of_none hp] at hs
      obtain ⟨x, hx, rfl⟩ := Option.map_eq_some_iff.mp hs
      have hx' : M.runNull method o.own = some x := hx
      refine ⟨⟨t.objects.set i (some ⟨x.2, none⟩), t.blocks⟩, ?_, ?_⟩
      · rw [Handles.step, ho, Option.bind_some, hp]
        simp only [hx', Option.map_some]
      · refine h.put ho (some ⟨x.2, none⟩) (fun _ _ => rfl) (fun p hp' => ?_) (by rw [hp]; rfl)
        cases hp'
        refine ⟨hp.symm, fun a ha => ?_⟩
        rw [hp] at ha
        cases ha
  | some a =>
      obtain ⟨b, hb⟩ := Option.isSome_iff_exists.mp (h.alive i o a ho hp)
      rw [Handles.value_of_some hp hb] at hs
      obtain ⟨x, hx, rfl⟩ := Option.map_eq_some_iff.mp hs
      have hx' : M.run method o.own b = some x := hx
      have hput : (t.blocks.put a x.2.2).get? a = some x.2.2 :=
        Blocks.get?_put_same (Blocks.lt_of_get? hb)
      refine ⟨⟨t.objects.set i (some ⟨x.2.1, some a⟩), t.blocks.put a x.2.2⟩, ?_, ?_⟩
      · rw [Handles.step, ho, Option.bind_some, hp]
        simp only [hb, Option.bind_some, hx', Option.map_some]
      · have hvalue : Handles.value (t.blocks.put a x.2.2) ⟨x.2.1, some a⟩ =
            (x.2.1, some x.2.2) := Handles.value_of_some rfl hput
        show Rel (s.set i (some (x.2.1, some x.2.2))) _
        rw [← hvalue]
        refine h.put ho (some ⟨x.2.1, some a⟩) (fun a' ha' => ?_) (fun p hp' => ?_) ?_
        · exact Blocks.get?_put_of_ne fun heq => ha' (heq ▸ hp)
        · cases hp'
          refine ⟨hp.symm, fun a' ha' => ?_⟩
          rw [hp] at ha'
          cases ha'
          rw [hput]
          rfl
        · rw [hp]
          exact congrArg (· + 1) (Blocks.live_put hb _)

/-- **The step lemma**: what owners do, handles do. -/
theorem step (h : Rel s t) {c : ObjectCall α β γ} (hs : s.step M c = some r) :
    ∃ t', t.step M c = some (r.1, t') ∧ Rel r.2 t' := by
  cases c with
  | construct made => exact h.construct hs
  | copy i => exact h.copy hs
  | destroy i => exact h.destroy hs
  | call i method => exact h.call hs

/-- The run lemma. -/
theorem runAll (h : Rel s t) {cs : List (ObjectCall α β γ)} {rs : List (Option ρ)}
    {s' : Owners α β} (hs : s.runAll M cs = some (rs, s')) :
    ∃ t', t.runAll M cs = some (rs, t') ∧ Rel s' t' := by
  induction cs generalizing s t rs with
  | nil =>
      cases hs
      exact ⟨t, rfl, h⟩
  | cons c cs ih =>
      obtain ⟨⟨reply, s₁⟩, hstep, hs⟩ := Option.bind_eq_some_iff.mp hs
      obtain ⟨⟨replies, s₂⟩, hrest, heq⟩ := Option.map_eq_some_iff.mp hs
      cases heq
      obtain ⟨t₁, hstep', h₁⟩ := h.step hstep
      obtain ⟨t₂, hrest', h₂⟩ := ih h₁ hrest
      exact ⟨t₂, by rw [Handles.runAll, hstep', Option.bind_some, hrest', Option.map_some], h₂⟩

end Rel

end Owners

/-! ## Tangled handles -/

namespace Handles

variable {M : Methods α β γ ρ} {s : Owners α β} {t t' : Handles α β} {c : ObjectCall α β γ}
  {r : Option ρ}

/-- Some object has a pointer to a block that is gone, or one that another object has as well. -/
def Tangled (t : Handles α β) : Prop :=
  ∃ i o a, t.object i = some o ∧ o.pointer = some a ∧
    (a < t.blocks.cells.length ∧ t.blocks.get? a = none ∨
      ∃ j p, j ≠ i ∧ t.object j = some p ∧ p.pointer = some a)

theorem not_clean_of_tangled (h : Tangled t) : ¬ t.Clean := by
  obtain ⟨i, o, a, ho, -⟩ := h
  intro hclean
  have hnone : t.object i = none := forall_eq_none_iff.mp hclean i
  rw [ho] at hnone
  cases hnone

/-- Everything that a call can do: no block comes back, and an object keeps its pointer unless it
is the one that is destroyed; its block was there then, and is gone now. -/
structure Steps (c : ObjectCall α β γ) (t t' : Handles α β) : Prop where
  later : Blocks.Later t.blocks t'.blocks
  object : ∀ i o, t.object i = some o →
    (∃ o', t'.object i = some o' ∧ o'.pointer = o.pointer) ∨
      c = .destroy i ∧ ∀ a, o.pointer = some a →
        (t.blocks.get? a).isSome ∧ t'.blocks.get? a = none

theorem Steps.add (hlater : Blocks.Later t.blocks t'.blocks) {o : Handle α}
    (hobjects : t'.objects = t.objects ++ [some o]) : Steps c t t' := by
  refine ⟨hlater, fun i p hp => .inl ⟨p, ?_, rfl⟩⟩
  have hlt : i < t.objects.length := lt_of_getElem?_join hp
  rw [Handles.object, hobjects, getElem?_join_concat, if_neg (Nat.ne_of_lt hlt)]
  exact hp

theorem Steps.put (hlater : Blocks.Later t.blocks t'.blocks) {i : Nat} {o o' : Handle α}
    (hi : t.object i = some o) (hobjects : t'.objects = t.objects.set i (some o'))
    (hpointer : o'.pointer = o.pointer) : Steps c t t' := by
  have hlt : i < t.objects.length := lt_of_getElem?_join hi
  refine ⟨hlater, fun j p hp => .inl ?_⟩
  rw [Handles.object, hobjects, getElem?_join_set hlt]
  by_cases hj : j = i
  · rw [hj, hi] at hp
    cases hp
    exact ⟨o', if_pos hj, hpointer⟩
  · exact ⟨p, by rw [if_neg hj]; exact hp, rfl⟩

theorem steps_of_step (h : t.step M c = some (r, t')) : Steps c t t' := by
  cases c with
  | construct made =>
      obtain ⟨⟨own, block⟩, -, heq⟩ := Option.map_eq_some_iff.mp h
      cases block with
      | none =>
          cases heq
          exact .add (Blocks.Later.refl _) rfl
      | some b =>
          cases heq
          exact .add (Blocks.Later.push _ _) rfl
  | copy i =>
      obtain ⟨o, -, heq⟩ := Option.map_eq_some_iff.mp h
      cases heq
      exact .add (Blocks.Later.refl _) rfl
  | destroy i =>
      obtain ⟨o, ho, h⟩ := Option.bind_eq_some_iff.mp h
      obtain ⟨blocks, hfree, heq⟩ := Option.map_eq_some_iff.mp h
      cases heq
      have hlt : i < t.objects.length := lt_of_getElem?_join ho
      obtain ⟨hlater, hfreed⟩ := later_of_free hfree
      refine ⟨hlater, fun j p hp => ?_⟩
      by_cases hj : j = i
      · subst hj
        rw [ho] at hp
        cases hp
        exact .inr ⟨rfl, hfreed⟩
      · left
        refine ⟨p, ?_, rfl⟩
        rw [Handles.object, getElem?_join_set hlt, if_neg hj]
        exact hp
  | call i method =>
      obtain ⟨o, ho, h⟩ := Option.bind_eq_some_iff.mp h
      cases hp : o.pointer with
      | none =>
          rw [hp] at h
          obtain ⟨x, -, heq⟩ := Option.map_eq_some_iff.mp h
          cases heq
          exact .put (Blocks.Later.refl _) ho rfl hp.symm
      | some a =>
          rw [hp] at h
          obtain ⟨b, hb, h⟩ := Option.bind_eq_some_iff.mp h
          obtain ⟨x, -, heq⟩ := Option.map_eq_some_iff.mp h
          cases heq
          exact .put (Blocks.Later.put (by rw [hb]; rfl)) ho rfl hp.symm

/-- **Nothing disentangles the objects.** -/
theorem Tangled.step (h : Tangled t) (ht : t.step M c = some (r, t')) : Tangled t' := by
  have hsteps := steps_of_step ht
  obtain ⟨i, o, a, ho, ha, hwhy⟩ := h
  rcases hsteps.object i o ho with ⟨o', ho', hpointer⟩ | ⟨rfl, hfreed⟩
  · refine ⟨i, o', a, ho', hpointer.trans ha, ?_⟩
    rcases hwhy with ⟨hlt, hgone⟩ | ⟨j, p, hj, hp, hb⟩
    · exact .inl ⟨Nat.lt_of_lt_of_le hlt hsteps.later.length_le, hsteps.later.gone a hlt hgone⟩
    · rcases hsteps.object j p hp with ⟨p', hp', hsame⟩ | ⟨-, hfreed⟩
      · exact .inr ⟨j, p', hj, hp', hsame.trans hb⟩
      · obtain ⟨halive, hgone⟩ := hfreed a hb
        obtain ⟨b, hb⟩ := Option.isSome_iff_exists.mp halive
        exact .inl ⟨Nat.lt_of_lt_of_le (Blocks.lt_of_get? hb) hsteps.later.length_le, hgone⟩
  · obtain ⟨halive, hgone⟩ := hfreed a ha
    obtain ⟨b, hb'⟩ := Option.isSome_iff_exists.mp halive
    rcases hwhy with ⟨-, hdead⟩ | ⟨j, p, hj, hp, hb⟩
    · rw [hdead] at hb'
      cases hb'
    · -- the other object is left with the pointer
      rcases hsteps.object j p hp with ⟨p', hp', hsame⟩ | ⟨heq, -⟩
      · exact ⟨j, p', a, hp', hsame.trans hb,
          .inl ⟨Nat.lt_of_lt_of_le (Blocks.lt_of_get? hb') hsteps.later.length_le, hgone⟩⟩
      · exact absurd (ObjectCall.destroy.inj heq).symm hj

theorem Tangled.runAll (h : Tangled t) {cs : List (ObjectCall α β γ)} {rs : List (Option ρ)}
    (ht : t.runAll M cs = some (rs, t')) : Tangled t' := by
  induction cs generalizing t rs with
  | nil =>
      cases ht
      exact h
  | cons c cs ih =>
      obtain ⟨⟨reply, t₁⟩, hstep, ht⟩ := Option.bind_eq_some_iff.mp ht
      obtain ⟨⟨replies, t₂⟩, hrest, heq⟩ := Option.map_eq_some_iff.mp ht
      cases heq
      exact ih (h.step hstep) hrest

/-- What owners do not do tangles handles, if it does not stop them. -/
theorem tangled_of_step (h : Owners.Rel s t) (hs : s.step M c = none)
    (ht : t.step M c = some (r, t')) : Tangled t' := by
  cases c with
  | construct made =>
      cases Option.map_eq_none_iff.mp hs
      cases ht
  | copy i =>
      obtain ⟨o, ho, heq⟩ := Option.map_eq_some_iff.mp ht
      cases heq
      rw [Owners.step, h.object ho, Option.bind_some] at hs
      cases hp : o.pointer with
      | none =>
          rw [value_of_none hp] at hs
          cases hs
      | some a =>
          have hlt : i < t.objects.length := lt_of_getElem?_join ho
          have hobject (j : Nat) : (Handles.mk (t.objects ++ [some o]) t.blocks).object j =
              if j = t.objects.length then some o else t.object j := getElem?_join_concat _ _ j
          refine ⟨i, o, a, ?_, hp, .inr ⟨t.objects.length, o, Nat.ne_of_gt hlt, ?_, hp⟩⟩
          · rw [hobject, if_neg (Nat.ne_of_lt hlt)]
            exact ho
          · rw [hobject, if_pos rfl]
  | destroy i =>
      obtain ⟨o, ho, -⟩ := Option.bind_eq_some_iff.mp ht
      rw [Owners.step, h.object ho] at hs
      cases hs
  | call i method =>
      obtain ⟨o, ho, ht⟩ := Option.bind_eq_some_iff.mp ht
      rw [Owners.step, h.object ho, Option.bind_some] at hs
      cases hp : o.pointer with
      | none =>
          rw [hp] at ht
          rw [value_of_none hp] at hs
          have hs' : M.runNull method o.own = none := Option.map_eq_none_iff.mp hs
          simp only [hs'] at ht
          cases ht
      | some a =>
          rw [hp] at ht
          obtain ⟨b, hb, ht⟩ := Option.bind_eq_some_iff.mp ht
          rw [value_of_some hp hb] at hs
          have hs' : M.run method o.own b = none := Option.map_eq_none_iff.mp hs
          rw [hs'] at ht
          cases ht

/-- A program that destroys all objects in the end is one of owners. -/
theorem runAll_owners (h : Owners.Rel s t) {cs : List (ObjectCall α β γ)} {rs : List (Option ρ)}
    (ht : t.runAll M cs = some (rs, t')) (hclean : t'.Clean) :
    ∃ s', s.runAll M cs = some (rs, s') ∧ Owners.Rel s' t' := by
  induction cs generalizing s t rs with
  | nil =>
      cases ht
      exact ⟨s, rfl, h⟩
  | cons c cs ih =>
      obtain ⟨⟨reply, t₁⟩, hstep, ht⟩ := Option.bind_eq_some_iff.mp ht
      obtain ⟨⟨replies, t₂⟩, hrest, heq⟩ := Option.map_eq_some_iff.mp ht
      cases heq
      cases hs : s.step M c with
      | none =>
          have htangled := (tangled_of_step h hs hstep).runAll hrest
          exact absurd hclean (not_clean_of_tangled htangled)
      | some r =>
          obtain ⟨t₁', hstep', h₁⟩ := h.step hs
          cases hstep.symm.trans hstep'
          obtain ⟨s', hrest', h'⟩ := ih h₁ hrest
          exact ⟨s', by rw [Owners.runAll, hs, Option.bind_some, hrest', Option.map_some], h'⟩

theorem clean_iff_of_rel (h : Owners.Rel s t) : t.Clean ↔ s.Clean := by
  refine forall_eq_none_iff.trans (Iff.trans ?_ forall_eq_none_iff.symm)
  refine forall_congr' fun i => ?_
  show t.object i = none ↔ s.object i = none
  rw [h.shows, Option.map_eq_none_iff]

theorem live_of_clean (h : Owners.Rel s t) (hclean : s.Clean) : t.blocks.live = 0 := by
  rw [h.live, Owners.owned, List.countP_eq_zero]
  intro o ho
  rw [hclean o ho]
  simp

/-- Where all objects have been destroyed no block is left. -/
theorem live_of_runAll {cs : List (ObjectCall α β γ)} {rs : List (Option ρ)} {t : Handles α β}
    (ht : start.runAll M cs = some (rs, t)) (hclean : t.Clean) : t.blocks.live = 0 := by
  obtain ⟨s, -, h⟩ := runAll_owners Owners.Rel.start ht hclean
  exact live_of_clean h ((clean_iff_of_rel h).mp hclean)

/-- **Programs that destroy all objects in the end** are the same for handles and for owners. -/
theorem clean_iff (M : Methods α β γ ρ) (cs : List (ObjectCall α β γ)) (rs : List (Option ρ)) :
    (∃ t : Handles α β, start.runAll M cs = some (rs, t) ∧ t.Clean) ↔
      ∃ s : Owners α β, Owners.start.runAll M cs = some (rs, s) ∧ s.Clean := by
  constructor
  · rintro ⟨t, ht, hclean⟩
    obtain ⟨s, hs, h⟩ := runAll_owners Owners.Rel.start ht hclean
    exact ⟨s, hs, (clean_iff_of_rel h).mp hclean⟩
  · rintro ⟨s, hs, hclean⟩
    obtain ⟨t, ht, h⟩ := Owners.Rel.start.runAll hs
    exact ⟨t, ht, (clean_iff_of_rel h).mpr hclean⟩

end Handles
