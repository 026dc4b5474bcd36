import Kcmsg.Configuration.Lifetimes

/-!
# Maps of properties in memory

`PropertyMap` is the map of properties as it is laid out: a property in it points to a block, a
copy of the map points to the same blocks, and the end of a map destroys each of its properties.
Every map is passed by value here, so every activation of the walk ends the life of a copy.

Such a walk is safe for a map that owns nothing only, and then it does what `Kcmsg.mapProperties`
says (`run_mapProperties_iff`): the blocks it allocates for values are gone when it returns, and
for every value that it inserts one `Property` is left behind that nothing points to.
-/

namespace Kcmsg

/-- A map in the order of its iteration. -/
abbrev PropertyMap : Type := List (String × PropertyObject)

namespace PropertyMap

def get? (props : PropertyMap) (key : String) : Option PropertyObject := props.lookup key

/-- `props[key] = p`: a pointer that was under the key is overwritten. -/
def set (key : String) (p : PropertyObject) : PropertyMap → PropertyMap
  | [] => [(key, p)]
  | (k, q) :: props => if k = key then (k, p) :: props else (k, q) :: set key p props

/-- `for (auto &it : props) properties[it.first] = it.second;` -/
def overwrite (properties props : PropertyMap) : PropertyMap :=
  props.foldl (fun properties it => properties.set it.1 it.2) properties

/-- The end of a map. -/
def destroy : PropertyMap → Program (Blocks Content) Unit
  | [] => pure ()
  | it :: props => do
      it.2.destroy
      destroy props

/-! ## The walk -/

def insertProperty (kp vp : List String) (props : PropertyMap) :
    Program (Blocks Content) Unit := do
  let key := joinKey kp
  match vp with
  | [] =>
      let _ ← Program.orFault (popBack kp)
      props.destroy
  | [v] =>
      let ptr ← Blocks.new (.string v)
      let p : PropertyObject := ⟨PROP_TYPE_STRING, some ptr⟩
      let _ ← Blocks.new (.property p)
      (props.set key p).destroy
  | vs =>
      let ptr ← Blocks.new (.vector vs)
      let p : PropertyObject := ⟨PROP_TYPE_STRING_ARRAY, some ptr⟩
      let _ ← Blocks.new (.property p)
      (props.set key p).destroy

/-- The body of the loop for one child, up to the recursive call. -/
def visit (props : PropertyMap) (s : Locals) (key data : String) (size : Nat) :
    Program (Blocks Content) Locals := do
  let n := UInt32.ofNat size
  let kp := if key = "" then s.kp else s.kp ++ [key]
  let vp := if data = "" then s.vp else s.vp ++ [data]
  if n = 0 then
    match s.num with
    | [] => Program.orFault none
    | m :: num =>
        if key = "" then
          if m - 1 = 0 then
            insertProperty kp vp props
            Program.orFault (popZeros kp [] (m - 1) num)
          else Program.orFault (popZeros kp vp (m - 1) num)
        else
          insertProperty kp vp props
          let popped ← Program.orFault (popBack kp)
          Program.orFault (popZeros popped [] (m - 1) num)
  else Program.orFault (popZeros kp vp n s.num)

/-- The loop of one activation. -/
def walk (props : PropertyMap) (s : Locals) : Children → Program (Blocks Content) Unit
  | .nil => pure ()
  | .cons key data sub rest => do
      let s ← visit props s key data sub.size
      -- the recursive call, which ends with the end of its own copy of the map
      walk props s sub
      props.destroy
      walk props s rest

def mapProperties (props : PropertyMap) (s : Locals) (cs : Children) :
    Program (Blocks Content) Unit := do
  walk props s cs
  props.destroy

end PropertyMap

/-! ## Owners -/

/-- The block that the destructor of a property releases, if it releases one. -/
def PropertyObject.owner (p : PropertyObject) : Option (Nat × ContentKind) :=
  p.value.bind fun a => (storedKind p.value_type).map fun k => (a, k)

namespace PropertyMap

def owners (props : PropertyMap) : List (Nat × ContentKind) :=
  props.filterMap fun it => it.2.owner

variable {props : PropertyMap} {h h' : Blocks Content}

theorem owners_nil : owners [] = [] := rfl

theorem owners_cons (it : String × PropertyObject) (props : PropertyMap) :
    owners (it :: props) = it.2.owner.toList ++ owners props := by
  cases ho : it.2.owner <;> simp [owners, ho]

theorem destroy_object_eq (p : PropertyObject) :
    p.destroy = match p.owner with
      | some o => Blocks.release Content.kind o
      | none => pure () := by
  cases ha : p.value with
  | none => simp only [PropertyObject.destroy, PropertyObject.owner, ha, Option.bind_none]
  | some a =>
      rw [PropertyObject.destroy_eq p ha]
      cases hk : storedKind p.value_type with
      | none => simp only [PropertyObject.owner, ha, hk, Option.bind_some, Option.map_none]
      | some k => simp only [PropertyObject.owner, ha, hk, Option.bind_some, Option.map_some]

/-- The end of a map releases what the map owns. -/
theorem run_destroy_eq (props : PropertyMap) (h : Blocks Content) :
    props.destroy.run h = (Blocks.releaseAll Content.kind props.owners).run h := by
  induction props generalizing h with
  | nil => rfl
  | cons it props ih =>
      rw [destroy, destroy_object_eq]
      cases ho : it.2.owner with
      | none =>
          have howners : owners (it :: props) = owners props := by
            rw [owners_cons, ho]
            rfl
          rw [howners, ← ih h]
          rfl
      | some o =>
          have howners : owners (it :: props) = o :: owners props := by
            rw [owners_cons, ho]
            rfl
          rw [howners, Blocks.releaseAll]
          by_cases hlive : (h.get? o.1).map Content.kind = some o.2
          · simp only [Program.run_bind_returns _ (Blocks.run_release hlive), ih]
          · simp only [Program.run_bind_faults _ (Blocks.run_release_faults hlive)]

/-- A map that owns nothing ends without a trace. -/
theorem run_destroy (hno : props.owners = []) (h : Blocks Content) :
    props.destroy.run h = .returns () h := by
  rw [run_destroy_eq, hno]
  rfl

theorem owners_set (hno : props.owners = []) (key : String) (p : PropertyObject) :
    (props.set key p).owners = p.owner.toList := by
  induction props with
  | nil => rw [set, owners_cons, owners_nil, List.append_nil]
  | cons it props ih =>
      rw [owners_cons, List.append_eq_nil_iff] at hno
      obtain ⟨hit, hrest⟩ := hno
      by_cases hk : it.1 = key
      · rw [set, if_pos hk, owners_cons, hrest, List.append_nil]
      · rw [set, if_neg hk, owners_cons, hit, List.nil_append]
        exact ih hrest

end PropertyMap

/-! ## What a walk leaves behind -/

/-- The block of a value, released, and the `Property` that was allocated to hold it. -/
def leave (ptype : UInt8) (h : Blocks Content) : Blocks Content :=
  ⟨h.cells ++ [none, some (.property ⟨ptype, some h.cells.length⟩)]⟩

namespace InsertCall

/-- What a call of `insertProperty` leaves behind. -/
def leave (h : Blocks Content) (c : InsertCall) : Blocks Content :=
  match c.vp with
  | [] => h
  | [_] => Kcmsg.leave PROP_TYPE_STRING h
  | _ => Kcmsg.leave PROP_TYPE_STRING_ARRAY h

def leaveAll (h : Blocks Content) (calls : List InsertCall) : Blocks Content := calls.foldl leave h

/-- The calls that have a value to insert. -/
def inserting (calls : List InsertCall) : Nat := calls.countP fun c => c.vp ≠ []

theorem live_leave (h : Blocks Content) (c : InsertCall) :
    (c.leave h).live = h.live + inserting [c] := by
  obtain ⟨kp, vp⟩ := c
  match vp with
  | [] => rfl
  | [_] => simp [leave, Kcmsg.leave, Blocks.live, inserting]
  | _ :: _ :: _ => simp [leave, Kcmsg.leave, Blocks.live, inserting]

theorem live_leaveAll (h : Blocks Content) (calls : List InsertCall) :
    (leaveAll h calls).live = h.live + inserting calls := by
  induction calls generalizing h with
  | nil => rfl
  | cons c calls ih =>
      have hlive := live_leave h c
      have hrest := ih (c.leave h)
      simp only [inserting, List.countP_cons, List.countP_nil] at hlive hrest ⊢
      rw [leaveAll, List.foldl_cons]
      unfold leaveAll at hrest
      omega

end InsertCall

namespace PropertyMap

variable {props : PropertyMap} {h h' : Blocks Content}

/-- The steps of `insertProperty` that have a value to insert. -/
def insertValue (content : Content) (ptype : UInt8) (key : String) (props : PropertyMap) :
    Program (Blocks Content) Unit := do
  let ptr ← Blocks.new content
  let p : PropertyObject := ⟨ptype, some ptr⟩
  let _ ← Blocks.new (.property p)
  (props.set key p).destroy

theorem run_insertValue (hno : props.owners = []) (content : Content) {ptype : UInt8}
    (hkind : storedKind ptype = some content.kind) (key : String) (h : Blocks Content) :
    (insertValue content ptype key props).run h = .returns () (leave ptype h) := by
  let p : PropertyObject := ⟨ptype, some h.cells.length⟩
  have howner : p.owner = some (h.cells.length, content.kind) := by
    simp only [PropertyObject.owner, p, hkind, Option.bind_some, Option.map_some]
  have hne : h.cells.length ≠ (h.push content).cells.length := by simp [Blocks.push]
  have hget : ((h.push content).push (.property p)).get? h.cells.length = some content := by
    rw [Blocks.get?_push_of_ne hne, Blocks.get?_push_same]
  have herase : ((h.push content).push (.property p)).erase h.cells.length = leave ptype h := by
    simp [Blocks.erase, Blocks.push, leave, p]
  rw [insertValue, Program.run_bind_returns _ (Blocks.run_new _ _),
    Program.run_bind_returns _ (Blocks.run_new _ _), run_destroy_eq, owners_set hno, howner]
  have hrelease : (Blocks.release Content.kind (h.cells.length, content.kind)).run
      ((h.push content).push (.property p)) = .returns () (leave ptype h) := by
    rw [← herase]
    exact Blocks.run_release (by rw [hget]; rfl)
  exact Program.run_bind_returns _ hrelease

/-! ## The walk of a map that owns nothing -/

/-- Go on with the value where there is one, fault where there is none. -/
def outcome {α β : Type} (x : Option α) (f : α → β) (h : α → Blocks Content) :
    Outcome (Blocks Content) β :=
  match x with
  | some a => .returns (f a) (h a)
  | none => .faults

/-- **`insertProperty`** comes to nothing but what it leaves behind. -/
theorem run_insertProperty (hno : props.owners = []) (kp vp : List String) (store : Store)
    (h : Blocks Content) :
    (insertProperty kp vp props).run h =
      outcome (Kcmsg.insertProperty kp vp store) (fun _ => ())
        fun _ => InsertCall.leave h ⟨kp, vp⟩ := by
  match vp with
  | [] =>
      rw [insertProperty, Kcmsg.insertProperty]
      cases popBack kp with
      | none => rfl
      | some popped => exact run_destroy hno h
  | [v] => exact run_insertValue hno (.string v) (if_pos rfl) (joinKey kp) h
  | v :: w :: vs =>
      have hkind : storedKind PROP_TYPE_STRING_ARRAY = some .vector :=
        (if_neg (Ne.symm string_ne_stringArray)).trans (if_pos rfl)
      exact run_insertValue hno (.vector (v :: w :: vs)) hkind (joinKey kp) h

theorem run_orFault (x : Option Locals) (h : Blocks Content) :
    (Program.orFault x : Program (Blocks Content) Locals).run h = outcome x id fun _ => h := by
  cases x <;> rfl

/-- What comes after a call of `insertProperty`. -/
theorem run_insertProperty_bind (hno : props.owners = []) (kp vp : List String) (store : Store)
    (h : Blocks Content) {β : Type} (f : Program (Blocks Content) β) :
    (insertProperty kp vp props >>= fun _ => f).run h =
      match Kcmsg.insertProperty kp vp store with
      | some _ => f.run (InsertCall.leave h ⟨kp, vp⟩)
      | none => .faults := by
  have hinsert := run_insertProperty hno kp vp store h
  cases hi : Kcmsg.insertProperty kp vp store with
  | none =>
      rw [hi] at hinsert
      exact Program.run_bind_faults _ hinsert
  | some store' =>
      rw [hi] at hinsert
      exact Program.run_bind_returns _ hinsert

theorem run_visit (hno : props.owners = []) (store : Store) (s : Locals) (key data : String)
    (size : Nat) (h : Blocks Content) :
    (visit props s key data size).run h =
      outcome (Kcmsg.visit store s key data size) Prod.snd
        fun r => InsertCall.leaveAll h r.1 := by
  unfold visit Kcmsg.visit
  generalize (if data = "" then s.vp else s.vp ++ [data]) = vp
  by_cases hn : UInt32.ofNat size = 0
  · simp only [if_pos hn]
    cases s.num with
    | nil => rfl
    | cons m num =>
        by_cases hkey : key = ""
        · simp only [if_pos hkey]
          by_cases hm : m - 1 = 0
          · -- the last element of an array
            simp only [if_pos hm]
            rw [run_insertProperty_bind hno s.kp vp store]
            cases Kcmsg.insertProperty s.kp vp store with
            | none => rfl
            | some store' =>
                simp only [run_orFault]
                cases popZeros s.kp [] (m - 1) num <;> rfl
          · simp only [if_neg hm, run_orFault]
            cases popZeros s.kp vp (m - 1) num <;> rfl
        · simp only [if_neg hkey]
          rw [run_insertProperty_bind hno (s.kp ++ [key]) vp store]
          cases Kcmsg.insertProperty (s.kp ++ [key]) vp store with
          | none => rfl
          | some store' =>
              cases popBack (s.kp ++ [key]) with
              | none => rfl
              | some popped =>
                  simp only [Program.run_bind_returns _ (Program.run_orFault_some popped _),
                    run_orFault]
                  cases hz : popZeros popped [] (m - 1) num <;> simp [hz, outcome]
                  rfl
  · simp only [if_neg hn, run_orFault]
    cases popZeros _ vp (UInt32.ofNat size) s.num <;> rfl

/-- **The walk refines the walk of values**: it faults where that does, and leaves behind what
the calls of `insertProperty` leave behind. -/
theorem run_walk (hno : props.owners = []) (store : Store) (s : Locals) (cs : Children)
    (h : Blocks Content) :
    (walk props s cs).run h =
      outcome (Kcmsg.mapProperties store s cs) (fun _ => ()) (InsertCall.leaveAll h) := by
  induction cs generalizing s h with
  | nil => rfl
  | cons key data sub rest ihsub ihrest =>
      have hvisit := run_visit hno store s key data sub.size h
      rw [walk, Kcmsg.mapProperties]
      cases hv : Kcmsg.visit store s key data sub.size with
      | none =>
          rw [hv] at hvisit
          exact Program.run_bind_faults _ hvisit
      | some r =>
          obtain ⟨calls, s'⟩ := r
          rw [hv] at hvisit
          rw [Program.run_bind_returns _ hvisit]
          have hsub := ihsub s' (InsertCall.leaveAll h calls)
          cases hb : Kcmsg.mapProperties store s' sub with
          | none =>
              rw [hb] at hsub
              rw [Program.run_bind_faults _ hsub]
              simp [hb, outcome]
          | some below =>
              rw [hb] at hsub
              rw [Program.run_bind_returns _ hsub, Program.run_bind_returns _ (run_destroy hno _),
                ihrest]
              cases ho : Kcmsg.mapProperties store s' rest with
              | none => simp [hb, ho, outcome]
              | some others => simp [hb, ho, outcome, InsertCall.leaveAll, List.foldl_append]

/-! ## Passing a map by value -/

/-- A map that owns something cannot end twice. -/
theorem owners_eq_nil_of_twice {h₁ h₂ : Blocks Content}
    (hfirst : props.destroy.run h = .returns () h₁)
    (hsecond : props.destroy.run h₁ = .returns () h₂) : props.owners = [] := by
  rw [run_destroy_eq] at hfirst hsecond
  obtain ⟨-, rfl⟩ := Blocks.run_releaseAll_iff.mp hfirst
  obtain ⟨howned, -⟩ := Blocks.run_releaseAll_iff.mp hsecond
  cases ho : props.owners with
  | nil => rfl
  | cons o owners =>
      have hmem : o ∈ props.owners := by rw [ho]; exact List.mem_cons_self
      have hlive := howned.live o hmem
      rw [Blocks.get?_eraseAll, if_pos (List.mem_map_of_mem hmem)] at hlive
      cases hlive

/-- What the calls of a walk leave behind: the blocks from before are as they were, and of the
new ones a `Property` is left for every value inserted. -/
structure LeftBehind (h h' : Blocks Content) (calls : List InsertCall) : Prop where
  same : ∀ a < h.cells.length, h'.get? a = h.get? a
  kind : ∀ a c, h.cells.length ≤ a → h'.get? a = some c → c.kind = .property
  live : h'.live = h.live + InsertCall.inserting calls

theorem cells_leave (h : Blocks Content) (c : InsertCall) :
    ∃ new, (c.leave h).cells = h.cells ++ new ∧ ∀ b, some b ∈ new → b.kind = .property := by
  obtain ⟨kp, vp⟩ := c
  match vp with
  | [] => exact ⟨[], (List.append_nil _).symm, by simp⟩
  | [_] => exact ⟨_, rfl, by simp [Content.kind]⟩
  | _ :: _ :: _ => exact ⟨_, rfl, by simp [Content.kind]⟩

theorem cells_leaveAll (h : Blocks Content) (calls : List InsertCall) :
    ∃ new, (InsertCall.leaveAll h calls).cells = h.cells ++ new ∧
      ∀ b, some b ∈ new → b.kind = .property := by
  induction calls generalizing h with
  | nil => exact ⟨[], (List.append_nil _).symm, by simp⟩
  | cons c calls ih =>
      obtain ⟨first, hfirst, hkind⟩ := cells_leave h c
      obtain ⟨new, hnew, hrest⟩ := ih (c.leave h)
      refine ⟨first ++ new, ?_, fun b hb => ?_⟩
      · rw [InsertCall.leaveAll, List.foldl_cons, ← List.append_assoc, ← hfirst]
        exact hnew
      · rcases List.mem_append.mp hb with hb | hb
        · exact hkind b hb
        · exact hrest b hb

theorem leftBehind_leaveAll (h : Blocks Content) (calls : List InsertCall) :
    LeftBehind h (InsertCall.leaveAll h calls) calls := by
  obtain ⟨new, hcells, hkind⟩ := cells_leaveAll h calls
  refine ⟨fun a ha => ?_, fun a c ha hc => ?_, InsertCall.live_leaveAll h calls⟩
  · rw [Blocks.get?, hcells, List.getElem?_append_left ha]
    rfl
  · rw [Blocks.get?, hcells, List.getElem?_append_right ha] at hc
    exact hkind c (List.mem_of_getElem? (Option.join_eq_some_iff.mp hc))

/-- **A caller that passes a map by value and goes on to destroy it comes through exactly when the
map owns nothing and the walk of values is defined.** What it finds then is the memory it had, and
one lost `Property` for every value. -/
theorem run_mapProperties_iff (props : PropertyMap) (store : Store) (s : Locals) (cs : Children)
    (h h' : Blocks Content) :
    ((do mapProperties props s cs; props.destroy).run h = .returns () h' ↔
      props.owners = [] ∧ ∃ calls, Kcmsg.mapProperties store s cs = some calls ∧
        h' = InsertCall.leaveAll h calls) ∧
    ∀ calls, LeftBehind h (InsertCall.leaveAll h calls) calls := by
  refine ⟨?_, leftBehind_leaveAll h⟩
  constructor
  · intro hrun
    obtain ⟨_, h₂, hmap, hcaller⟩ := Program.exists_of_bind_returns hrun
    obtain ⟨_, h₁, hwalk, hcallee⟩ := Program.exists_of_bind_returns hmap
    have hno := owners_eq_nil_of_twice hcallee hcaller
    rw [run_destroy hno] at hcallee hcaller
    cases hcallee
    cases hcaller
    rw [run_walk hno store] at hwalk
    cases hcalls : Kcmsg.mapProperties store s cs with
    | none =>
        rw [hcalls] at hwalk
        cases hwalk
    | some calls =>
        rw [hcalls] at hwalk
        cases hwalk
        exact ⟨hno, calls, rfl, rfl⟩
  · rintro ⟨hno, calls, hcalls, rfl⟩
    have hwalk := run_walk hno store s cs h
    rw [hcalls] at hwalk
    have hmap : (mapProperties props s cs).run h = .returns () (InsertCall.leaveAll h calls) := by
      rw [mapProperties, Program.run_bind_returns _ hwalk]
      exact run_destroy hno _
    rw [Program.run_bind_returns _ hmap]
    exact run_destroy hno _

end PropertyMap

end Kcmsg
