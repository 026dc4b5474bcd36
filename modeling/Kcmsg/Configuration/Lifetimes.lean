import Kcmsg.Configuration.Properties

/-!
# The lifetime of a property

A lifetime goes well exactly when no call of it, and not the destructor, looks for something that
is not behind the pointer (`Careful`). The type and the pointer are all that decides it, so one
lemma for each call says when it goes well and what it makes of the two (`PropertyCall.run_spec`,
`PropertyCall.run_faults`), and an induction on the calls puts them together.
-/

namespace Kcmsg

/-! ## What a call looks for -/

/-- The kind of block that a type stands for. -/
def storedKind (ptype : UInt8) : Option ContentKind :=
  if ptype = PROP_TYPE_STRING then some .string
  else if ptype = PROP_TYPE_STRING_ARRAY then some .vector
  else none

namespace PropertyCall

/-- The kind of block a call expects behind the pointer, where it looks there. -/
def reads (ptype : UInt8) : PropertyCall → Option ContentKind
  | setValue _ => some .string
  | getValue => some .string
  | getValueVector => some .vector
  | dumpProperty => storedKind ptype
  | setType _ => none
  | setValueVector _ => none
  | getType => none

def typeAfter (ptype : UInt8) : PropertyCall → UInt8
  | setType ptype => ptype
  | _ => ptype

def setsVector : PropertyCall → Bool
  | setValueVector _ => true
  | _ => false

/-- The type after a list of calls: the last one set. -/
def typeAfterAll (ptype : UInt8) (calls : List PropertyCall) : UInt8 := calls.foldl typeAfter ptype

end PropertyCall

/-- What a pointer points to. -/
inductive Pointer where
  | null
  | to (kind : ContentKind)
  | dangling
  deriving DecidableEq

def Pointer.after (p : Pointer) (call : PropertyCall) : Pointer :=
  if call.setsVector then .dangling else p

/-- Every call finds what it looks for, and so does the destructor: no vector was set before it,
and the pointer that the object came with is to a block of the kind. The destructor leaves a null
pointer alone. -/
structure Careful (ptype : UInt8) (p : Pointer) (calls : List PropertyCall) : Prop where
  reads : ∀ before call after, calls = before ++ call :: after →
    ∀ k, call.reads (PropertyCall.typeAfterAll ptype before) = some k →
      p = .to k ∧ ∀ c ∈ before, c.setsVector = false
  releases : ∀ k, storedKind (PropertyCall.typeAfterAll ptype calls) = some k →
    (p = .null ∨ p = .to k) ∧ ∀ c ∈ calls, c.setsVector = false

theorem careful_nil {ptype : UInt8} {p : Pointer} :
    Careful ptype p [] ↔ ∀ k, storedKind ptype = some k → p = .null ∨ p = .to k := by
  constructor
  · intro h k hk
    exact (h.releases k hk).1
  · intro h
    refine ⟨fun before call after heq => ?_, fun k hk => ⟨h k hk, fun _ hc => ?_⟩⟩
    · exact absurd heq.symm (List.append_ne_nil_of_right_ne_nil before (List.cons_ne_nil _ _))
    · exact absurd hc List.not_mem_nil

theorem after_eq_iff {p q : Pointer} {call : PropertyCall} (hq : q ≠ .dangling) :
    p.after call = q ↔ p = q ∧ call.setsVector = false := by
  unfold Pointer.after
  cases hset : call.setsVector with
  | true => simp [hq.symm]
  | false => simp

theorem careful_cons {ptype : UInt8} {p : Pointer} {call : PropertyCall}
    {calls : List PropertyCall} :
    Careful ptype p (call :: calls) ↔
      (∀ k, call.reads ptype = some k → p = .to k) ∧
        Careful (call.typeAfter ptype) (p.after call) calls := by
  constructor
  · intro h
    refine ⟨fun k hk => (h.reads [] call calls rfl k hk).1, ⟨?_, ?_⟩⟩
    · intro before c after heq k hk
      obtain ⟨hp, hno⟩ := h.reads (call :: before) c after (congrArg (call :: ·) heq) k hk
      exact ⟨(after_eq_iff (by simp)).mpr ⟨hp, hno call (by simp)⟩,
        fun c hc => hno c (List.mem_cons_of_mem call hc)⟩
    · intro k hk
      obtain ⟨hp, hno⟩ := h.releases k hk
      have hcall := hno call (by simp)
      exact ⟨hp.imp (fun hp => (after_eq_iff (by simp)).mpr ⟨hp, hcall⟩)
        (fun hp => (after_eq_iff (by simp)).mpr ⟨hp, hcall⟩),
        fun c hc => hno c (List.mem_cons_of_mem call hc)⟩
  · rintro ⟨hcall, h⟩
    refine ⟨?_, ?_⟩
    · intro before c after heq k hk
      cases before with
      | nil =>
          cases heq
          exact ⟨hcall k hk, by simp⟩
      | cons first before =>
          cases heq
          obtain ⟨hp, hno⟩ := h.reads before c after rfl k hk
          obtain ⟨hp, hset⟩ := (after_eq_iff (by simp)).mp hp
          exact ⟨hp, List.forall_mem_cons.mpr ⟨hset, hno⟩⟩
    · intro k hk
      obtain ⟨hp, hno⟩ := h.releases k hk
      have hp : (p = .null ∨ p = .to k) ∧ call.setsVector = false := by
        rcases hp with hp | hp
        · exact ((after_eq_iff (by simp)).mp hp).imp_left Or.inl
        · exact ((after_eq_iff (by simp)).mp hp).imp_left Or.inr
      exact ⟨hp.1, List.forall_mem_cons.mpr ⟨hp.2, hno⟩⟩

/-! ## A property as its callers think of it -/

/-- A type, and a value of its own. -/
structure Variable where
  ptype : UInt8
  content : Option Content

namespace Variable

def string (v : Variable) : String :=
  match v.content with
  | some (.string s) => s
  | _ => ""

def vector (v : Variable) : List String :=
  match v.content with
  | some (.vector values) => values
  | _ => []

def text (v : Variable) : String :=
  "( " ++ PropertyObject.typeName v.ptype ++ " ) " ++
    match storedKind v.ptype with
    | some .string => PropertyObject.stringText v.string
    | some .vector => PropertyObject.vectorText v.vector
    | _ => " ????? \n"

def reply (v : Variable) : PropertyCall → PropertyReply
  | .setType _ => .done
  | .setValue _ => .done
  | .setValueVector _ => .done
  | .getType => .type v.ptype
  | .getValue => .value v.string
  | .getValueVector => .values v.vector
  | .dumpProperty => .printed v.text

def next (v : Variable) : PropertyCall → Variable
  | .setType ptype => { v with ptype := ptype }
  | .setValue s => { v with content := some (.string s) }
  | .setValueVector values => { v with content := some (.vector values) }
  | _ => v

def replies (v : Variable) : List PropertyCall → List PropertyReply
  | [] => []
  | call :: calls => v.reply call :: (v.next call).replies calls

end Variable

namespace Holder

/-- What is behind the pointer. -/
def content (s : Holder) : Option Content := s.object.value.bind s.blocks.get?

def pointer (s : Holder) : Pointer :=
  match s.object.value with
  | none => .null
  | some a =>
      match s.blocks.get? a with
      | some c => .to c.kind
      | none => .dangling

def asVariable (s : Holder) : Variable := ⟨s.object.value_type, s.content⟩

theorem pointer_eq_to {s : Holder} {k : ContentKind} :
    s.pointer = .to k ↔ ∃ c, s.content = some c ∧ c.kind = k := by
  unfold pointer content
  cases s.object.value with
  | none => simp
  | some a => cases hget : s.blocks.get? a with
    | none => simp [hget]
    | some c => simp [hget]

theorem pointer_eq_null {s : Holder} : s.pointer = .null ↔ s.object.value = none := by
  unfold pointer
  cases s.object.value with
  | none => simp
  | some a => cases hget : s.blocks.get? a with
    | none => simp [hget]
    | some c => simp [hget]

theorem run_within {α : Type} {x : PropertyObject → Program (Blocks Content) α} {s : Holder}
    {a : α} {h : Blocks Content} (hx : (x s.object).run s.blocks = .returns a h) :
    (within x).run s = .returns a { s with blocks := h } := by
  show (Program.zoom blocks (fun h (s : Holder) => { s with blocks := h }) (x s.object)).run s = _
  exact Program.run_zoom_returns hx

theorem run_within_faults {α : Type} {x : PropertyObject → Program (Blocks Content) α}
    {s : Holder} (hx : (x s.object).run s.blocks = .faults) : (within x).run s = .faults := by
  show (Program.zoom blocks (fun h (s : Holder) => { s with blocks := h }) (x s.object)).run s = _
  exact Program.run_zoom_faults hx

end Holder

/-! ## Looking behind the pointer -/

section Loads

variable {p : Option Nat} {h : Blocks Content}

theorem run_loadString {s : String} (hp : p.bind h.get? = some (.string s)) :
    (loadString p).run h = .returns s h := by
  rw [loadString, Program.run_bind_returns _ (Blocks.run_load hp)]
  rfl

theorem run_loadVector {values : List String} (hp : p.bind h.get? = some (.vector values)) :
    (loadVector p).run h = .returns values h := by
  rw [loadVector, Program.run_bind_returns _ (Blocks.run_load hp)]
  rfl

theorem run_loadString_faults (hp : ∀ c, p.bind h.get? = some c → c.kind ≠ .string) :
    (loadString p).run h = .faults := by
  rw [loadString]
  cases hc : p.bind h.get? with
  | none => exact Program.run_bind_faults _ (Blocks.run_load_none hc)
  | some c =>
      rw [Program.run_bind_returns _ (Blocks.run_load hc)]
      cases c with
      | string s => exact absurd rfl (hp _ hc)
      | vector values => rfl
      | property p => rfl

theorem run_loadVector_faults (hp : ∀ c, p.bind h.get? = some c → c.kind ≠ .vector) :
    (loadVector p).run h = .faults := by
  rw [loadVector]
  cases hc : p.bind h.get? with
  | none => exact Program.run_bind_faults _ (Blocks.run_load_none hc)
  | some c =>
      rw [Program.run_bind_returns _ (Blocks.run_load hc)]
      cases c with
      | string s => rfl
      | vector values => exact absurd rfl (hp _ hc)
      | property p => rfl

theorem run_loadString_of_pointer {s : Holder} (hp : s.pointer = .to .string) :
    (loadString s.object.value).run s.blocks = .returns s.asVariable.string s.blocks := by
  obtain ⟨c, hc, hkind⟩ := Holder.pointer_eq_to.mp hp
  cases c with
  | string str =>
      have hstring : s.asVariable.string = str := by
        simp only [Variable.string, Holder.asVariable, hc]
      rw [hstring]
      exact run_loadString hc
  | vector values => cases hkind
  | property p => cases hkind

theorem run_loadVector_of_pointer {s : Holder} (hp : s.pointer = .to .vector) :
    (loadVector s.object.value).run s.blocks = .returns s.asVariable.vector s.blocks := by
  obtain ⟨c, hc, hkind⟩ := Holder.pointer_eq_to.mp hp
  cases c with
  | string str => cases hkind
  | vector values =>
      have hvector : s.asVariable.vector = values := by
        simp only [Variable.vector, Holder.asVariable, hc]
      rw [hvector]
      exact run_loadVector hc
  | property p => cases hkind

theorem run_loadString_of_not {s : Holder} (hp : s.pointer ≠ .to .string) :
    (loadString s.object.value).run s.blocks = .faults :=
  run_loadString_faults fun c hc hkind => hp (Holder.pointer_eq_to.mpr ⟨c, hc, hkind⟩)

theorem run_loadVector_of_not {s : Holder} (hp : s.pointer ≠ .to .vector) :
    (loadVector s.object.value).run s.blocks = .faults :=
  run_loadVector_faults fun c hc hkind => hp (Holder.pointer_eq_to.mpr ⟨c, hc, hkind⟩)

end Loads

/-! ## One call -/

/-- What a call leaves of the blocks: those beside the one behind `p` are the same, and none comes
or goes. -/
structure KeepsBlocks (p : Option Nat) (h h' : Blocks Content) : Prop where
  others : ∀ a, p ≠ some a → h'.get? a = h.get? a
  isSome : ∀ a, (h'.get? a).isSome = (h.get? a).isSome

theorem KeepsBlocks.refl (p : Option Nat) (h : Blocks Content) : KeepsBlocks p h h :=
  ⟨fun _ _ => rfl, fun _ => rfl⟩

/-- The object and the blocks after a call that finds what it looks for. -/
structure Called (call : PropertyCall) (s s' : Holder) : Prop where
  value_type : s'.object.value_type = call.typeAfter s.object.value_type
  pointer : s'.pointer = s.pointer.after call
  value : call.setsVector = false → s'.object.value = s.object.value
  content : call.setsVector = false → s'.content = (s.asVariable.next call).content
  blocks : KeepsBlocks s.object.value s.blocks s'.blocks

theorem Called.same {call : PropertyCall} {s : Holder}
    (htype : call.typeAfter s.object.value_type = s.object.value_type)
    (hset : call.setsVector = false) (hnext : s.asVariable.next call = s.asVariable) :
    Called call s s where
  value_type := htype.symm
  pointer := by simp [Pointer.after, hset]
  value _ := rfl
  content _ := by rw [hnext]; rfl
  blocks := .refl _ _

theorem called_setType (ptype : UInt8) (s : Holder) :
    Called (.setType ptype) s { s with object := s.object.setType ptype } where
  value_type := rfl
  pointer := rfl
  value _ := rfl
  content _ := rfl
  blocks := .refl _ _

theorem run_setValue (str : String) {s : Holder} (hp : s.pointer = .to .string) :
    ∃ s', (PropertyCall.setValue str).run.run s = .returns .done s' ∧
      Called (.setValue str) s s' := by
  obtain ⟨c, hc, hkind⟩ := Holder.pointer_eq_to.mp hp
  obtain ⟨sp, hsp, hget⟩ := Option.bind_eq_some_iff.mp hc
  have hassign : (Blocks.assign sp (.string str)).run s.blocks =
      .returns () (s.blocks.put sp (.string str)) := if_pos (by rw [hget]; rfl)
  have hsame := Blocks.get?_put_same (b := .string str) (Blocks.lt_of_get? hget)
  refine ⟨{ s with blocks := s.blocks.put sp (.string str) }, ?_, ?_⟩
  · refine Program.run_bind_returns (a := ()) _ (Holder.run_within ?_)
    rw [PropertyObject.setValue, Program.run_bind_returns _ (run_loadString_of_pointer hp), hsp]
    exact hassign
  · refine ⟨rfl, ?_, fun _ => rfl, fun _ => ?_, ⟨fun a ha => ?_, fun a => ?_⟩⟩
    · have hkinds : s.pointer.after (.setValue str) = .to .string := hp
      rw [hkinds, Holder.pointer_eq_to]
      exact ⟨.string str, by simp [Holder.content, hsp, hsame], rfl⟩
    · simp [Holder.content, hsp, hsame, Variable.next]
    · exact Blocks.get?_put_of_ne fun heq => ha (by rw [hsp, heq])
    · by_cases heq : sp = a
      · subst heq
        rw [hsame, hget]
        rfl
      · rw [Blocks.get?_put_of_ne heq]

theorem run_setValueVector (values : List String) (s : Holder) :
    ∃ s', (PropertyCall.setValueVector values).run.run s = .returns .done s' ∧
      Called (.setValueVector values) s s' := by
  let vp := s.blocks.cells.length
  let h := s.blocks.push (.vector values)
  have hnew : h.get? vp = some (.vector values) := Blocks.get?_push_same _ _
  have hgone : (h.erase vp).get? vp = none := Blocks.get?_erase_same _ _
  have hkeep : ∀ a, (h.erase vp).get? a = s.blocks.get? a := by
    intro a
    by_cases heq : vp = a
    · subst heq
      rw [hgone]
      cases hget : s.blocks.get? vp with
      | none => rfl
      | some c => exact absurd (Blocks.lt_of_get? hget) (Nat.lt_irrefl _)
    · rw [Blocks.get?_erase_of_ne heq, Blocks.get?_push_of_ne (Ne.symm heq)]
  refine ⟨⟨{ s.object with value := some vp }, h.erase vp⟩, ?_, ?_⟩
  · have hrelease : (Blocks.release Content.kind (vp, .vector)).run h =
        .returns () (h.erase vp) := Blocks.run_release (by rw [hnew]; rfl)
    have hmethod : (PropertyObject.setValueVector values s.object).run s.blocks =
        .returns { s.object with value := some vp } (h.erase vp) := by
      rw [PropertyObject.setValueVector, Program.run_bind_returns _ (Blocks.run_new _ _),
        Program.run_bind_returns _ hrelease]
      rfl
    refine (Program.run_bind_returns _ (Holder.run_within hmethod)).trans ?_
    rfl
  · refine ⟨rfl, ?_, fun hset => ?_, fun hset => ?_, ⟨fun a _ => hkeep a, fun a => ?_⟩⟩
    · simp [Holder.pointer, hgone, Pointer.after, PropertyCall.setsVector]
    · cases hset
    · cases hset
    · rw [hkeep a]

/-- A call of a method that only reads, from what the method returns. -/
theorem run_reading {α : Type} {x : PropertyObject → Program (Blocks Content) α}
    (f : α → PropertyReply) {s : Holder} {a : α}
    (hx : (x s.object).run s.blocks = .returns a s.blocks) :
    (Holder.within x >>= fun a => pure (f a)).run s = .returns (f a) s :=
  Program.run_bind_returns _ (Holder.run_within hx)

theorem run_dumpProperty {s : Holder}
    (hp : ∀ k, storedKind s.object.value_type = some k → s.pointer = .to k) :
    s.object.dumpProperty.run s.blocks = .returns s.asVariable.text s.blocks := by
  unfold PropertyObject.dumpProperty
  by_cases hstring : s.object.value_type = PROP_TYPE_STRING
  · have hkind : storedKind s.object.value_type = some .string := if_pos hstring
    have hload := run_loadString_of_pointer (hp .string hkind)
    simp only [if_pos hstring, Program.run_bind_returns _ hload]
    simp only [Variable.text, Holder.asVariable, hkind]
    rfl
  · by_cases hvector : s.object.value_type = PROP_TYPE_STRING_ARRAY
    · have hkind : storedKind s.object.value_type = some .vector :=
        (if_neg hstring).trans (if_pos hvector)
      have hload := run_loadVector_of_pointer (hp .vector hkind)
      simp only [if_neg hstring, if_pos hvector, Program.run_bind_returns _ hload]
      simp only [Variable.text, Holder.asVariable, hkind]
      rfl
    · have hkind : storedKind s.object.value_type = none :=
        (if_neg hstring).trans (if_neg hvector)
      simp only [if_neg hstring, if_neg hvector]
      simp only [Variable.text, Holder.asVariable, hkind]
      rfl

/-- **A call that finds what it looks for** replies as the variable would. -/
theorem PropertyCall.run_spec (call : PropertyCall) {s : Holder}
    (hp : ∀ k, call.reads s.object.value_type = some k → s.pointer = .to k) :
    ∃ s', call.run.run s = .returns (s.asVariable.reply call) s' ∧ Called call s s' := by
  cases call with
  | setType ptype => exact ⟨_, rfl, called_setType ptype s⟩
  | setValue str => exact run_setValue str (hp .string rfl)
  | setValueVector values => exact run_setValueVector values s
  | getType => exact ⟨s, rfl, Called.same rfl rfl rfl⟩
  | getValue =>
      exact ⟨s, run_reading .value (run_loadString_of_pointer (hp .string rfl)),
        Called.same rfl rfl rfl⟩
  | getValueVector =>
      exact ⟨s, run_reading .values (run_loadVector_of_pointer (hp .vector rfl)),
        Called.same rfl rfl rfl⟩
  | dumpProperty =>
      exact ⟨s, run_reading .printed (run_dumpProperty hp), Called.same rfl rfl rfl⟩

theorem storedKind_eq_some {ptype : UInt8} {k : ContentKind} :
    storedKind ptype = some k ↔
      (ptype = PROP_TYPE_STRING ∧ k = .string) ∨
        (ptype = PROP_TYPE_STRING_ARRAY ∧ k = .vector) := by
  unfold storedKind
  by_cases hstring : ptype = PROP_TYPE_STRING
  · rw [if_pos hstring, hstring]
    simp [string_ne_stringArray, eq_comm]
  · by_cases hvector : ptype = PROP_TYPE_STRING_ARRAY
    · rw [if_neg hstring, if_pos hvector, hvector]
      simp [Ne.symm string_ne_stringArray, eq_comm]
    · rw [if_neg hstring, if_neg hvector]
      simp [hstring, hvector]

/-- **A call that looks for something else faults.** -/
theorem PropertyCall.run_faults {call : PropertyCall} {s : Holder} {k : ContentKind}
    (hk : call.reads s.object.value_type = some k) (hp : s.pointer ≠ .to k) :
    call.run.run s = .faults := by
  cases call with
  | setType ptype => cases hk
  | setValueVector values => cases hk
  | getType => cases hk
  | setValue str =>
      cases hk
      refine Program.run_bind_faults _ (Holder.run_within_faults ?_)
      exact Program.run_bind_faults _ (run_loadString_of_not hp)
  | getValue =>
      cases hk
      exact Program.run_bind_faults _ (Holder.run_within_faults (run_loadString_of_not hp))
  | getValueVector =>
      cases hk
      exact Program.run_bind_faults _ (Holder.run_within_faults (run_loadVector_of_not hp))
  | dumpProperty =>
      refine Program.run_bind_faults _ (Holder.run_within_faults ?_)
      unfold PropertyObject.dumpProperty
      rcases storedKind_eq_some.mp hk with ⟨htype, rfl⟩ | ⟨htype, rfl⟩
      · simp only [if_pos htype, Program.run_bind_faults _ (run_loadString_of_not hp)]
      · have hstring : s.object.value_type ≠ PROP_TYPE_STRING := by
          rw [htype]
          exact Ne.symm string_ne_stringArray
        simp only [if_neg hstring, if_pos htype,
          Program.run_bind_faults _ (run_loadVector_of_not hp)]

/-! ## The destructor -/

theorem PropertyObject.destroy_eq (p : PropertyObject) {a : Nat} (ha : p.value = some a) :
    p.destroy = match storedKind p.value_type with
      | some k => Blocks.release Content.kind (a, k)
      | none => pure () := by
  unfold PropertyObject.destroy
  rw [ha]
  by_cases hstring : p.value_type = PROP_TYPE_STRING
  · have hkind : storedKind p.value_type = some .string := if_pos hstring
    simp only [if_pos hstring, hkind]
  · by_cases hvector : p.value_type = PROP_TYPE_STRING_ARRAY
    · have hkind : storedKind p.value_type = some .vector :=
        (if_neg hstring).trans (if_pos hvector)
      simp only [if_neg hstring, if_pos hvector, hkind]
    · have hkind : storedKind p.value_type = none :=
        (if_neg hstring).trans (if_neg hvector)
      simp only [if_neg hstring, if_neg hvector, hkind]

/-- What the destructor leaves of the blocks: it takes the one behind the pointer with it if the
type is one that stores something. -/
structure Destroyed (ptype : UInt8) (p : Option Nat) (h h' : Blocks Content) : Prop where
  others : ∀ a, p ≠ some a → h'.get? a = h.get? a
  behind : ∀ a, p = some a → ((h'.get? a).isSome ↔ (h.get? a).isSome ∧ storedKind ptype = none)

theorem run_destroy {s : Holder}
    (hp : ∀ k, storedKind s.object.value_type = some k → s.pointer = .null ∨ s.pointer = .to k) :
    ∃ h, s.object.destroy.run s.blocks = .returns () h ∧
      Destroyed s.object.value_type s.object.value s.blocks h := by
  cases ha : s.object.value with
  | none =>
      refine ⟨s.blocks, ?_, fun _ _ => rfl, fun a ha' => by cases ha'⟩
      rw [PropertyObject.destroy, ha]
      rfl
  | some a =>
      rw [PropertyObject.destroy_eq _ ha]
      cases hkind : storedKind s.object.value_type with
      | none =>
          refine ⟨s.blocks, rfl, fun _ _ => rfl, fun a' _ => ?_⟩
          simp [hkind]
      | some k =>
          have hto : s.pointer = .to k := by
            refine (hp k hkind).resolve_left fun hnull => ?_
            rw [Holder.pointer_eq_null, ha] at hnull
            cases hnull
          obtain ⟨c, hc, hck⟩ := Holder.pointer_eq_to.mp hto
          rw [Holder.content, ha, Option.bind_some] at hc
          refine ⟨s.blocks.erase a, Blocks.run_release (by rw [hc, ← hck]; rfl), ?_, ?_⟩
          · exact fun a' ha' => Blocks.get?_erase_of_ne fun heq => ha' (congrArg some heq)
          · intro a' ha'
            cases ha'
            rw [Blocks.get?_erase_same]
            simp [hkind]

theorem run_destroy_faults {s : Holder} {k : ContentKind}
    (hk : storedKind s.object.value_type = some k) (hnull : s.pointer ≠ .null)
    (hto : s.pointer ≠ .to k) : s.object.destroy.run s.blocks = .faults := by
  cases ha : s.object.value with
  | none => exact absurd (Holder.pointer_eq_null.mpr ha) hnull
  | some a =>
      rw [PropertyObject.destroy_eq _ ha, hk]
      refine Blocks.run_release_faults fun hlive => hto ?_
      obtain ⟨c, hc, hck⟩ := Option.map_eq_some_iff.mp hlive
      exact Holder.pointer_eq_to.mpr ⟨c, by rw [Holder.content, ha]; exact hc, hck⟩

/-! ## Lifetimes -/

/-- The variable is the object, unless the pointer of the object dangles. -/
structure Shows (v : Variable) (s : Holder) : Prop where
  ptype : v.ptype = s.object.value_type
  content : s.pointer = .dangling ∨ s.content = v.content

theorem Shows.reply {v : Variable} {s : Holder} (h : Shows v s) {call : PropertyCall}
    (hp : ∀ k, call.reads s.object.value_type = some k → s.pointer = .to k) :
    s.asVariable.reply call = v.reply call := by
  obtain ⟨ptype, content⟩ := v
  obtain rfl : ptype = s.object.value_type := h.ptype
  cases hreads : call.reads s.object.value_type with
  | some k =>
      have hcontent : s.content = content := h.content.resolve_left (by rw [hp k hreads]; simp)
      rw [← hcontent, Holder.asVariable]
  | none =>
      cases call with
      | setType ptype => rfl
      | setValue str => rfl
      | setValueVector values => rfl
      | getType => rfl
      | getValue => cases hreads
      | getValueVector => cases hreads
      | dumpProperty =>
          have hkind : storedKind s.object.value_type = none := hreads
          simp only [Variable.reply, Variable.text, Holder.asVariable, hkind]

theorem Shows.next {v : Variable} {s s' : Holder} (h : Shows v s) {call : PropertyCall}
    (hcall : Called call s s') : Shows (v.next call) s' := by
  refine ⟨?_, ?_⟩
  · rw [hcall.value_type, ← h.ptype]
    cases call <;> rfl
  · rw [hcall.pointer]
    cases hset : call.setsVector with
    | true => exact .inl (if_pos hset)
    | false =>
        rw [hcall.content hset]
        rcases h.content with hdangling | hcontent
        · exact .inl ((if_neg (by simp [hset])).trans hdangling)
        · obtain ⟨ptype, content⟩ := v
          obtain rfl : ptype = s.object.value_type := h.ptype
          obtain rfl : s.content = content := hcontent
          exact .inr rfl

/-- A call before a lifetime. -/
theorem Destroyed.of_called {ptype : UInt8} {call : PropertyCall} {s s' : Holder}
    {h : Blocks Content} (hcall : Called call s s')
    (hrest : Destroyed ptype s'.object.value s'.blocks h)
    (hset : call.setsVector = true → storedKind ptype = none) :
    Destroyed ptype s.object.value s.blocks h := by
  have hblocks := hcall.blocks
  cases hvec : call.setsVector with
  | false =>
      rw [hcall.value hvec] at hrest
      refine ⟨fun a ha => (hrest.others a ha).trans (hblocks.others a ha), fun a ha => ?_⟩
      rw [hrest.behind a ha, hblocks.isSome a]
  | true =>
      have hkind := hset hvec
      have hsome : ∀ a, (h.get? a).isSome = (s.blocks.get? a).isSome := by
        intro a
        by_cases ha : s'.object.value = some a
        · have hbehind := hrest.behind a ha
          rw [hblocks.isSome a, hkind] at hbehind
          exact Bool.eq_iff_iff.mpr (by simpa using hbehind)
        · rw [hrest.others a ha, hblocks.isSome a]
      refine ⟨fun a ha => ?_, fun a _ => by rw [hsome a, hkind]; simp⟩
      by_cases hnew : s'.object.value = some a
      · -- the pointer dangles, so that there was nothing behind it before either
        have hdangling : s'.pointer = .dangling := hcall.pointer.trans (if_pos hvec)
        have hnone : s'.blocks.get? a = none := by
          cases hget : s'.blocks.get? a with
          | none => rfl
          | some c => simp [Holder.pointer, hnew, hget] at hdangling
        have hbefore : s.blocks.get? a = none := (hblocks.others a ha).symm.trans hnone
        have hafter := hsome a
        rw [hbefore] at hafter ⊢
        exact Option.not_isSome_iff_eq_none.mp (by rw [hafter]; exact Bool.false_ne_true)
      · rw [hrest.others a hnew, hblocks.others a ha]

theorem PropertyCall.run_lifetime {v : Variable} {s : Holder} {calls : List PropertyCall}
    (hshow : Shows v s) (hcareful : Careful s.object.value_type s.pointer calls) :
    ∃ s', (lifetime calls).run s = .returns (v.replies calls) s' ∧
      Destroyed (typeAfterAll s.object.value_type calls) s.object.value s.blocks s'.blocks := by
  induction calls generalizing v s with
  | nil =>
      obtain ⟨h, hrun, hdestroyed⟩ := run_destroy (careful_nil.mp hcareful)
      exact ⟨_, Program.run_bind_returns _ (Holder.run_within hrun), hdestroyed⟩
  | cons call calls ih =>
      obtain ⟨hreads, hrest⟩ := careful_cons.mp hcareful
      obtain ⟨s₁, hrun, hcalled⟩ := call.run_spec hreads
      rw [← hcalled.value_type, ← hcalled.pointer] at hrest
      obtain ⟨s', hlife, hdestroyed⟩ := ih (hshow.next hcalled) hrest
      refine ⟨s', ?_, ?_⟩
      · rw [lifetime, Program.run_bind_returns _ hrun, Program.run_bind_returns _ hlife,
          hshow.reply hreads]
        rfl
      · rw [hcalled.value_type] at hdestroyed
        refine hdestroyed.of_called hcalled fun hset => ?_
        rw [← Option.not_isSome_iff_eq_none, Option.isSome_iff_exists]
        rintro ⟨k, hk⟩
        have hno := (hcareful.releases k hk).2 call List.mem_cons_self
        rw [hset] at hno
        cases hno

theorem PropertyCall.run_lifetime_faults {s : Holder} {calls : List PropertyCall}
    (hnot : ¬ Careful s.object.value_type s.pointer calls) :
    (lifetime calls).run s = .faults := by
  induction calls generalizing s with
  | nil =>
      have hbad : ∃ k, storedKind s.object.value_type = some k ∧
          ¬ (s.pointer = .null ∨ s.pointer = .to k) := by
        simpa [careful_nil] using hnot
      obtain ⟨k, hk, hp⟩ := hbad
      obtain ⟨hnull, hto⟩ := not_or.mp hp
      exact Program.run_bind_faults _ (Holder.run_within_faults (run_destroy_faults hk hnull hto))
  | cons call calls ih =>
      rw [careful_cons] at hnot
      by_cases hreads : ∀ k, call.reads s.object.value_type = some k → s.pointer = .to k
      · obtain ⟨s₁, hrun, hcalled⟩ := call.run_spec hreads
        have hrest : ¬ Careful s₁.object.value_type s₁.pointer calls := by
          rw [hcalled.value_type, hcalled.pointer]
          exact fun h => hnot ⟨hreads, h⟩
        rw [lifetime, Program.run_bind_returns _ hrun]
        exact Program.run_bind_faults _ (ih hrest)
      · obtain ⟨k, hk⟩ := not_forall.mp hreads
        obtain ⟨hk, hp⟩ := Classical.not_imp.mp hk
        rw [lifetime]
        exact Program.run_bind_faults _ (run_faults hk hp)

/-- **A lifetime goes well exactly when it is careful.** Its calls then reply as calls of a
variable of its own would, and the destructor frees the block behind the pointer unless the type
set last is one that stores nothing; that block leaks, and no other block is touched. -/
theorem PropertyCall.lifetime_iff (s : Holder) (calls : List PropertyCall) :
    (Careful s.object.value_type s.pointer calls ↔
      (lifetime calls).run s ≠ .faults) ∧
    (Careful s.object.value_type s.pointer calls → ∃ s',
      (lifetime calls).run s = .returns (s.asVariable.replies calls) s' ∧
      Destroyed (typeAfterAll s.object.value_type calls) s.object.value s.blocks s'.blocks) := by
  have hshow : Shows s.asVariable s := ⟨rfl, .inr rfl⟩
  have hspec := fun h => run_lifetime hshow (h : Careful s.object.value_type s.pointer calls)
  refine ⟨⟨fun h hfaults => ?_, fun h => ?_⟩, hspec⟩
  · obtain ⟨s', hrun, -⟩ := hspec h
    rw [hfaults] at hrun
    cases hrun
  · by_contra hnot
    exact h (run_lifetime_faults hnot)

end Kcmsg
