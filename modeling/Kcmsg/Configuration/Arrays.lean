import Kcmsg.Configuration.Paths

/-!
# Arrays

An array comes to `insertProperty` as the values that were collected when its last element has
been counted off. Two things decide what is stored: which values were collected, and how many.
An empty element is not collected, and a single value is stored as a string; so an array keeps its
shape exactly if it has two elements or more and none of them is empty (`arrayKept_iff`).
-/

namespace Kcmsg

/-- `{"a": {"b": [x1, ..., xn]}}` -/
def arrayTree (a b : Token) (xs : List String) : Ptree where
  data := ""
  children := .cons a.text "" (.cons b.text "" (elementNodes xs) .nil) .nil

/-- The array is inserted by one call, with all its elements, which stores it as an array under its
key, where a reader finds it. -/
structure ArrayKept (props : Store) (a b : Token) (xs : List String) : Prop where
  calls : mapProperties props ⟨[], [], []⟩ (arrayTree a b xs).children =
    some [⟨[a.text, b.text], xs⟩]
  stored : ∃ stored, insertProperty [a.text, b.text] xs props = some stored ∧
    stored (a.text ++ "." ++ b.text) = some (.stringArray xs) ∧
    Configuration.getPropertyVector stored (a.text ++ "." ++ b.text) = xs

/-! ## Counting the elements off -/

section Elements

variable {props : Store} {kp vp : List String} {c : UInt32} {num : List UInt32} {s' : Locals}

theorem exists_insertProperty (hkp : kp ≠ []) (vp : List String) (props : Store) :
    ∃ props', insertProperty kp vp props = some props' := by
  unfold insertProperty
  split
  · rw [popBack_of_ne hkp]
    exact ⟨props, rfl⟩
  · exact ⟨_, rfl⟩
  · exact ⟨_, rfl⟩

theorem visit_element_last (hkp : kp ≠ []) (hc : c - 1 = 0)
    (hpop : popZeros kp [] 0 num = some s') (e : String) :
    visit props ⟨kp, vp, c :: num⟩ "" e 0 = some ([⟨kp, vp ++ collected [e]⟩], s') := by
  obtain ⟨props', hinsert⟩ := exists_insertProperty hkp (vp ++ collected [e]) props
  unfold visit
  simp only [ite_append_collected, hc, if_true]
  rw [if_pos (show UInt32.ofNat 0 = 0 from rfl), hinsert, hpop]
  rfl

theorem visit_element_more (hc : c - 1 ≠ 0) (e : String) :
    visit props ⟨kp, vp, c :: num⟩ "" e 0 =
      some ([], ⟨kp, vp ++ collected [e], (c - 1) :: num⟩) := by
  unfold visit
  simp only [ite_append_collected, if_neg hc, if_true]
  rw [if_pos (show UInt32.ofNat 0 = 0 from rfl), popZeros_of_ne hc]
  rfl

/-- A walk over the elements with the right counter completes, and inserts them once. -/
theorem mapProperties_elementNodes {es : List String} (hkp : kp ≠ []) (hne : es ≠ [])
    (hc : c.toNat = es.length) (hpop : popZeros kp [] 0 num = some s') :
    mapProperties props ⟨kp, vp, c :: num⟩ (elementNodes es) =
      some [⟨kp, vp ++ collected es⟩] := by
  induction es generalizing vp c with
  | nil => exact absurd rfl hne
  | cons e es ih =>
      rw [List.length_cons] at hc
      have hpred := toNat_sub_one (c := c) (by omega)
      unfold elementNodes mapProperties
      by_cases hlast : es = []
      · subst hlast
        have hzero : c - 1 = 0 := UInt32.toNat_inj.mp (by rw [hpred, hc]; rfl)
        rw [Children.size, visit_element_last hkp hzero hpop]
        rfl
      · have hmore : c - 1 ≠ 0 := by
          intro hzero
          rw [hzero] at hpred
          apply hlast
          apply List.length_eq_zero_iff.mp
          have : (0 : UInt32).toNat = 0 := rfl
          omega
        have hrest : mapProperties props ⟨kp, vp ++ collected [e], (c - 1) :: num⟩
            (elementNodes es) = some [⟨kp, vp ++ collected [e] ++ collected es⟩] :=
          ih hlast (by omega)
        rw [Children.size, visit_element_more hmore]
        simp only [Option.bind_eq_bind, Option.bind_some, hrest]
        rw [List.append_assoc, ← collected_append]
        rfl

/-- A member with children is entered. -/
theorem visit_enter {key : String} {size : Nat} (hkey : key ≠ "") (hsize : UInt32.ofNat size ≠ 0) :
    visit props ⟨kp, vp, num⟩ key "" size =
      some ([], ⟨kp ++ [key], vp, UInt32.ofNat size :: num⟩) := by
  unfold visit
  simp only [if_neg hkey, if_true, if_neg hsize, popZeros_of_ne hsize]
  rfl

end Elements

/-! ## The array of a document -/

section ArrayTree

variable {props : Store} {a b : Token} {xs : List String}

theorem joinKey_pair (a b : Token) : joinKey [a.text, b.text] = a.text ++ "." ++ b.text := by
  simp [joinKey, a.nonempty]

/-- The call that is made first has what was collected of the elements the counter counts. -/
theorem first_call_arrayTree {call : InsertCall}
    (h : mapProperties props ⟨[], [], []⟩ (arrayTree a b xs).children = some [call]) :
    call.vp = collected (xs.take (UInt32.ofNat xs.length).toNat) := by
  obtain ⟨calls, s', below, others, hvisit, hbelow, hothers, heq⟩ := mapProperties_cons h
  rcases visit_node a.nonempty hvisit with ⟨-, rfl, rfl⟩ | ⟨hone, -⟩
  · cases hothers
    obtain ⟨calls, s', below, others, hvisit, hbelow, hothers, rfl⟩ := mapProperties_cons hbelow
    rcases visit_node b.nonempty hvisit with ⟨hcount, rfl, rfl⟩ | ⟨hcount, rfl⟩
    · rw [size_elementNodes] at hcount hbelow
      obtain ⟨t', rfl, -⟩ := calls_elementNodes (toNat_pos hcount) (toNat_ofNat_le _) hbelow
      have hcall : call = ⟨_, [] ++ collected (xs.take (UInt32.ofNat xs.length).toNat)⟩ :=
        (List.cons.inj heq).1
      rw [hcall]
      exact List.nil_append _
    · -- `2 ^ 32` elements count as none, and nothing is collected before them
      rw [size_elementNodes] at hcount
      have hcall : call = ⟨_, []⟩ := (List.cons.inj heq).1
      rw [hcall, hcount]
      rfl
  · exact absurd hone (show ¬ UInt32.ofNat 1 = 0 by decide)

theorem mapProperties_arrayTree (hne : xs ≠ []) (hlt : xs.length < 2 ^ 32) :
    mapProperties props ⟨[], [], []⟩ (arrayTree a b xs).children =
      some [⟨[a.text, b.text], collected xs⟩] := by
  have hlength := toNat_ofNat_of_lt hlt
  have hcount : UInt32.ofNat xs.length ≠ 0 := by
    intro hzero
    rw [hzero] at hlength
    exact hne (List.length_eq_zero_iff.mp hlength.symm)
  have hpop : popZeros [a.text, b.text] [] 0 [1] = some ⟨[], [], []⟩ := by
    simp [popZeros, popBack]
  have helements : mapProperties props ⟨[a.text, b.text], [], [UInt32.ofNat xs.length, 1]⟩
      (elementNodes xs) = some [⟨[a.text, b.text], collected xs⟩] :=
    mapProperties_elementNodes (List.cons_ne_nil _ _) hne hlength hpop
  have hb : visit props ⟨[a.text], [], [1]⟩ b.text "" (elementNodes xs).size =
      some ([], ⟨[a.text, b.text], [], [UInt32.ofNat xs.length, 1]⟩) := by
    rw [size_elementNodes]
    exact visit_enter b.nonempty hcount
  have ha : visit props ⟨[], [], []⟩ a.text "" 1 = some ([], ⟨[a.text], [], [1]⟩) :=
    visit_enter a.nonempty (by decide)
  unfold arrayTree
  simp only [mapProperties, Children.size, Nat.zero_add, ha, hb, helements, Option.bind_eq_bind,
    Option.bind_some]
  rfl

/-- What `insertProperty` makes of two values or more, and of one. -/
theorem insertProperty_array (h : 2 ≤ xs.length) :
    insertProperty [a.text, b.text] xs props =
      some (props.set (a.text ++ "." ++ b.text) (.stringArray xs)) := by
  match xs, h with
  | _ :: _ :: _, _ =>
      rw [← joinKey_pair]
      rfl

theorem insertProperty_single (x : String) :
    insertProperty [a.text, b.text] [x] props =
      some (props.set (a.text ++ "." ++ b.text) (.string x)) := by
  rw [insertProperty, joinKey_pair]
  rfl

@[simp] theorem Store.set_self (props : Store) (key : String) (p : Property) :
    props.set key p key = some p := if_pos rfl

/-- **An array keeps its shape exactly when it has at least two elements, all of them counted and
none of them empty.** -/
theorem arrayKept_iff (props : Store) (a b : Token) (hne : xs ≠ []) :
    ArrayKept props a b xs ↔ 2 ≤ xs.length ∧ xs.length < 2 ^ 32 ∧ ∀ x ∈ xs, x ≠ "" := by
  constructor
  · rintro ⟨hcalls, stored, hinsert, hstored, -⟩
    have hall : xs = collected (xs.take (UInt32.ofNat xs.length).toNat) :=
      first_call_arrayTree hcalls
    have hlength : xs.length ≤ (UInt32.ofNat xs.length).toNat := by
      calc xs.length = (collected (xs.take (UInt32.ofNat xs.length).toNat)).length :=
            congrArg List.length hall
        _ ≤ (xs.take (UInt32.ofNat xs.length).toNat).length := List.length_filter_le _ _
        _ ≤ (UInt32.ofNat xs.length).toNat := List.length_take_le _ _
    refine ⟨?_, Nat.lt_of_le_of_lt hlength (UInt32.toNat_lt _), fun x hx => ?_⟩
    · match xs, hne with
      | [x], _ =>
          rw [insertProperty_single] at hinsert
          cases hinsert
          rw [Store.set_self] at hstored
          cases hstored
      | _ :: _ :: _, _ => simp
    · rw [hall] at hx
      exact of_decide_eq_true (List.mem_filter.mp hx).2
  · rintro ⟨htwo, hlt, hnonempty⟩
    refine ⟨?_, _, insertProperty_array htwo, Store.set_self _ _ _, ?_⟩
    · rw [mapProperties_arrayTree hne hlt, collected_of_nonempty hnonempty]
    · unfold Configuration.getPropertyVector
      rw [Store.set_self]
      rfl

end ArrayTree

/-- `{"a": {"b": ["x", "y"]}}` -/
theorem arrayKept_iff_pair :
    ArrayKept Store.empty ⟨"a", by decide⟩ ⟨"b", by decide⟩ ["x", "y"] ↔
      2 ≤ ["x", "y"].length ∧ ["x", "y"].length < 2 ^ 32 ∧ ∀ x ∈ ["x", "y"], x ≠ "" :=
  arrayKept_iff Store.empty _ _ (List.cons_ne_nil _ _)

/-- A single element is stored as a string, and an empty one is lost. -/
theorem not_arrayKept_single :
    ¬ ArrayKept Store.empty ⟨"a", by decide⟩ ⟨"b", by decide⟩ ["x"] ∧
      ¬ ArrayKept Store.empty ⟨"a", by decide⟩ ⟨"b", by decide⟩ ["x", "", "y"] := by
  constructor
  · rintro ⟨-, stored, hinsert, hstored, -⟩
    rw [insertProperty_single] at hinsert
    cases hinsert
    rw [Store.set_self] at hstored
    cases hstored
  · rintro ⟨hcalls, -⟩
    rw [mapProperties_arrayTree (List.cons_ne_nil _ _) (by decide)] at hcalls
    exact absurd hcalls (by decide)

end Kcmsg
