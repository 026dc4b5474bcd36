import Kcmsg.Configuration.Document
import Kcmsg.Library.Parted
import Mathlib.Algebra.Group.Nat.Defs

/-!
# Key paths

`mapProperties` should insert every scalar and every array of the document once, in order, under
the keys on the way to it. After a member that has children, the caller of the recursion still
has that member's key on its `kp` and that member's counter on its `num`, so the next member of
the same object is inserted under a path that is one key too long. The walk is right for the
documents that have no such next member, and for no others (`keyPaths_iff`).

The proof compares the calls of a walk with the entries of the document from left to right. As
long as the walk is in step, its `kp` is the path of the object it is in; where it falls out of
step, the two sequences part at once (`Parted`) or the walk inserts an empty value.
-/

namespace Kcmsg

/-! ## The documents the walk gets right -/

/-- Only the last member has children, a nested object is not empty, and no node has so many
children that a counter wraps around. -/
def Members.Linear : Members → Prop
  | nil => True
  | scalar _ _ rest => rest.Linear
  | array _ first second more rest =>
      rest = nil ∧ (elements first second more).length < 2 ^ 32
  | object _ sub rest => rest = nil ∧ sub ≠ nil ∧ sub.length < 2 ^ 32 ∧ sub.Linear

/-- The document is an object, and at its top no scalar comes first either. -/
def Document.Linear : Document → Prop
  | object (.scalar _ _ _) => False
  | object members => members.Linear
  | _ => False

/-- The calls that insert the entries of an object at `path`. -/
def Members.calls (path : List String) (ms : Members) : List InsertCall :=
  (ms.entries path).map Entry.call

def Document.calls (doc : Document) : List InsertCall := doc.entries.map Entry.call

namespace Members

theorem calls_object (path : List String) (key : Token) (sub rest : Members) :
    (object key sub rest).calls path = sub.calls (path ++ [key.text]) ++ rest.calls path := by
  rw [calls, entries, List.map_append]
  rfl

end Members

/-! ## What one step of the walk does -/

section Step

variable {props : Store} {s s' : Locals} {calls : List InsertCall}

theorem popBack_of_ne {kp : List String} (h : kp ≠ []) : popBack kp = some kp.dropLast := if_neg h

theorem popBack_concat (kp : List String) (k : String) : popBack (kp ++ [k]) = some kp := by
  rw [popBack_of_ne (by simp), List.dropLast_concat]

theorem length_of_popBack {kp kp' : List String} (h : popBack kp = some kp') :
    kp'.length + 1 = kp.length := by
  rw [popBack] at h
  by_cases hnil : kp = []
  · rw [if_pos hnil] at h
    cases h
  · rw [if_neg hnil] at h
    cases h
    have hpos := List.length_pos_iff.mpr hnil
    rw [List.length_dropLast]
    omega

/-- The inner loop stops at a counter that is not zero. -/
theorem popZeros_of_ne {top : UInt32} (htop : top ≠ 0) (kp vp : List String)
    (num : List UInt32) : popZeros kp vp top num = some ⟨kp, vp, top :: num⟩ := by
  cases num <;> exact if_neg htop

/-- The inner loop only shortens the path, and does so whenever it runs. -/
theorem popZeros_spec {kp vp : List String} {top : UInt32} {num : List UInt32}
    (h : popZeros kp vp top num = some s) :
    s.vp = vp ∧ (top ≠ 0 → s = ⟨kp, vp, top :: num⟩) ∧ (top = 0 → s.kp.length < kp.length) := by
  induction num generalizing kp top with
  | nil =>
      by_cases htop : top = 0
      · rw [popZeros, if_pos htop] at h
        obtain ⟨kp', hpop, h⟩ := Option.bind_eq_some_iff.mp h
        cases h
        have hlength := length_of_popBack hpop
        exact ⟨rfl, fun hne => absurd htop hne, fun _ => by show kp'.length < _; omega⟩
      · rw [popZeros_of_ne htop] at h
        cases h
        exact ⟨rfl, fun _ => rfl, fun hz => absurd hz htop⟩
  | cons m num ih =>
      by_cases htop : top = 0
      · rw [popZeros, if_pos htop] at h
        obtain ⟨kp', hpop, h⟩ := Option.bind_eq_some_iff.mp h
        have hlength := length_of_popBack hpop
        obtain ⟨hvp, hstop, hgo⟩ := ih h
        refine ⟨hvp, fun hne => absurd htop hne, fun _ => ?_⟩
        by_cases hm : m - 1 = 0
        · have := hgo hm
          omega
        · rw [hstop hm]
          show kp'.length < _
          omega
      · rw [popZeros_of_ne htop] at h
        cases h
        exact ⟨rfl, fun _ => rfl, fun hz => absurd hz htop⟩

/-- What becomes of the elements of an array: the walk collects no empty value. -/
def collected (es : List String) : List String := es.filter (· ≠ "")

theorem collected_of_nonempty {es : List String} (h : ∀ e ∈ es, e ≠ "") : collected es = es :=
  List.filter_eq_self.mpr fun e he => decide_eq_true (h e he)

theorem collected_append (es fs : List String) :
    collected (es ++ fs) = collected es ++ collected fs := List.filter_append es fs

theorem ite_append_collected (vp : List String) (e : String) :
    (if e = "" then vp else vp ++ [e]) = vp ++ collected [e] := by
  by_cases he : e = ""
  · simp [collected, he]
  · simp [collected, he]

/-- A member with a key: with a counter it is entered, without one it is inserted. -/
theorem visit_member {key data : String} {size : Nat} (hkey : key ≠ "")
    (h : visit props s key data size = some (calls, s')) :
    (UInt32.ofNat size ≠ 0 ∧ calls = [] ∧
      s' = ⟨s.kp ++ [key], if data = "" then s.vp else s.vp ++ [data],
        UInt32.ofNat size :: s.num⟩) ∨
    (UInt32.ofNat size = 0 ∧
      calls = [⟨s.kp ++ [key], if data = "" then s.vp else s.vp ++ [data]⟩] ∧
      ∃ m num, s.num = m :: num ∧ popZeros s.kp [] (m - 1) num = some s') := by
  rw [visit] at h
  simp only [if_neg hkey] at h
  by_cases hsize : UInt32.ofNat size = 0
  · rw [if_pos hsize] at h
    cases hnum : s.num with
    | nil =>
        rw [hnum] at h
        cases h
    | cons m num =>
        simp only [hnum] at h
        obtain ⟨props', -, h⟩ := Option.bind_eq_some_iff.mp h
        obtain ⟨popped, hpopped, h⟩ := Option.bind_eq_some_iff.mp h
        rw [popBack_concat] at hpopped
        cases hpopped
        obtain ⟨s'', hpop, h⟩ := Option.bind_eq_some_iff.mp h
        cases h
        exact .inr ⟨hsize, rfl, m, num, rfl, hpop⟩
  · rw [if_neg hsize] at h
    obtain ⟨s'', hpop, h⟩ := Option.bind_eq_some_iff.mp h
    cases h
    exact .inl ⟨hsize, rfl, (popZeros_spec hpop).2.1 hsize⟩

/-- A member that is not a scalar has no data. -/
theorem visit_node {key : String} {size : Nat} (hkey : key ≠ "")
    (h : visit props s key "" size = some (calls, s')) :
    (UInt32.ofNat size ≠ 0 ∧ calls = [] ∧
      s' = ⟨s.kp ++ [key], s.vp, UInt32.ofNat size :: s.num⟩) ∨
    (UInt32.ofNat size = 0 ∧ calls = [⟨s.kp ++ [key], s.vp⟩]) := by
  rcases visit_member hkey h with ⟨hsize, hcalls, hs'⟩ | ⟨hsize, hcalls, -⟩
  · rw [if_pos rfl] at hs'
    exact .inl ⟨hsize, hcalls, hs'⟩
  · rw [if_pos rfl] at hcalls
    exact .inr ⟨hsize, hcalls⟩

/-- A scalar is inserted with its value behind those collected before. -/
theorem visit_scalar {key val : Token} (h : visit props s key.text val.text 0 = some (calls, s')) :
    calls = [⟨s.kp ++ [key.text], s.vp ++ [val.text]⟩] ∧
      ∃ m num, s.num = m :: num ∧ popZeros s.kp [] (m - 1) num = some s' := by
  rcases visit_member key.nonempty h with ⟨hsize, -, -⟩ | ⟨-, hcalls, hpop⟩
  · exact absurd rfl hsize
  · rw [if_neg val.nonempty] at hcalls
    exact ⟨hcalls, hpop⟩

/-- An array element: the last one inserts the array. -/
theorem visit_element {e : String} (h : visit props s "" e 0 = some (calls, s')) :
    ∃ m num, s.num = m :: num ∧
      ((m - 1 = 0 ∧ calls = [⟨s.kp, s.vp ++ collected [e]⟩]) ∨
        (m - 1 ≠ 0 ∧ calls = [] ∧ s' = ⟨s.kp, s.vp ++ collected [e], (m - 1) :: num⟩)) := by
  rw [visit] at h
  simp only [ite_append_collected] at h
  cases hnum : s.num with
  | nil =>
      rw [hnum] at h
      cases h
  | cons m num =>
      refine ⟨m, num, rfl, ?_⟩
      rw [hnum] at h
      by_cases hm : m - 1 = 0
      · simp only [hm] at h
        obtain ⟨props', -, h⟩ := Option.bind_eq_some_iff.mp h
        obtain ⟨s'', hpop, h⟩ := Option.bind_eq_some_iff.mp h
        cases h
        exact .inl ⟨hm, rfl⟩
      · simp only [if_neg hm] at h
        obtain ⟨s'', hpop, h⟩ := Option.bind_eq_some_iff.mp h
        cases h
        exact .inr ⟨hm, rfl, (popZeros_spec hpop).2.1 hm⟩

theorem mapProperties_cons {key data : String} {sub rest : Children} {t : List InsertCall}
    (h : mapProperties props s (.cons key data sub rest) = some t) :
    ∃ calls s' below others, visit props s key data sub.size = some (calls, s') ∧
      mapProperties props s' sub = some below ∧ mapProperties props s' rest = some others ∧
      t = calls ++ below ++ others := by
  rw [mapProperties] at h
  obtain ⟨⟨calls, s'⟩, hvisit, h⟩ := Option.bind_eq_some_iff.mp h
  obtain ⟨below, hbelow, h⟩ := Option.bind_eq_some_iff.mp h
  obtain ⟨others, hothers, h⟩ := Option.bind_eq_some_iff.mp h
  cases h
  exact ⟨calls, s', below, others, hvisit, hbelow, hothers, rfl⟩

end Step

/-! ## Arrays -/

theorem toNat_sub_one {c : UInt32} (h : 0 < c.toNat) : (c - 1).toNat = c.toNat - 1 := by
  have hone : (1 : UInt32).toNat = 1 := rfl
  rw [UInt32.toNat_sub_of_le _ _ (UInt32.le_iff_toNat_le.mpr (by omega)), hone]

theorem toNat_ofNat_le (n : Nat) : (UInt32.ofNat n).toNat ≤ n := by
  rw [UInt32.toNat_ofNat']
  exact Nat.mod_le _ _

theorem toNat_ofNat_of_lt {n : Nat} (h : n < 2 ^ 32) : (UInt32.ofNat n).toNat = n := by
  rw [UInt32.toNat_ofNat']
  exact Nat.mod_eq_of_lt h

theorem toNat_pos {c : UInt32} (h : c ≠ 0) : 0 < c.toNat :=
  Nat.pos_of_ne_zero fun hzero => h (UInt32.toNat_inj.mp hzero)

/-- A walk over array elements inserts as many of them as the counter says, and nothing more when
that is all of them. -/
theorem calls_elementNodes {props : Store} {kp vp : List String} {c : UInt32}
    {num : List UInt32} {es : List String} {t : List InsertCall}
    (hpos : 0 < c.toNat) (hle : c.toNat ≤ es.length)
    (h : mapProperties props ⟨kp, vp, c :: num⟩ (elementNodes es) = some t) :
    ∃ t', t = ⟨kp, vp ++ collected (es.take c.toNat)⟩ :: t' ∧ (c.toNat = es.length → t' = []) := by
  induction es generalizing vp c t with
  | nil => exact absurd hle (Nat.not_le.mpr hpos)
  | cons e es ih =>
      obtain ⟨calls, s', below, others, hvisit, hbelow, hothers, rfl⟩ := mapProperties_cons h
      cases hbelow
      obtain ⟨m, num', hnum, hlast | hmore⟩ := visit_element hvisit
      · cases hnum
        obtain ⟨hzero, rfl⟩ := hlast
        have hone : c.toNat = 1 := by
          have hpred := toNat_sub_one hpos
          rw [hzero] at hpred
          have : (0 : UInt32).toNat = 0 := rfl
          omega
        refine ⟨others, by rw [hone]; rfl, fun hall => ?_⟩
        have hes : es = [] := by
          rw [hone, List.length_cons] at hall
          exact List.length_eq_zero_iff.mp (by omega)
        rw [hes] at hothers
        cases hothers
        rfl
      · cases hnum
        obtain ⟨hne, rfl, rfl⟩ := hmore
        have hpred := toNat_sub_one hpos
        have hpos' := toNat_pos hne
        rw [List.length_cons] at hle
        obtain ⟨t', rfl, hend⟩ := ih hpos' (by omega) hothers
        refine ⟨t', ?_, fun hall => hend (by rw [List.length_cons] at hall; omega)⟩
        have htake : (e :: es).take c.toNat = [e] ++ es.take (c - 1).toNat := by
          rw [hpred, List.singleton_append, ← List.take_succ_cons, Nat.sub_add_cancel hpos]
        rw [htake, collected_append, ← List.append_assoc]
        rfl

/-! ## Falling out of step -/

/-- The calls made and the calls wanted go different ways, or a call made inserts no value. -/
def Differs (made wanted : List InsertCall) : Prop :=
  Parted made wanted ∨ ∃ c ∈ made, c.vp = []

namespace Differs

variable {made wanted : List InsertCall}

theorem append_left (h : Differs made wanted) (us : List InsertCall) :
    Differs (us ++ made) (us ++ wanted) := by
  rcases h with h | ⟨c, hc, hvp⟩
  · exact .inl (h.append_left us)
  · exact .inr ⟨c, List.mem_append_right us hc, hvp⟩

theorem append (h : Differs made wanted) (us vs : List InsertCall) :
    Differs (made ++ us) (wanted ++ vs) := by
  rcases h with h | ⟨c, hc, hvp⟩
  · exact .inl (h.append us vs)
  · exact .inr ⟨c, List.mem_append_left us hc, hvp⟩

end Differs

/-- Every entry has a value. -/
theorem Members.vp_ne_nil {ms : Members} {path : List String} {c : InsertCall}
    (h : c ∈ ms.calls path) : c.vp ≠ [] := by
  obtain ⟨e, he, rfl⟩ := List.mem_map.mp h
  clear h
  induction ms generalizing path with
  | nil => cases he
  | scalar key val rest ih =>
      rcases List.mem_cons.mp he with rfl | he
      · exact List.cons_ne_nil _ _
      · exact ih he
  | array key first second more rest ih =>
      rcases List.mem_cons.mp he with rfl | he
      · exact List.cons_ne_nil _ _
      · exact ih he
  | object key sub rest ihsub ih =>
      rcases List.mem_append.mp he with he | he
      · exact ihsub he
      · exact ih he

theorem Differs.ne_calls {made : List InsertCall} {ms : Members} {path : List String}
    (h : Differs made (ms.calls path)) : made ≠ ms.calls path := by
  rcases h with h | ⟨c, hc, hvp⟩
  · exact h.ne
  · rintro rfl
    exact Members.vp_ne_nil hc hvp

/-- Whatever the state, the first call of a walk over the members of an object extends the walk's
path by the way to the first entry; where there is no such call, an empty value is inserted. -/
theorem first_call {props : Store} {ms : Members} (hne : ms ≠ .nil) {s : Locals}
    {t : List InsertCall} (h : mapProperties props s ms.toChildren = some t) (hvp : s.vp = []) :
    (∃ c ∈ t, c.vp = []) ∨
      ∃ q v t', t = ⟨s.kp ++ q, v⟩ :: t' ∧ ∀ path, ∃ w e, ms.calls path = ⟨path ++ q, w⟩ :: e := by
  induction ms generalizing s t with
  | nil => exact absurd rfl hne
  | scalar key val rest ih =>
      obtain ⟨calls, s', below, others, hvisit, hbelow, hothers, rfl⟩ := mapProperties_cons h
      obtain ⟨rfl, -⟩ := visit_scalar hvisit
      exact .inr ⟨[key.text], _, _, rfl, fun path => ⟨_, _, rfl⟩⟩
  | array key first second more rest ih =>
      obtain ⟨calls, s', below, others, hvisit, hbelow, hothers, rfl⟩ := mapProperties_cons h
      rcases visit_node key.nonempty hvisit with ⟨hsize, rfl, rfl⟩ | ⟨-, rfl⟩
      · rw [size_elementNodes] at hsize hbelow
        obtain ⟨t', rfl, -⟩ := calls_elementNodes (toNat_pos hsize) (toNat_ofNat_le _) hbelow
        exact .inr ⟨[key.text], _, _, rfl, fun path => ⟨_, _, rfl⟩⟩
      · exact .inl ⟨_, List.mem_cons_self, hvp⟩
  | object key sub rest ihsub ih =>
      obtain ⟨calls, s', below, others, hvisit, hbelow, hothers, rfl⟩ := mapProperties_cons h
      rcases visit_node key.nonempty hvisit with ⟨hsize, rfl, rfl⟩ | ⟨-, rfl⟩
      · have hsub : sub ≠ .nil := by
          rintro rfl
          exact hsize rfl
        -- the way to the first entry goes through `key` on both sides
        rcases ihsub hsub hbelow hvp with ⟨c, hc, hempty⟩ | ⟨q, v, t', rfl, hcalls⟩
        · exact .inl ⟨c, List.mem_append_left _ (List.mem_append_right _ hc), hempty⟩
        · refine .inr ⟨key.text :: q, v, t' ++ others, ?_, fun path => ?_⟩
          · simp only [List.nil_append, List.cons_append, List.append_assoc]
          · obtain ⟨w, e, he⟩ := hcalls (path ++ [key.text])
            refine ⟨w, e ++ rest.calls path, ?_⟩
            rw [Members.calls_object, he]
            simp only [List.cons_append, List.append_assoc, List.nil_append]
      · exact .inl ⟨_, List.mem_cons_self, hvp⟩

/-- A walk whose path has the wrong length when it comes to a member falls out of step there. -/
theorem differs_of_length_ne {props : Store} {ms : Members} (hne : ms ≠ .nil) {s : Locals}
    {t : List InsertCall} {path : List String}
    (h : mapProperties props s ms.toChildren = some t) (hvp : s.vp = [])
    (hlength : s.kp.length ≠ path.length) :
    Differs t (ms.calls path) := by
  rcases first_call hne h hvp with hempty | ⟨q, v, t', rfl, hcalls⟩
  · exact .inr hempty
  · obtain ⟨w, e, he⟩ := hcalls path
    rw [he]
    refine .inl (Parted.cons ?_ t' e)
    intro hsame
    have hpath := congrArg (fun c => c.kp.length) hsame
    simp only [List.length_append] at hpath
    omega

/-! ## In step -/

/-- What a walk makes of an object, when `good` says whether it stays in step. -/
def Compares (good : Prop) (made wanted : List InsertCall) : Prop :=
  (good → made = wanted) ∧ (¬ good → Differs made wanted)

theorem Compares.congr {good good' : Prop} {made wanted : List InsertCall}
    (h : Compares good made wanted) (hiff : good ↔ good') : Compares good' made wanted :=
  ⟨fun hgood => h.1 (hiff.mpr hgood), fun hbad => h.2 fun hgood => hbad (hiff.mp hgood)⟩

theorem Compares.cons {good : Prop} {made wanted : List InsertCall} (h : Compares good made wanted)
    (c : InsertCall) : Compares good (c :: made) (c :: wanted) :=
  ⟨fun hgood => congrArg (c :: ·) (h.1 hgood), fun hbad => (h.2 hbad).append_left [c]⟩

theorem Compares.eq_iff {good : Prop} {made : List InsertCall} {ms : Members}
    {path : List String} (h : Compares good made (ms.calls path)) :
    made = ms.calls path ↔ good := by
  constructor
  · intro heq
    by_contra hbad
    exact (h.2 hbad).ne_calls heq
  · exact h.1

/-- A call without a value is one too many. -/
theorem compares_empty {good : Prop} (hbad : ¬ good) (kp : List String)
    (t wanted : List InsertCall) : Compares good (⟨kp, []⟩ :: t) wanted :=
  ⟨fun hgood => absurd hgood hbad, fun _ => .inr ⟨_, List.mem_cons_self, rfl⟩⟩

/-- Behind a member with children, the walk is right only if nothing follows. -/
theorem compares_behind {props : Store} {rest : Members} {path : List String} {k : String}
    {num : List UInt32} {good : Prop} {below wanted others : List InsertCall}
    (hbelow : Compares good below wanted)
    (hothers : mapProperties props ⟨path ++ [k], [], num⟩ rest.toChildren = some others) :
    Compares (rest = .nil ∧ good) (below ++ others) (wanted ++ rest.calls path) := by
  constructor
  · rintro ⟨rfl, hgood⟩
    cases hothers
    rw [hbelow.1 hgood]
    rfl
  · intro hbad
    by_cases hgood : good
    · have hrest : rest ≠ .nil := fun hnil => hbad ⟨hnil, hgood⟩
      rw [hbelow.1 hgood]
      -- the walk comes to the next member with `k` still on its path
      refine (differs_of_length_ne hrest hothers rfl ?_).append_left wanted
      show (path ++ [k]).length ≠ path.length
      rw [List.length_append, List.length_singleton]
      omega
    · exact (hbelow.2 hgood).append others _

theorem compares_elementNodes {props : Store} {kp : List String} {num : List UInt32}
    {es : List String} {t : List InsertCall} (hes : ∀ e ∈ es, e ≠ "")
    (hcount : UInt32.ofNat es.length ≠ 0)
    (h : mapProperties props ⟨kp, [], UInt32.ofNat es.length :: num⟩ (elementNodes es) = some t) :
    Compares (es.length < 2 ^ 32) t [⟨kp, es⟩] := by
  obtain ⟨t', rfl, hend⟩ := calls_elementNodes (toNat_pos hcount) (toNat_ofNat_le _) h
  rw [List.nil_append, collected_of_nonempty fun e he => hes e (List.mem_of_mem_take he)]
  constructor
  · intro hlt
    have hall := toNat_ofNat_of_lt hlt
    rw [hend hall, hall, List.take_length]
  · intro hge
    refine .inl (Parted.cons ?_ t' [])
    intro hsame
    have hlength := congrArg (fun c => c.vp.length) hsame
    have hlt : (UInt32.ofNat es.length).toNat < 2 ^ 32 := UInt32.toNat_lt _
    simp only [List.length_take] at hlength
    omega

theorem compares_array {props : Store} {key first second : Token} {more : List Token}
    {rest : Members} {path : List String} {num : List UInt32} {t : List InsertCall}
    (h : mapProperties props ⟨path, [], num⟩
      (Members.array key first second more rest).toChildren = some t) :
    Compares (Members.array key first second more rest).Linear t
      ((Members.array key first second more rest).calls path) := by
  obtain ⟨calls, s', below, others, hvisit, hbelow, hothers, rfl⟩ := mapProperties_cons h
  have hsize := size_elementNodes (elements first second more)
  have hlength := length_elements first second more
  rcases visit_node key.nonempty hvisit with ⟨hcount, rfl, rfl⟩ | ⟨hcount, rfl⟩
  · rw [hsize] at hcount hbelow
    exact compares_behind
      (compares_elementNodes (fun e he => ne_empty_of_mem_elements he) hcount hbelow) hothers
  · refine compares_empty (fun hlinear => ?_) _ _ _
    have hall := toNat_ofNat_of_lt hlinear.2
    rw [hsize] at hcount
    rw [hcount] at hall
    have hzero : (0 : UInt32).toNat = 0 := rfl
    omega

theorem Members.length_pos {ms : Members} (h : ms ≠ .nil) : 0 < ms.length := by
  cases ms with
  | nil => exact absurd rfl h
  | scalar key val rest => exact Nat.succ_pos _
  | array key first second more rest => exact Nat.succ_pos _
  | object key sub rest => exact Nat.succ_pos _

/-- `hrest` is the comparison for the members behind it. -/
theorem compares_scalar {props : Store} {key val : Token} {rest : Members} {path : List String}
    {c : UInt32} {num : List UInt32} {t : List InsertCall}
    (hrest : ∀ {kp : List String} {c : UInt32} {num : List UInt32} {t : List InsertCall},
      mapProperties props ⟨kp, [], c :: num⟩ rest.toChildren = some t → c.toNat ≤ rest.length →
        (rest ≠ .nil → 0 < c.toNat) →
          Compares (c.toNat = rest.length ∧ rest.Linear) t (rest.calls kp))
    (h : mapProperties props ⟨path, [], c :: num⟩ (Members.scalar key val rest).toChildren = some t)
    (hle : c.toNat ≤ (Members.scalar key val rest).length) (hpos : 0 < c.toNat) :
    Compares (c.toNat = (Members.scalar key val rest).length ∧ (Members.scalar key val rest).Linear)
      t ((Members.scalar key val rest).calls path) := by
  have hpred := toNat_sub_one hpos
  obtain ⟨calls, s', below, others, hvisit, hbelow, hothers, rfl⟩ := mapProperties_cons h
  obtain ⟨rfl, m, num', hnum, hpop⟩ := visit_scalar hvisit
  cases hnum
  cases hbelow
  obtain ⟨hvp, hstop, hgo⟩ := popZeros_spec hpop
  rw [Members.length] at hle ⊢
  refine Compares.cons ?_ ⟨path ++ [key.text], [val.text]⟩
  by_cases hlast : c - 1 = 0
  · -- the counter is used up: the inner loop takes a key off the path
    have hone : c.toNat = 1 := by
      have hzero : (c - 1).toNat = 0 := congrArg UInt32.toNat hlast
      omega
    by_cases hnil : rest = .nil
    · subst hnil
      cases hothers
      exact ⟨fun _ => rfl, fun hbad => absurd ⟨hone, trivial⟩ hbad⟩
    · have hmore := Members.length_pos hnil
      refine ⟨fun hgood => absurd hgood.1 (by omega), fun _ => ?_⟩
      exact differs_of_length_ne hnil hothers hvp (Nat.ne_of_lt (hgo hlast))
  · rw [hstop hlast] at hothers
    have hpos' := toNat_pos hlast
    refine (hrest hothers (by omega) fun _ => hpos').congr (and_congr_left fun _ => ?_)
    omega

/-- `hsub` is the comparison for the members one level down. -/
theorem compares_object {props : Store} {key : Token} {sub rest : Members} {path : List String}
    {num : List UInt32} {t : List InsertCall}
    (hsub : ∀ {kp : List String} {c : UInt32} {num : List UInt32} {t : List InsertCall},
      mapProperties props ⟨kp, [], c :: num⟩ sub.toChildren = some t → c.toNat ≤ sub.length →
        (sub ≠ .nil → 0 < c.toNat) → Compares (c.toNat = sub.length ∧ sub.Linear) t (sub.calls kp))
    (h : mapProperties props ⟨path, [], num⟩ (Members.object key sub rest).toChildren = some t) :
    Compares (Members.object key sub rest).Linear t
      ((Members.object key sub rest).calls path) := by
  obtain ⟨calls, s', below, others, hvisit, hbelow, hothers, rfl⟩ := mapProperties_cons h
  have hsize := sub.size_toChildren
  rcases visit_node key.nonempty hvisit with ⟨hcount, rfl, rfl⟩ | ⟨hcount, rfl⟩
  · rw [hsize] at hcount hbelow
    have hinner := hsub hbelow (toNat_ofNat_le _) fun _ => toNat_pos hcount
    rw [Members.calls_object]
    refine (compares_behind hinner hothers).congr ?_
    have hne : sub ≠ .nil := by
      rintro rfl
      exact hcount rfl
    have hlt : (UInt32.ofNat sub.length).toNat < 2 ^ 32 := UInt32.toNat_lt _
    constructor
    · rintro ⟨hrest, hall, hlinear⟩
      exact ⟨hrest, hne, by omega, hlinear⟩
    · rintro ⟨hrest, -, hbound, hlinear⟩
      exact ⟨hrest, toNat_ofNat_of_lt hbound, hlinear⟩
  · refine compares_empty (fun hlinear => ?_) _ _ _
    obtain ⟨-, hne, hbound, -⟩ := hlinear
    have hpos := Members.length_pos hne
    have hall := toNat_ofNat_of_lt hbound
    rw [hsize] at hcount
    rw [hcount] at hall
    have hzero : (0 : UInt32).toNat = 0 := rfl
    omega

/-- The walk over the members of an object, from a state in step with them: its path is theirs, it
has collected nothing, and its counter is the number of members or, wrapped around, less. -/
theorem compares_members {props : Store} (ms : Members) {path : List String} {c : UInt32}
    {num : List UInt32} {t : List InsertCall}
    (h : mapProperties props ⟨path, [], c :: num⟩ ms.toChildren = some t)
    (hle : c.toNat ≤ ms.length) (hpos : ms ≠ .nil → 0 < c.toNat) :
    Compares (c.toNat = ms.length ∧ ms.Linear) t (ms.calls path) := by
  induction ms generalizing path c num t with
  | nil =>
      cases h
      exact ⟨fun _ => rfl, fun hbad => absurd ⟨Nat.le_zero.mp hle, trivial⟩ hbad⟩
  | scalar key val rest ih => exact compares_scalar ih h hle (hpos nofun)
  | array key first second more rest ih =>
      -- a linear array is the last member, so the counter can only be one
      have hcount : 0 < c.toNat := hpos nofun
      refine (compares_array h).congr ⟨fun hlinear => ⟨?_, hlinear⟩, fun hgood => hgood.2⟩
      obtain ⟨rfl, -⟩ := hlinear
      exact Nat.le_antisymm hle hcount
  | object key sub rest ihsub ih =>
      have hcount : 0 < c.toNat := hpos nofun
      refine (compares_object ihsub h).congr ⟨fun hlinear => ⟨?_, hlinear⟩, fun hgood => hgood.2⟩
      obtain ⟨rfl, -⟩ := hlinear
      exact Nat.le_antisymm hle hcount

/-! ## Key paths follow the tree -/

/-- **Key paths follow the tree exactly when the document is linear.** The walk has completed
without leaving its vectors; its calls are the entries of the document if and only if no member
with children has a member behind it. -/
theorem keyPaths_iff {props : Store} {doc : Document} {t : List InsertCall}
    (h : mapProperties props ⟨[], [], []⟩ doc.toTree.children = some t) :
    t = doc.calls ↔ doc.Linear := by
  cases doc with
  | scalar val =>
      cases h
      exact ⟨fun heq => (nomatch heq), False.elim⟩
  | array first second more =>
      -- at the top there is no counter to count the elements off
      obtain ⟨calls, s', below, others, hvisit, -⟩ := mapProperties_cons h
      obtain ⟨m, num, hnum, -⟩ := visit_element hvisit
      cases hnum
  | object members =>
      cases members with
      | nil =>
          cases h
          exact ⟨fun _ => trivial, fun _ => rfl⟩
      | scalar key val rest =>
          obtain ⟨calls, s', below, others, hvisit, -⟩ := mapProperties_cons h
          obtain ⟨-, m, num, hnum, -⟩ := visit_scalar hvisit
          cases hnum
      | array key first second more rest => exact (compares_array h).eq_iff
      | object key sub rest =>
          exact (compares_object (fun hsub => compares_members sub hsub) h).eq_iff

/-- `{"a": {"x": "1"}, "b": {"y": "2"}}` -/
def twoObjects : Document :=
  .object (.object ⟨"a", a_ne_empty⟩ (.scalar ⟨"x", x_ne_empty⟩ ⟨"1", by decide⟩ .nil)
    (.object ⟨"b", b_ne_empty⟩ (.scalar ⟨"y", by decide⟩ ⟨"2", by decide⟩ .nil) .nil))

theorem keyPaths_iff_twoObjects :
    [⟨["a", "x"], ["1"]⟩, ⟨["a", "b", "y"], ["2"]⟩] = twoObjects.calls ↔ twoObjects.Linear :=
  have hrun : mapProperties Store.empty ⟨[], [], []⟩ twoObjects.toTree.children =
      some [⟨["a", "x"], ["1"]⟩, ⟨["a", "b", "y"], ["2"]⟩] := by decide
  keyPaths_iff hrun

/-- `b.y` is inserted as `a.b.y`. -/
theorem not_keyPaths_twoObjects :
    mapProperties Store.empty ⟨[], [], []⟩ twoObjects.toTree.children =
        some [⟨["a", "x"], ["1"]⟩, ⟨["a", "b", "y"], ["2"]⟩] ∧
      twoObjects.calls = [⟨["a", "x"], ["1"]⟩, ⟨["b", "y"], ["2"]⟩] ∧
      ¬ ∀ t, mapProperties Store.empty ⟨[], [], []⟩ twoObjects.toTree.children = some t →
        t = twoObjects.calls := by
  have hrun : mapProperties Store.empty ⟨[], [], []⟩ twoObjects.toTree.children =
      some [⟨["a", "x"], ["1"]⟩, ⟨["a", "b", "y"], ["2"]⟩] := by decide
  refine ⟨hrun, by decide, fun h => ?_⟩
  exact absurd (h _ hrun) (by decide)

end Kcmsg
