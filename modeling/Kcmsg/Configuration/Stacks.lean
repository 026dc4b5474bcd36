import Kcmsg.Configuration.Paths

/-!
# The stacks of the tree walk

`mapProperties` keeps three vectors and takes for granted that they are long enough: that `num`
has a second last element, that `kp` is not empty when a key is popped, that a counter that is
decremented is not zero. `Watched` is the walk with these three things tested where they are
relied on. It stops at the first that fails, and where it does not stop it is the walk
(`Watched.mapProperties_refines`).

Counters are never zero when they are decremented (`Watched.mapProperties_ne_counter`); the other
two depend on the document. A member without members of its own is counted off, and that needs a
counter, and a key for every counter this exhausts (`Covers`). The counters are those of the
members with members that were visited before; at the top of a document there is none, and a
scalar that comes first is counted off a vector that has one element.
-/

namespace Kcmsg

/-- What can go wrong in the vectors. -/
inductive Violation where
  /-- `num.end()[-2]` of less than two elements -/
  | num
  /-- `kp.pop_back()` of an empty vector -/
  | kp
  /-- a counter that is zero is decremented -/
  | counter
  deriving DecidableEq

namespace Watched

def popBack (v : List String) : Except Violation (List String) :=
  if v = [] then .error .kp else .ok v.dropLast

def decrement (c : UInt32) : Except Violation UInt32 :=
  if c = 0 then .error .counter else .ok (c - 1)

/-- `num.end()[-2]--`, of `num` with the member's own counter behind it. -/
def countOff : List UInt32 → Except Violation (UInt32 × List UInt32)
  | [] => .error .num
  | m :: num => do
    let m ← decrement m
    return (m, num)

/-- `insertProperty` pops a key too, of its copy, when it is given no value. -/
def insertProperty (kp vp : List String) : Except Violation Unit := do
  match vp with
  | [] => let _ ← popBack kp
  | _ => return ()

def popZeros (kp vp : List String) (top : UInt32) (num : List UInt32) : Except Violation Locals :=
  if top = 0 then do
    let kp ← popBack kp
    match num with
    | [] => return ⟨kp, vp, []⟩
    | m :: num =>
        let m ← decrement m
        popZeros kp vp m num
  else return ⟨kp, vp, top :: num⟩

def visit (s : Locals) (key data : String) (size : Nat) : Except Violation Locals :=
  let n := UInt32.ofNat size
  let kp := if key = "" then s.kp else s.kp ++ [key]
  let vp := if data = "" then s.vp else s.vp ++ [data]
  if n = 0 then
    if key = "" then do
      let (m, num) ← countOff s.num
      if m = 0 then do
        insertProperty kp vp
        popZeros kp [] m num
      else popZeros kp vp m num
    else do
      insertProperty kp vp
      let kp ← popBack kp
      let (m, num) ← countOff s.num
      popZeros kp [] m num
  else popZeros kp vp n s.num

def mapProperties (s : Locals) : Children → Except Violation Unit
  | .nil => return ()
  | .cons key data sub rest => do
      let s ← visit s key data sub.size
      mapProperties s sub
      mapProperties s rest

/-! ## The tests change nothing -/

theorem bind_eq_ok {α β : Type} {x : Except Violation α} {f : α → Except Violation β} {b : β} :
    (x >>= f) = .ok b ↔ ∃ a, x = .ok a ∧ f a = .ok b := by
  cases x with
  | error e => exact ⟨fun h => (nomatch h), fun ⟨_, h, _⟩ => nomatch h⟩
  | ok a => exact ⟨fun h => ⟨a, rfl, h⟩, fun ⟨_, h, hf⟩ => by cases h; exact hf⟩

theorem popBack_eq_ok {v w : List String} (h : popBack v = .ok w) :
    v ≠ [] ∧ w = v.dropLast := by
  unfold popBack at h
  split at h
  · cases h
  · next hne =>
      cases h
      exact ⟨hne, rfl⟩

theorem popBack_ok {v : List String} (h : v ≠ []) : popBack v = .ok v.dropLast := if_neg h

theorem decrement_ok {c : UInt32} (h : c ≠ 0) : decrement c = .ok (c - 1) := if_neg h

theorem decrement_eq_ok {c d : UInt32} (h : decrement c = .ok d) : c ≠ 0 ∧ d = c - 1 := by
  unfold decrement at h
  split at h
  · cases h
  · next hne =>
      cases h
      exact ⟨hne, rfl⟩

theorem countOff_eq_ok {num num' : List UInt32} {m : UInt32} (h : countOff num = .ok (m, num')) :
    ∃ c, num = c :: num' ∧ c ≠ 0 ∧ m = c - 1 := by
  cases num with
  | nil => cases h
  | cons c num =>
      obtain ⟨d, hd, h⟩ := bind_eq_ok.mp h
      obtain ⟨hc, rfl⟩ := decrement_eq_ok hd
      cases h
      exact ⟨c, rfl, hc, rfl⟩

theorem insertProperty_refines {kp vp : List String} (h : insertProperty kp vp = .ok ())
    (props : Store) : ∃ props', Kcmsg.insertProperty kp vp props = some props' := by
  unfold Kcmsg.insertProperty
  split
  · obtain ⟨w, hw, -⟩ := bind_eq_ok.mp h
    rw [popBack_of_ne (popBack_eq_ok hw).1]
    exact ⟨props, rfl⟩
  · exact ⟨_, rfl⟩
  · exact ⟨_, rfl⟩

/-- What the inner loop does, if it is not stopped: it ends in front of a counter that is not zero
or with the last level, and otherwise drops a level and counts it off at the one below. -/
theorem popZeros_induction {vp : List String} {s' : Locals}
    {P : List String → UInt32 → List UInt32 → Prop}
    (stop : ∀ kp top num, top ≠ 0 → s' = ⟨kp, vp, top :: num⟩ → P kp top num)
    (last : ∀ kp, kp ≠ [] → s' = ⟨kp.dropLast, vp, []⟩ → P kp 0 [])
    (drop : ∀ kp m num, kp ≠ [] → m ≠ 0 → P kp.dropLast (m - 1) num → P kp 0 (m :: num))
    {kp : List String} {top : UInt32} {num : List UInt32}
    (h : popZeros kp vp top num = .ok s') : P kp top num := by
  have hstop {kp : List String} {top : UInt32} {num : List UInt32} (htop : top ≠ 0)
      (h : popZeros kp vp top num = .ok s') : P kp top num := by
    unfold popZeros at h
    rw [if_neg htop] at h
    cases h
    exact stop kp top num htop rfl
  induction num generalizing kp top with
  | nil =>
      by_cases htop : top = 0
      · subst htop
        obtain ⟨kp', hkp, h⟩ := bind_eq_ok.mp h
        obtain ⟨hne, rfl⟩ := popBack_eq_ok hkp
        cases h
        exact last kp hne rfl
      · exact hstop htop h
  | cons m num ih =>
      by_cases htop : top = 0
      · subst htop
        obtain ⟨kp', hkp, h⟩ := bind_eq_ok.mp h
        obtain ⟨hne, rfl⟩ := popBack_eq_ok hkp
        obtain ⟨d, hd, h⟩ := bind_eq_ok.mp h
        obtain ⟨hm, rfl⟩ := decrement_eq_ok hd
        exact drop kp m num hne hm (ih h)
      · exact hstop htop h

theorem popZeros_refines {kp vp : List String} {top : UInt32} {num : List UInt32} {s' : Locals}
    (h : popZeros kp vp top num = .ok s') : Kcmsg.popZeros kp vp top num = some s' := by
  refine popZeros_induction (P := fun kp top num => Kcmsg.popZeros kp vp top num = some s')
    ?_ ?_ ?_ h
  · rintro kp top num htop rfl
    exact popZeros_of_ne htop kp vp num
  · rintro kp hne rfl
    unfold Kcmsg.popZeros
    rw [if_pos rfl, popBack_of_ne hne]
    rfl
  · intro kp m num hne _ hrest
    unfold Kcmsg.popZeros
    rw [if_pos rfl, popBack_of_ne hne]
    exact hrest

/-- What a step does, if it is not stopped: it enters a member with members. A member without any
is counted off; one that has a key is inserted, and so are the elements of an array when the last
one of them has been collected. -/
theorem visit_eq_ok {s s' : Locals} {key data : String} {size : Nat}
    (h : visit s key data size = .ok s') :
    (UInt32.ofNat size ≠ 0 ∧ popZeros (if key = "" then s.kp else s.kp ++ [key])
      (if data = "" then s.vp else s.vp ++ [data]) (UInt32.ofNat size) s.num = .ok s') ∨
    (UInt32.ofNat size = 0 ∧ ∃ c num, s.num = c :: num ∧ c ≠ 0 ∧
      ((key ≠ "" ∧ insertProperty (s.kp ++ [key]) (if data = "" then s.vp else s.vp ++ [data]) =
          .ok () ∧ popZeros s.kp [] (c - 1) num = .ok s') ∨
        (key = "" ∧ c - 1 = 0 ∧
          insertProperty s.kp (if data = "" then s.vp else s.vp ++ [data]) = .ok () ∧
          popZeros s.kp [] (c - 1) num = .ok s') ∨
        (key = "" ∧ c - 1 ≠ 0 ∧ popZeros s.kp (if data = "" then s.vp else s.vp ++ [data])
          (c - 1) num = .ok s'))) := by
  unfold visit at h
  by_cases hsize : UInt32.ofNat size = 0
  · refine .inr ⟨hsize, ?_⟩
    by_cases hkey : key = ""
    · simp only [if_pos hsize, if_pos hkey] at h
      obtain ⟨⟨m, num⟩, hcount, h⟩ := bind_eq_ok.mp h
      obtain ⟨c, hnum, hc, rfl⟩ := countOff_eq_ok hcount
      refine ⟨c, num, hnum, hc, .inr ?_⟩
      by_cases hlast : c - 1 = 0
      · rw [if_pos hlast] at h
        obtain ⟨⟨⟩, hinsert, h⟩ := bind_eq_ok.mp h
        exact .inl ⟨hkey, hlast, hinsert, h⟩
      · rw [if_neg hlast] at h
        exact .inr ⟨hkey, hlast, h⟩
    · simp only [if_pos hsize, if_neg hkey] at h
      obtain ⟨⟨⟩, hinsert, h⟩ := bind_eq_ok.mp h
      obtain ⟨popped, hpopped, h⟩ := bind_eq_ok.mp h
      obtain ⟨⟨m, num⟩, hcount, h⟩ := bind_eq_ok.mp h
      obtain ⟨c, hnum, hc, rfl⟩ := countOff_eq_ok hcount
      rw [(popBack_eq_ok hpopped).2, List.dropLast_concat] at h
      exact ⟨c, num, hnum, hc, .inl ⟨hkey, hinsert, h⟩⟩
  · simp only [if_neg hsize] at h
    exact .inl ⟨hsize, h⟩

/-- Where the watched walk goes on from a member, the walk does. -/
theorem visit_refines {s s' : Locals} {key data : String} {size : Nat}
    (h : visit s key data size = .ok s') (props : Store) :
    ∃ calls, Kcmsg.visit props s key data size = some (calls, s') := by
  unfold Kcmsg.visit
  rcases visit_eq_ok h with ⟨hsize, hpop⟩ | ⟨hsize, c, num, hnum, -, hcases⟩
  · simp only [if_neg hsize, popZeros_refines hpop]
    exact ⟨_, rfl⟩
  · simp only [if_pos hsize, hnum]
    rcases hcases with ⟨hkey, hinsert, hpop⟩ | ⟨hkey, hlast, hinsert, hpop⟩ | ⟨hkey, hlast, hpop⟩
    · obtain ⟨props', hinsert⟩ := insertProperty_refines hinsert props
      simp only [if_neg hkey, hinsert, popBack_concat, popZeros_refines hpop,
        Option.bind_eq_bind, Option.bind_some]
      exact ⟨_, rfl⟩
    · obtain ⟨props', hinsert⟩ := insertProperty_refines hinsert props
      simp only [if_pos hkey, if_pos hlast, hinsert, popZeros_refines hpop,
        Option.bind_eq_bind, Option.bind_some]
      exact ⟨_, rfl⟩
    · simp only [if_pos hkey, if_neg hlast, popZeros_refines hpop]
      exact ⟨_, rfl⟩

/-- **A walk that is not stopped is the walk.** -/
theorem mapProperties_refines {s : Locals} {cs : Children} (h : mapProperties s cs = .ok ())
    (props : Store) : ∃ calls, Kcmsg.mapProperties props s cs = some calls := by
  induction cs generalizing s with
  | nil => exact ⟨[], rfl⟩
  | cons key data sub rest ihsub ih =>
      obtain ⟨s', hvisit, h⟩ := bind_eq_ok.mp h
      obtain ⟨⟨⟩, hsub, hrest⟩ := bind_eq_ok.mp h
      obtain ⟨calls, hvisit⟩ := visit_refines hvisit props
      obtain ⟨below, hbelow⟩ := ihsub hsub
      obtain ⟨others, hothers⟩ := ih hrest
      refine ⟨calls ++ below ++ others, ?_⟩
      unfold Kcmsg.mapProperties
      simp only [hvisit, hbelow, hothers, Option.bind_eq_bind, Option.bind_some]
      rfl

end Watched

/-! ## What a member needs -/

/-- How many counters one more child exhausts: those at the back that stand at one. -/
def exhausted : List UInt32 → Nat
  | [] => 0
  | m :: num => if m = 1 then exhausted num + 1 else 0

/-- There is something to count the member off, and a key for every counter this exhausts. A
member with members of its own needs nothing. -/
def Covers (s : Locals) (size : Nat) : Prop :=
  UInt32.ofNat size = 0 → s.num ≠ [] ∧ exhausted s.num ≤ s.kp.length

/-- No counter is zero. -/
def Counting (num : List UInt32) : Prop := ∀ m ∈ num, m ≠ 0

theorem Counting.tail {m : UInt32} {num : List UInt32} (h : Counting (m :: num)) : Counting num :=
  fun c hc => h c (List.mem_cons_of_mem m hc)

theorem Counting.cons {m : UInt32} {num : List UInt32} (hm : m ≠ 0) (h : Counting num) :
    Counting (m :: num) := by
  intro c hc
  rcases List.mem_cons.mp hc with rfl | hc
  · exact hm
  · exact h c hc

theorem sub_one_eq_zero_iff {m : UInt32} (hm : m ≠ 0) : m - 1 = 0 ↔ m = 1 := by
  have hpred := toNat_sub_one (toNat_pos hm)
  have hpos := toNat_pos hm
  rw [← UInt32.toNat_inj, ← UInt32.toNat_inj, hpred]
  show m.toNat - 1 = 0 ↔ m.toNat = 1
  omega

theorem exhausted_cons_le_iff {m : UInt32} (hm : m ≠ 0) (num : List UInt32) (k : Nat) :
    exhausted (m :: num) ≤ k ↔ (m - 1 = 0 → exhausted num + 1 ≤ k) := by
  rw [sub_one_eq_zero_iff hm, exhausted]
  by_cases hone : m = 1
  · rw [if_pos hone]
    exact ⟨fun h _ => h, fun h => h hone⟩
  · rw [if_neg hone]
    exact iff_of_true (Nat.zero_le k) fun h => absurd h hone

namespace Watched

variable {kp vp : List String} {top : UInt32} {num : List UInt32} {s s' : Locals}

/-- The inner loop leaves no counter at zero. -/
theorem popZeros_counting (h : popZeros kp vp top num = .ok s') :
    Counting num → Counting s'.num := by
  refine popZeros_induction (P := fun _ _ num => Counting num → Counting s'.num) ?_ ?_ ?_ h
  · rintro kp top num htop rfl hnum
    exact hnum.cons htop
  · rintro kp - rfl hnum
    exact hnum
  · intro kp m num _ _ hrest hnum
    exact hrest hnum.tail

/-- The inner loop needs a key for each level it drops. -/
theorem popZeros_ok_iff (hnum : Counting num) :
    (∃ s', popZeros kp vp top num = .ok s') ↔ (top = 0 → exhausted num + 1 ≤ kp.length) := by
  induction num generalizing kp top with
  | nil =>
      unfold popZeros
      by_cases htop : top = 0
      · rw [if_pos htop]
        cases kp with
        | nil =>
            refine iff_of_false (fun ⟨_, h⟩ => nomatch h) fun h => ?_
            exact absurd (h htop) (Nat.not_succ_le_zero _)
        | cons k kp => exact iff_of_true ⟨_, rfl⟩ fun _ => Nat.succ_le_succ (Nat.zero_le _)
      · rw [if_neg htop]
        exact iff_of_true ⟨_, rfl⟩ fun h => absurd h htop
  | cons m num ih =>
      unfold popZeros
      by_cases htop : top = 0
      · rw [if_pos htop]
        have hm : m ≠ 0 := hnum m List.mem_cons_self
        by_cases hkp : kp = []
        · subst hkp
          refine iff_of_false (fun ⟨_, h⟩ => nomatch h) fun h => ?_
          exact absurd (h htop) (Nat.not_succ_le_zero _)
        · have hpos := List.length_pos_iff.mpr hkp
          have hrest : _ ↔ _ := @ih kp.dropLast (m - 1) hnum.tail
          rw [← exhausted_cons_le_iff hm, List.length_dropLast] at hrest
          simp only [popBack_ok hkp, decrement_ok hm]
          refine hrest.trans ⟨fun h _ => by omega, fun h => ?_⟩
          have := h htop
          omega
      · rw [if_neg htop]
        exact iff_of_true ⟨_, rfl⟩ fun h => absurd h htop

/-- What a step of the walk does: a member with members is entered, any other is counted off. -/
theorem visit_cases {key data : String} {size : Nat} (h : visit s key data size = .ok s') :
    (UInt32.ofNat size ≠ 0 ∧ ∃ vp,
      s' = ⟨if key = "" then s.kp else s.kp ++ [key], vp, UInt32.ofNat size :: s.num⟩) ∨
    (UInt32.ofNat size = 0 ∧ ∃ vp m num, s.num = m :: num ∧ m ≠ 0 ∧
      popZeros s.kp vp (m - 1) num = .ok s') := by
  rcases visit_eq_ok h with ⟨hsize, hpop⟩ | ⟨hsize, m, num, hnum, hm, hcases⟩
  · have hstop := (popZeros_spec (popZeros_refines hpop)).2.1 hsize
    exact .inl ⟨hsize, _, hstop⟩
  · rcases hcases with ⟨-, -, hpop⟩ | ⟨-, -, -, hpop⟩ | ⟨-, -, hpop⟩
    all_goals exact .inr ⟨hsize, _, m, num, hnum, hm, hpop⟩

theorem visit_counting {key data : String} {size : Nat} (h : visit s key data size = .ok s')
    (hs : Counting s.num) : Counting s'.num := by
  rcases visit_cases h with ⟨hsize, vp, rfl⟩ | ⟨-, vp, m, num, hnum, -, hpop⟩
  · exact hs.cons hsize
  · rw [hnum] at hs
    exact popZeros_counting hpop hs.tail

theorem insertProperty_ok {kp : List String} (hkp : kp ≠ []) (vp : List String) :
    insertProperty kp vp = .ok () := by
  unfold insertProperty
  split
  · rw [popBack_ok hkp]
    rfl
  · rfl

/-- A member is visited without leaving the vectors exactly if they cover it. -/
theorem visit_ok_iff (hs : Counting s.num) (key data : String) (size : Nat) :
    (∃ s', visit s key data size = .ok s') ↔ Covers s size := by
  constructor
  · rintro ⟨s', h⟩ hsize
    rcases visit_cases h with ⟨hne, -⟩ | ⟨-, vp, m, num, hnum, hm, hpop⟩
    · exact absurd hsize hne
    · rw [hnum] at hs ⊢
      refine ⟨List.cons_ne_nil _ _, (exhausted_cons_le_iff hm num _).mpr ?_⟩
      exact (popZeros_ok_iff hs.tail).mp ⟨s', hpop⟩
  · intro h
    unfold visit
    by_cases hsize : UInt32.ofNat size = 0
    · obtain ⟨hne, hkeys⟩ := h hsize
      obtain ⟨m, num, hnum⟩ := List.exists_cons_of_ne_nil hne
      rw [hnum] at hs hkeys
      have hm : m ≠ 0 := hs m List.mem_cons_self
      have hcount : countOff (m :: num) = .ok (m - 1, num) := by
        rw [countOff, decrement_ok hm]
        rfl
      have hpop (vp : List String) : ∃ s', popZeros s.kp vp (m - 1) num = .ok s' :=
        (popZeros_ok_iff hs.tail).mpr ((exhausted_cons_le_iff hm num _).mp hkeys)
      by_cases hkey : key = ""
      · simp only [if_pos hsize, if_pos hkey, hnum, hcount]
        by_cases hlast : m - 1 = 0
        · -- the last one inserts, and the path it inserts under is not empty
          have hkp : s.kp ≠ [] := by
            have := (exhausted_cons_le_iff hm num _).mp hkeys hlast
            exact List.length_pos_iff.mp (by omega)
          obtain ⟨s', hpop⟩ := hpop []
          refine ⟨s', ?_⟩
          simp only [bind, Except.bind, if_pos hlast, insertProperty_ok hkp, hpop]
        · simp only [bind, Except.bind, if_neg hlast]
          exact hpop _
      · simp only [if_pos hsize, if_neg hkey, hnum, hcount]
        have hkp : s.kp ++ [key] ≠ [] := List.append_ne_nil_of_right_ne_nil _ (List.cons_ne_nil _ _)
        simp only [bind, Except.bind, insertProperty_ok hkp, popBack_ok hkp, List.dropLast_concat]
        exact hpop []
    · simp only [if_neg hsize]
      exact (popZeros_ok_iff hs).mpr fun hzero => absurd hzero hsize

end Watched

/-! ## The whole walk -/

/-- The walk over `cs` from the vectors `s` comes to a member of this key, these data and so many
members with the vectors `σ`. -/
inductive Visits (props : Store) : Locals → Children → Locals → String → String → Nat → Prop
  | here {s : Locals} {key data : String} {sub rest : Children} :
      Visits props s (.cons key data sub rest) s key data sub.size
  | inside {s s' σ : Locals} {key data k d : String} {sub rest : Children} {n : Nat}
      {calls : List InsertCall} :
      visit props s key data sub.size = some (calls, s') → Visits props s' sub σ k d n →
        Visits props s (.cons key data sub rest) σ k d n
  | behind {s s' σ : Locals} {key data k d : String} {sub rest : Children} {n : Nat}
      {calls : List InsertCall} :
      visit props s key data sub.size = some (calls, s') → Visits props s' rest σ k d n →
        Visits props s (.cons key data sub rest) σ k d n

/-- The walk of `readConfigurationFile` over a tree never leaves its vectors and never decrements a
counter that is zero. -/
def WalkSafe (pt : Ptree) : Prop := Watched.mapProperties ⟨[], [], []⟩ pt.children = .ok ()

namespace Watched

theorem mapProperties_cons_iff {s : Locals} {key data : String} {sub rest : Children} :
    mapProperties s (.cons key data sub rest) = .ok () ↔
      ∃ s', visit s key data sub.size = .ok s' ∧ mapProperties s' sub = .ok () ∧
        mapProperties s' rest = .ok () := by
  constructor
  · intro h
    obtain ⟨s', hvisit, h⟩ := bind_eq_ok.mp h
    obtain ⟨⟨⟩, hsub, hrest⟩ := bind_eq_ok.mp h
    exact ⟨s', hvisit, hsub, hrest⟩
  · rintro ⟨s', hvisit, hsub, hrest⟩
    exact bind_eq_ok.mpr ⟨s', hvisit, bind_eq_ok.mpr ⟨(), hsub, hrest⟩⟩

/-- A walk is not stopped exactly if every member it comes to is covered when it comes to it. -/
theorem mapProperties_ok_iff (props : Store) {s : Locals} {cs : Children} (hs : Counting s.num) :
    mapProperties s cs = .ok () ↔
      ∀ σ key data size, Visits props s cs σ key data size → Covers σ size := by
  induction cs generalizing s with
  | nil => exact iff_of_true rfl fun σ key data size h => nomatch h
  | cons key data sub rest ihsub ih =>
      rw [mapProperties_cons_iff]
      constructor
      · rintro ⟨s', hvisit, hsub, hrest⟩ σ k d n hσ
        have hs' : Counting s'.num := visit_counting hvisit hs
        obtain ⟨calls, hwalk⟩ := visit_refines hvisit props
        cases hσ with
        | here => exact (visit_ok_iff hs key data sub.size).mp ⟨s', hvisit⟩
        | inside hstep hσ =>
            cases hwalk.symm.trans hstep
            exact (ihsub hs').mp hsub σ k d n hσ
        | behind hstep hσ =>
            cases hwalk.symm.trans hstep
            exact (ih hs').mp hrest σ k d n hσ
      · intro hall
        obtain ⟨s', hvisit⟩ := (visit_ok_iff hs key data sub.size).mpr (hall _ _ _ _ .here)
        have hs' : Counting s'.num := visit_counting hvisit hs
        obtain ⟨calls, hwalk⟩ := visit_refines hvisit props
        refine ⟨s', hvisit, (ihsub hs').mpr fun σ k d n hσ => ?_, (ih hs').mpr fun σ k d n hσ => ?_⟩
        · exact hall σ k d n (.inside hwalk hσ)
        · exact hall σ k d n (.behind hwalk hσ)

end Watched

/-! ## Counters are never decremented at zero -/

namespace Watched

theorem bind_ne_error {α β : Type} {x : Except Violation α} {f : α → Except Violation β}
    {e : Violation} (hx : x ≠ .error e) (hf : ∀ a, x = .ok a → f a ≠ .error e) :
    (x >>= f) ≠ .error e := by
  cases x with
  | error e' =>
      intro h
      cases h
      exact hx rfl
  | ok a => exact hf a rfl

theorem popBack_ne_counter (v : List String) : popBack v ≠ .error .counter := by
  unfold popBack
  split <;> exact nofun

theorem insertProperty_ne_counter (kp vp : List String) :
    insertProperty kp vp ≠ .error .counter := by
  unfold insertProperty
  split
  · exact bind_ne_error (popBack_ne_counter kp) fun _ _ => nofun
  · exact nofun

variable {num : List UInt32}

theorem countOff_ne_counter (hnum : Counting num) : countOff num ≠ .error .counter := by
  cases num with
  | nil => exact nofun
  | cons m num =>
      rw [countOff, decrement_ok (hnum m List.mem_cons_self)]
      exact nofun

theorem popZeros_ne_counter (hnum : Counting num) (kp vp : List String) (top : UInt32) :
    popZeros kp vp top num ≠ .error .counter := by
  induction num generalizing kp top with
  | nil =>
      unfold popZeros
      split
      · exact bind_ne_error (popBack_ne_counter kp) fun _ _ => nofun
      · exact nofun
  | cons m num ih =>
      unfold popZeros
      split
      · refine bind_ne_error (popBack_ne_counter kp) fun kp' _ => ?_
        simp only [decrement_ok (hnum m List.mem_cons_self)]
        exact ih hnum.tail kp' (m - 1)
      · exact nofun

theorem visit_ne_counter {s : Locals} (hs : Counting s.num) (key data : String) (size : Nat) :
    visit s key data size ≠ .error .counter := by
  have hrest {m : UInt32} {num : List UInt32} (hcount : countOff s.num = .ok (m, num)) :
      Counting num := by
    obtain ⟨c, hnum, -, -⟩ := countOff_eq_ok hcount
    rw [hnum] at hs
    exact hs.tail
  unfold visit
  by_cases hsize : UInt32.ofNat size = 0
  · by_cases hkey : key = ""
    · simp only [if_pos hsize, if_pos hkey]
      refine bind_ne_error (countOff_ne_counter hs) ?_
      rintro ⟨m, num⟩ hcount
      by_cases hlast : m = 0
      · simp only [if_pos hlast]
        refine bind_ne_error (insertProperty_ne_counter _ _) fun _ _ => ?_
        exact popZeros_ne_counter (hrest hcount) _ _ _
      · simp only [if_neg hlast]
        exact popZeros_ne_counter (hrest hcount) _ _ _
    · simp only [if_pos hsize, if_neg hkey]
      refine bind_ne_error (insertProperty_ne_counter _ _) fun _ _ => ?_
      refine bind_ne_error (popBack_ne_counter _) fun _ _ => ?_
      refine bind_ne_error (countOff_ne_counter hs) ?_
      rintro ⟨m, num⟩ hcount
      exact popZeros_ne_counter (hrest hcount) _ _ _
  · simp only [if_neg hsize]
    exact popZeros_ne_counter hs _ _ _

theorem mapProperties_ne_counter {s : Locals} (hs : Counting s.num) (cs : Children) :
    mapProperties s cs ≠ .error .counter := by
  induction cs generalizing s with
  | nil => exact nofun
  | cons key data sub rest ihsub ih =>
      refine bind_ne_error (visit_ne_counter hs key data sub.size) fun s' hvisit => ?_
      have hs' : Counting s'.num := visit_counting hvisit hs
      exact bind_ne_error (ihsub hs') fun _ _ => ih hs'

end Watched

/-! ## What it takes at the top of a document

Where every object and array has a name, the path is always as long as `num`, and what counts is
how many members can still be counted off. Inside a member of the top there are always enough: it
has brought a counter for its own members. At the top itself there is only what the members before
have brought beyond one each. -/

/-- How many members can be counted off before `num` is empty. -/
def budget : List UInt32 → Nat
  | [] => 0
  | m :: num => m.toNat + (budget num - 1)

/-- Every object and array that is not empty has a key, and no counter wraps around. -/
def Children.Named : Children → Prop
  | nil => True
  | cons key _ sub rest =>
      (sub.size ≠ 0 → key ≠ "" ∧ sub.size < 2 ^ 32) ∧ sub.Named ∧ rest.Named

/-- Each member without members is paid for, `b` being there to begin with. -/
def Children.Paid (b : Nat) : Children → Prop
  | nil => True
  | cons _ _ sub rest =>
      if sub.size = 0 then 0 < b ∧ rest.Paid (b - 1) else rest.Paid (sub.size + (b - 1))

/-- The vectors of a walk through names only. -/
structure InStep (s : Locals) : Prop where
  counting : Counting s.num
  length : s.kp.length = s.num.length

theorem exhausted_le_length (num : List UInt32) : exhausted num ≤ num.length := by
  induction num with
  | nil => exact Nat.le_refl 0
  | cons m num ih =>
      rw [exhausted, List.length_cons]
      split
      · exact Nat.succ_le_succ ih
      · exact Nat.zero_le _

theorem budget_pos {num : List UInt32} (h : Counting num) : 0 < budget num ↔ num ≠ [] := by
  cases num with
  | nil => exact iff_of_false (Nat.lt_irrefl 0) fun h => h rfl
  | cons m num =>
      have hm := toNat_pos (h m List.mem_cons_self)
      refine iff_of_true ?_ (List.cons_ne_nil m num)
      rw [budget]
      omega

namespace Watched

/-- The inner loop drops as many keys as levels, and keeps the budget. -/
theorem popZeros_budget {kp vp : List String} {top : UInt32} {num : List UInt32} {s' : Locals}
    (h : popZeros kp vp top num = .ok s') :
    budget s'.num = top.toNat + (budget num - 1) ∧
      s'.kp.length + (num.length + 1) = kp.length + s'.num.length := by
  refine popZeros_induction (P := fun kp top num => budget s'.num = top.toNat + (budget num - 1) ∧
    s'.kp.length + (num.length + 1) = kp.length + s'.num.length) ?_ ?_ ?_ h
  · rintro kp top num - rfl
    exact ⟨rfl, rfl⟩
  · rintro kp hne rfl
    have hpos := List.length_pos_iff.mpr hne
    refine ⟨rfl, ?_⟩
    show kp.dropLast.length + 1 = kp.length
    rw [List.length_dropLast]
    omega
  · rintro kp m num hne hm ⟨hbudget, hlengths⟩
    have hkp := List.length_pos_iff.mpr hne
    have hpos := toNat_pos hm
    have hpred := toNat_sub_one hpos
    have hzero : (0 : UInt32).toNat = 0 := rfl
    rw [List.length_dropLast] at hlengths
    rw [budget, List.length_cons]
    omega

/-- A member without members costs one, any other brings its counter, less the one it costs. -/
theorem visit_budget {s s' : Locals} {key data : String} {size : Nat} (hs : InStep s)
    (hname : size ≠ 0 → key ≠ "" ∧ size < 2 ^ 32) (h : visit s key data size = .ok s') :
    InStep s' ∧ budget s'.num = size + (budget s.num - 1) := by
  rcases visit_cases h with ⟨hsize, vp, rfl⟩ | ⟨hsize, vp, m, num, hnum, hm, hpop⟩
  · have hne : size ≠ 0 := fun hzero => hsize (by rw [hzero]; rfl)
    obtain ⟨hkey, hlt⟩ := hname hne
    refine ⟨⟨hs.counting.cons hsize, ?_⟩, ?_⟩
    · simp [if_neg hkey, hs.length]
    · show budget (UInt32.ofNat size :: s.num) = size + (budget s.num - 1)
      rw [budget, toNat_ofNat_of_lt hlt]
  · have hzero : size = 0 := by
      by_contra hne
      have hall := toNat_ofNat_of_lt (hname hne).2
      rw [hsize] at hall
      exact hne hall.symm
    have hcounting := hs.counting
    have hlength := hs.length
    rw [hnum] at hcounting hlength
    obtain ⟨hbudget, hlengths⟩ := popZeros_budget hpop
    have hpos := toNat_pos hm
    have hpred := toNat_sub_one hpos
    rw [List.length_cons] at hlength
    refine ⟨⟨popZeros_counting hpop hcounting.tail, by omega⟩, ?_⟩
    rw [hbudget, hpred, hnum, budget, hzero]
    omega

/-- In step, a member is covered if it brings a counter or there is one. -/
theorem exists_visit {s : Locals} (hs : InStep s) (key data : String) (size : Nat)
    (hcovered : 0 < budget s.num ∨ (size ≠ 0 ∧ size < 2 ^ 32)) :
    ∃ s', visit s key data size = .ok s' := by
  refine (visit_ok_iff hs.counting key data size).mpr fun hsize => ?_
  rcases hcovered with hbudget | ⟨hne, hlt⟩
  · refine ⟨(budget_pos hs.counting).mp hbudget, ?_⟩
    rw [hs.length]
    exact exhausted_le_length s.num
  · have hall := toNat_ofNat_of_lt hlt
    rw [hsize] at hall
    exact absurd hall.symm hne

/-- With enough for all members of an object the walk gets through it. -/
theorem mapProperties_of_budget {s : Locals} {cs : Children} (hs : InStep s) (hnamed : cs.Named)
    (hbudget : cs.size ≤ budget s.num) : mapProperties s cs = .ok () := by
  induction cs generalizing s with
  | nil => rfl
  | cons key data sub rest ihsub ih =>
      obtain ⟨hname, hsub, hrest⟩ := hnamed
      rw [Children.size] at hbudget
      obtain ⟨s', hvisit⟩ := exists_visit hs key data sub.size (.inl (by omega))
      obtain ⟨hs', hleft⟩ := visit_budget hs hname hvisit
      exact mapProperties_cons_iff.mpr
        ⟨s', hvisit, ihsub hs' hsub (by omega), ih hs' hrest (by omega)⟩

/-- At the top the members without members have to be paid for. -/
theorem mapProperties_ok_iff_paid {s : Locals} {cs : Children} (hs : InStep s)
    (hnamed : cs.Named) : mapProperties s cs = .ok () ↔ cs.Paid (budget s.num) := by
  induction cs generalizing s with
  | nil => exact iff_of_true rfl trivial
  | cons key data sub rest ihsub ih =>
      obtain ⟨hname, hsub, hrest⟩ := hnamed
      rw [mapProperties_cons_iff, Children.Paid]
      by_cases hsize : sub.size = 0
      · rw [if_pos hsize]
        have hnil : sub = .nil := by
          cases sub with
          | nil => rfl
          | cons k d sub' rest' => cases hsize
        subst hnil
        constructor
        · rintro ⟨s', hvisit, -, hrest'⟩
          obtain ⟨hs', hleft⟩ := visit_budget hs hname hvisit
          have hcovers := (visit_ok_iff hs.counting key data _).mp ⟨s', hvisit⟩ rfl
          refine ⟨(budget_pos hs.counting).mpr hcovers.1, ?_⟩
          have hpaid := (ih hs' hrest).mp hrest'
          rwa [hleft, hsize, Nat.zero_add] at hpaid
        · rintro ⟨hpos, hpaid⟩
          obtain ⟨s', hvisit⟩ := exists_visit hs key data Children.nil.size (.inl hpos)
          obtain ⟨hs', hleft⟩ := visit_budget hs hname hvisit
          refine ⟨s', hvisit, rfl, (ih hs' hrest).mpr ?_⟩
          rwa [hleft, hsize, Nat.zero_add]
      · rw [if_neg hsize]
        obtain ⟨hkey, hlt⟩ := hname hsize
        obtain ⟨s', hvisit⟩ := exists_visit hs key data sub.size (.inr ⟨hsize, hlt⟩)
        obtain ⟨hs', hleft⟩ := visit_budget hs hname hvisit
        rw [← hleft, ← ih hs' hrest]
        constructor
        · rintro ⟨s'', hvisit', -, hrest'⟩
          cases hvisit.symm.trans hvisit'
          exact hrest'
        · intro hrest'
          exact ⟨s', hvisit, mapProperties_of_budget hs' hsub (by omega), hrest'⟩

end Watched

/-- **When the walk stays in its vectors.** In general, if every member is covered in the state in
which the walk comes to it. Of a document in which all objects and arrays have names that is a
property of the members at its top: each one without members has to be paid for by those before
it. A counter is not decremented at zero in any case. -/
theorem walkSafe_iff (props : Store) (pt : Ptree) :
    (WalkSafe pt ↔ ∀ s key data size, Visits props ⟨[], [], []⟩ pt.children s key data size →
      Covers s size) ∧
    (pt.children.Named → (WalkSafe pt ↔ pt.children.Paid 0)) ∧
    Watched.mapProperties ⟨[], [], []⟩ pt.children ≠ .error .counter := by
  have hnone : Counting [] := fun m hm => absurd hm List.not_mem_nil
  refine ⟨Watched.mapProperties_ok_iff props hnone, fun hnamed => ?_,
    Watched.mapProperties_ne_counter hnone pt.children⟩
  exact Watched.mapProperties_ok_iff_paid ⟨hnone, rfl⟩ hnamed

/-- `{"a": {"b": "1"}, "c": "2"}`: the member of `a` pays for `c`. -/
theorem walkSafe_objectFirst :
    WalkSafe ⟨"", .cons "a" "" (.cons "b" "1" .nil .nil) (.cons "c" "2" .nil .nil)⟩ := by
  refine ((walkSafe_iff Store.empty _).2.1 ?_).mpr ?_
  · simp [Children.Named, Children.size]
  · simp [Children.Paid, Children.size]

/-- `{"a": "1"}`: `num.end()[-2]` with one element in `num`. -/
theorem not_walkSafe_scalar :
    Watched.mapProperties ⟨[], [], []⟩ (.cons "a" "1" .nil .nil) = .error .num ∧
      ¬ WalkSafe ⟨"", .cons "a" "1" .nil .nil⟩ := by
  have hstops : Watched.mapProperties ⟨[], [], []⟩ (.cons "a" "1" .nil .nil) = .error .num := rfl
  exact ⟨hstops, fun h => nomatch hstops.symm.trans h⟩

end Kcmsg
