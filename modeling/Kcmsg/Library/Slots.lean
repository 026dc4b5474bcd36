import Kcmsg.Library.Handles

/-!
# Numbered slots

A table of slots that are numbered from zero on, in which everything new goes to the lowest free
slot, and holders, each of which remembers a number. A holder may be told to remember zero instead,
or a number that is none; nobody knows then who held the slot it had.

`Holders` are the table and the numbers. A `Pool` is what is left if the numbers are forgotten: a
holder has something of its own, or it shares slot zero with all others that were told to, or it
has nothing. The pool tells what a holder finds under its number, and how many slots are in use
(`Pool.Shows.afterAll`): which of the numbers above zero it is never makes a difference.
-/

structure Slots (α : Type) where
  cells : List (Option α)

variable {α : Type}

namespace Slots

/-- What is in the slot of a number; negative numbers and those that are too large have none. -/
def content (s : Slots α) (n : Int) : Option α := if n < 0 then none else s.cells[n.toNat]?.join

def lowest (s : Slots α) : Option Nat := s.cells.findIdx? Option.isNone

def used (s : Slots α) : Nat := s.cells.countP Option.isSome

def put (s : Slots α) (n : Nat) (a : α) : Slots α := ⟨s.cells.set n (some a)⟩

def free (s : Slots α) (n : Int) : Slots α := if n < 0 then s else ⟨s.cells.set n.toNat none⟩

/-- Put something into the lowest free slot; `-1` if there is none, or nothing to put there. -/
def take (s : Slots α) (a : Option α) : Int × Slots α :=
  match a, s.lowest with
  | some a, some n => (n, s.put n a)
  | _, _ => (-1, s)

end Slots

/-- What happens to the slots and their holders; the holders are numbered in the order in which
they come to be. -/
inductive SlotCall (α : Type) where
  /-- A new holder, of what is put into the lowest free slot. -/
  | acquire (a : Option α)
  /-- The same for no holder. -/
  | fill (a : Option α)
  /-- The holder is to remember zero, or else no number. -/
  | assign (i : Nat) (zero : Bool)
  /-- The slot is freed, and the holder is no more. -/
  | release (i : Nat)
  /-- The holder is no more. -/
  | drop (i : Nat)

structure Holders (α : Type) where
  slots : Slots α
  numbers : List (Option Int)

namespace Holders

def number (h : Holders α) (i : Nat) : Option Int := h.numbers[i]?.join

/-- What a holder finds under its number. -/
def reached (h : Holders α) (i : Nat) : Option α := (h.number i).bind h.slots.content

def step (h : Holders α) : SlotCall α → Holders α
  | .acquire a => ⟨(h.slots.take a).2, h.numbers ++ [some (h.slots.take a).1]⟩
  | .fill a => ⟨(h.slots.take a).2, h.numbers⟩
  | .assign i zero =>
      match h.number i with
      | some _ => ⟨h.slots, h.numbers.set i (some (if zero then 0 else -1))⟩
      | none => h
  | .release i =>
      match h.number i with
      | some n => ⟨h.slots.free n, h.numbers.set i none⟩
      | none => h
  | .drop i =>
      match h.number i with
      | some _ => ⟨h.slots, h.numbers.set i none⟩
      | none => h

end Holders

/-- What a number is worth to its holder. -/
inductive Hold (α : Type) where
  | own (a : α)
  | shared
  | nothing

namespace Hold

def isOwn : Hold α → Bool
  | own _ => true
  | _ => false

def isShared : Hold α → Bool
  | shared => true
  | _ => false

/-- What a holder that is told something else leaves behind. -/
def left (h : Hold α) : Nat := if h.isOwn then 1 else 0

end Hold

/-- The slots without their numbers: how many there are, what is in slot zero, how many of the
others have something in them that is nobody's own, and what the holders have. -/
structure Pool (α : Type) where
  size : Nat
  shared : Option α
  kept : Nat
  holds : List (Option (Hold α))

/-- The slots, with no holder yet. -/
def Slots.pool (s : Slots α) : Pool α :=
  ⟨s.cells.length, s.content 0, s.used - if (s.content 0).isSome then 1 else 0, []⟩

namespace Pool

def hold (p : Pool α) (i : Nat) : Option (Hold α) := p.holds[i]?.join

def reached (p : Pool α) (i : Nat) : Option α := (p.hold i).bind fun
  | .own a => some a
  | .shared => p.shared
  | .nothing => none

def owned (p : Pool α) : Nat := p.holds.countP fun o => o.any Hold.isOwn

def inUse (p : Pool α) : Nat := p.kept + p.owned + if p.shared.isSome then 1 else 0

/-- What there is room for. -/
def admitted (p : Pool α) (a : Option α) : Option α := if p.inUse < p.size then a else none

def step (p : Pool α) : SlotCall α → Pool α
  | .acquire a =>
      match p.admitted a, p.shared with
      | none, _ => { p with holds := p.holds ++ [some .nothing] }
      | some a, none => { p with shared := some a, holds := p.holds ++ [some .shared] }
      | some a, some _ => { p with holds := p.holds ++ [some (.own a)] }
  | .fill a =>
      match p.admitted a, p.shared with
      | none, _ => p
      | some a, none => { p with shared := some a }
      | some _, some _ => { p with kept := p.kept + 1 }
  | .assign i zero =>
      match p.hold i with
      | some h =>
          { p with
            kept := p.kept + h.left
            holds := p.holds.set i (some (if zero then .shared else .nothing)) }
      | none => p
  | .release i =>
      match p.hold i with
      | some h =>
          { p with
            shared := if h.isShared then none else p.shared
            holds := p.holds.set i none }
      | none => p
  | .drop i =>
      match p.hold i with
      | some h => { p with kept := p.kept + h.left, holds := p.holds.set i none }
      | none => p

end Pool

/-! ## The table -/

namespace Slots

variable {s : Slots α} {n : Nat} {a : α}

theorem content_natCast (s : Slots α) (n : Nat) : s.content n = s.cells[n]?.join := by
  rw [content, if_neg (Int.not_lt.mpr (Int.natCast_nonneg n)), Int.toNat_natCast]

theorem content_of_neg (s : Slots α) {m : Int} (hm : m < 0) : s.content m = none := if_pos hm

theorem length_free (s : Slots α) (m : Int) : (s.free m).cells.length = s.cells.length := by
  unfold free
  split
  · rfl
  · exact List.length_set

/-- The lowest free slot is free, and those below it are not. -/
theorem lowest_eq_some (h : s.lowest = some n) :
    s.cells[n]? = some none ∧ ∀ m < n, s.cells[m]? ≠ some none := by
  obtain ⟨hlt, hfree, hbelow⟩ := List.findIdx?_eq_some_iff_getElem.mp h
  refine ⟨List.getElem?_eq_some_iff.mpr ⟨hlt, Option.isNone_iff_eq_none.mp hfree⟩, ?_⟩
  intro m hm hnone
  obtain ⟨hlt', hnone'⟩ := List.getElem?_eq_some_iff.mp hnone
  exact hbelow m hm (Option.isNone_iff_eq_none.mpr hnone')

/-- There is a free slot unless all are in use. -/
theorem lowest_eq_none_iff (s : Slots α) : s.lowest = none ↔ ¬ s.used < s.cells.length := by
  have hle : s.used ≤ s.cells.length := List.countP_le_length
  have hfull : ¬ s.used < s.cells.length ↔ s.used = s.cells.length := by omega
  rw [hfull, lowest, List.findIdx?_eq_none_iff, used, List.countP_eq_length]
  refine forall₂_congr fun o _ => ?_
  cases o <;> simp

/-- What is put into the lowest free slot is there, and the others are as they were. -/
theorem content_put (h : s.lowest = some n) (a : α) (m : Int) :
    (s.put n a).content m = if m = n then some a else s.content m := by
  obtain ⟨hlt, -⟩ := List.getElem?_eq_some_iff.mp (lowest_eq_some h).1
  by_cases hm : m < 0
  · rw [content_of_neg _ hm, content_of_neg _ hm, if_neg (by omega)]
  · obtain ⟨k, rfl⟩ := Int.eq_ofNat_of_zero_le (Int.not_lt.mp hm)
    rw [content_natCast, content_natCast, put, getElem?_join_set hlt]
    simp only [Int.natCast_inj]

theorem used_put (h : s.lowest = some n) (a : α) : (s.put n a).used = s.used + 1 :=
  Blocks.countP_set_add (lowest_eq_some h).1 Option.isSome (some a)

theorem content_lowest (h : s.lowest = some n) : s.content n = none := by
  rw [content_natCast, (lowest_eq_some h).1, Option.join_some]

/-- Where there was something, there still is. -/
theorem content_put_of_some (h : s.lowest = some n) (b : α) {m : Int} (hm : s.content m = some a) :
    (s.put n b).content m = s.content m := by
  rw [content_put h, if_neg]
  rintro rfl
  rw [content_lowest h] at hm
  cases hm

/-- The lowest free slot is slot zero if that is free. -/
theorem lowest_eq_zero_iff (h : s.lowest = some n) : n = 0 ↔ s.content 0 = none := by
  have hzero : s.content 0 = s.cells[0]?.join := content_natCast s 0
  constructor
  · rintro rfl
    exact content_lowest h
  · intro hnone
    obtain ⟨hlt, -⟩ := List.getElem?_eq_some_iff.mp (lowest_eq_some h).1
    by_contra hn
    have hpos : 0 < s.cells.length := Nat.zero_lt_of_lt hlt
    rw [hzero, List.getElem?_eq_getElem hpos, Option.join_some] at hnone
    exact (lowest_eq_some h).2 0 (Nat.pos_of_ne_zero hn)
      (by rw [List.getElem?_eq_getElem hpos, hnone])

/-- A slot that is freed is empty, and the others are as they were. -/
theorem content_free (s : Slots α) (n m : Int) :
    (s.free n).content m = if m = n then none else s.content m := by
  by_cases hn : n < 0
  · rw [free, if_pos hn]
    by_cases hmn : m = n
    · rw [if_pos hmn, content_of_neg s (by omega)]
    · rw [if_neg hmn]
  · obtain ⟨k, rfl⟩ := Int.eq_ofNat_of_zero_le (Int.not_lt.mp hn)
    rw [free, if_neg hn, Int.toNat_natCast]
    by_cases hm : m < 0
    · rw [content_of_neg _ hm, content_of_neg _ hm, ite_self]
    · obtain ⟨j, rfl⟩ := Int.eq_ofNat_of_zero_le (Int.not_lt.mp hm)
      rw [content_natCast, content_natCast]
      by_cases hk : k < s.cells.length
      · rw [getElem?_join_set hk]
        simp only [Int.natCast_inj]
      · have hbeyond : s.cells[k]? = none := List.getElem?_eq_none (Nat.le_of_not_lt hk)
        rw [List.set_eq_of_length_le (Nat.le_of_not_lt hk)]
        by_cases hjk : (j : Int) = k
        · rw [if_pos hjk, Int.natCast_inj.mp hjk, hbeyond, Option.join_none]
        · rw [if_neg hjk]

theorem used_free (s : Slots α) (n : Int) :
    (s.free n).used + (if (s.content n).isSome then 1 else 0) = s.used := by
  by_cases hn : n < 0
  · rw [free, if_pos hn, content_of_neg s hn]
    rfl
  · obtain ⟨k, rfl⟩ := Int.eq_ofNat_of_zero_le (Int.not_lt.mp hn)
    rw [free, if_neg hn, Int.toNat_natCast, content_natCast]
    cases hk : s.cells[k]? with
    | none =>
        rw [List.set_eq_of_length_le (List.getElem?_eq_none_iff.mp hk)]
        rfl
    | some o => exact Blocks.countP_set_add hk Option.isSome none

/-- Everything that `take` can do. -/
theorem take_cases (s : Slots α) (a : Option α) :
    (s.take a = (-1, s) ∧ (a = none ∨ ¬ s.used < s.cells.length)) ∨
      ∃ b n, a = some b ∧ s.used < s.cells.length ∧ s.lowest = some n ∧
        s.take a = ((n : Int), s.put n b) := by
  cases a with
  | none => exact .inl ⟨rfl, .inl rfl⟩
  | some b =>
      cases h : s.lowest with
      | none =>
          refine .inl ⟨?_, .inr ((lowest_eq_none_iff s).mp h)⟩
          simp only [take, h]
      | some n =>
          have hroom : s.used < s.cells.length := by
            by_contra hfull
            rw [(lowest_eq_none_iff s).mpr hfull] at h
            cases h
          refine .inr ⟨b, n, rfl, hroom, rfl, ?_⟩
          simp only [take, h]

end Slots

/-! ## A pool shows slots and holders -/

/-- The number is worth that to its holder. -/
def Hold.Shows (s : Slots α) : Hold α → Int → Prop
  | own a, n => 0 < n ∧ s.content n = some a
  | shared, n => n = 0
  | nothing, n => n < 0

namespace Pool

variable {p : Pool α} {t : Holders α} {i : Nat} {x : Hold α} {n : Int}

structure Shows (p : Pool α) (t : Holders α) : Prop where
  size : t.slots.cells.length = p.size
  shared : t.slots.content 0 = p.shared
  length : t.numbers.length = p.holds.length
  holds : ∀ i, Option.Rel (Hold.Shows t.slots) (p.hold i) (t.number i)
  /-- No two holders have the same number above zero. -/
  apart : ∀ i j n, 0 < n → t.number i = some n → t.number j = some n → i = j
  used : t.slots.used = p.inUse

theorem owned_concat (p : Pool α) (x : Hold α) (shared : Option α) (kept : Nat) :
    owned ⟨p.size, shared, kept, p.holds ++ [some x]⟩ = p.owned + x.left := by
  simp only [owned, List.countP_append, List.countP_singleton, Option.any_some, Hold.left]

theorem owned_set (hx : p.hold i = some x) {o : Option (Hold α)} (ho : o.any Hold.isOwn = false)
    (shared : Option α) (kept : Nat) :
    owned ⟨p.size, shared, kept, p.holds.set i o⟩ + x.left = p.owned := by
  have hcount := Blocks.countP_set_add (Option.join_eq_some_iff.mp hx) (fun o => o.any Hold.isOwn) o
  rw [ho] at hcount
  exact hcount

namespace Shows

theorem pool (s : Slots α) : s.pool.Shows ⟨s, []⟩ where
  size := rfl
  shared := rfl
  length := rfl
  holds _ := .none
  apart i j n _ hi := by cases hi
  used := by
    have hused := s.used_free 0
    show s.used = s.used - _ + 0 + if (s.content 0).isSome then 1 else 0
    omega

/-- A holder finds what the pool says. -/
theorem reached (h : p.Shows t) (i : Nat) : t.reached i = p.reached i := by
  have hrel := h.holds i
  unfold Holders.reached Pool.reached
  cases hx : p.hold i with
  | none =>
      rw [hx] at hrel
      cases hn : t.number i with
      | none => rfl
      | some n =>
          rw [hn] at hrel
          cases hrel
  | some x =>
      cases hn : t.number i with
      | none =>
          rw [hx, hn] at hrel
          cases hrel
      | some n =>
          rw [hx, hn] at hrel
          cases hrel with
          | some hshows =>
              cases x with
              | own a => exact hshows.2
              | shared =>
                  rw [show n = 0 from hshows]
                  exact h.shared
              | nothing => exact Slots.content_of_neg _ hshows

/-- A number above zero is the number of a holder with something of its own. -/
theorem content_isSome (h : p.Shows t) (hn : t.number i = some n) (hpos : 0 < n) :
    ∃ a, t.slots.content n = some a := by
  have hrel := h.holds i
  rw [hn] at hrel
  generalize p.hold i = o at hrel
  cases hrel with
  | @some x _ hshows =>
      cases x with
      | own a => exact ⟨a, hshows.2⟩
      | shared =>
          have hzero : n = 0 := hshows
          omega
      | nothing =>
          have hneg : n < 0 := hshows
          omega

/-- A holder has what it had where the slot of its number is as it was. -/
theorem rel_of_same (h : p.Shows t) {slots : Slots α} (j : Nat)
    (hsame : ∀ k, t.number j = some k → 0 < k → slots.content k = t.slots.content k) :
    Option.Rel (Hold.Shows slots) (p.hold j) (t.number j) := by
  have hrel := h.holds j
  cases hn : t.number j with
  | none =>
      rw [hn] at hrel
      generalize p.hold j = o at hrel
      cases hrel
      exact .none
  | some k =>
      rw [hn] at hrel
      generalize p.hold j = o at hrel
      cases hrel with
      | @some x _ hshows =>
          refine .some ?_
          cases x with
          | own a => exact ⟨hshows.1, (hsame k hn hshows.1).trans hshows.2⟩
          | shared => exact hshows
          | nothing => exact hshows

/-- A new holder, whose number is nobody's if it is above zero. -/
theorem add (h : p.Shows t) {slots : Slots α} {shared : Option α} {kept : Nat}
    (hsize : slots.cells.length = p.size) (hshared : slots.content 0 = shared)
    (hsame : ∀ m a, t.slots.content m = some a → slots.content m = t.slots.content m)
    (hx : x.Shows slots n) (hnew : t.slots.content n = none)
    (hused : slots.used = kept + (p.owned + x.left) + if shared.isSome then 1 else 0) :
    Shows ⟨p.size, shared, kept, p.holds ++ [some x]⟩ ⟨slots, t.numbers ++ [some n]⟩ := by
  have hhold (j : Nat) : hold ⟨p.size, shared, kept, p.holds ++ [some x]⟩ j =
      if j = p.holds.length then some x else p.hold j := getElem?_join_concat _ _ j
  have hnumber (j : Nat) : Holders.number ⟨slots, t.numbers ++ [some n]⟩ j =
      if j = p.holds.length then some n else t.number j := by
    rw [← h.length]
    exact getElem?_join_concat _ _ j
  have hothers (j : Nat) (hpos : 0 < n) : t.number j ≠ some n := by
    intro hj
    obtain ⟨a, ha⟩ := h.content_isSome hj hpos
    rw [hnew] at ha
    cases ha
  refine ⟨hsize, hshared, ?_, fun j => ?_, fun j k m hm hj hk => ?_, ?_⟩
  · rw [List.length_append, List.length_append, h.length]
    rfl
  · rw [hhold, hnumber]
    by_cases hj : j = p.holds.length
    · rw [if_pos hj, if_pos hj]
      exact .some hx
    · rw [if_neg hj, if_neg hj]
      refine h.rel_of_same j fun k hk hpos => ?_
      obtain ⟨a, ha⟩ := h.content_isSome hk hpos
      exact hsame k a ha
  · rw [hnumber] at hj hk
    by_cases hjl : j = p.holds.length
    · by_cases hkl : k = p.holds.length
      · exact hjl.trans hkl.symm
      · rw [if_pos hjl, Option.some.injEq] at hj
        rw [if_neg hkl] at hk
        subst hj
        exact absurd hk (hothers k hm)
    · by_cases hkl : k = p.holds.length
      · rw [if_pos hkl, Option.some.injEq] at hk
        rw [if_neg hjl] at hj
        subst hk
        exact absurd hj (hothers j hm)
      · rw [if_neg hjl] at hj
        rw [if_neg hkl] at hk
        exact h.apart j k m hm hj hk
  · rw [hused, inUse, owned_concat]

/-- A holder is told something else, or is no more. -/
theorem set (h : p.Shows t) (hi : p.hold i = some x) {slots : Slots α} {shared : Option α}
    {kept : Nat} {o : Option (Hold α)} {m : Option Int} (hsize : slots.cells.length = p.size)
    (hshared : slots.content 0 = shared)
    (hsame : ∀ j k, j ≠ i → t.number j = some k → 0 < k → slots.content k = t.slots.content k)
    (ho : Option.Rel (Hold.Shows slots) o m) (hown : o.any Hold.isOwn = false)
    (hused : slots.used + x.left = kept + p.owned + if shared.isSome then 1 else 0) :
    Shows ⟨p.size, shared, kept, p.holds.set i o⟩ ⟨slots, t.numbers.set i m⟩ := by
  have hlt : i < p.holds.length := lt_of_getElem?_join hi
  have hhold (j : Nat) : hold ⟨p.size, shared, kept, p.holds.set i o⟩ j =
      if j = i then o else p.hold j := getElem?_join_set hlt o j
  have hnumber (j : Nat) : Holders.number ⟨slots, t.numbers.set i m⟩ j =
      if j = i then m else t.number j := getElem?_join_set (h.length ▸ hlt) m j
  -- what the holder is told is no number above zero
  have hnone (k : Int) (hk : 0 < k) : m ≠ some k := by
    rintro rfl
    cases ho with
    | @some y _ hshows =>
        cases y with
        | own a => cases hown
        | shared =>
            have hzero : k = 0 := hshows
            omega
        | nothing =>
            have hneg : k < 0 := hshows
            omega
  refine ⟨hsize, hshared, ?_, fun j => ?_, fun j k l hl hj hk => ?_, ?_⟩
  · rw [List.length_set, List.length_set, h.length]
  · rw [hhold, hnumber]
    by_cases hji : j = i
    · rw [if_pos hji, if_pos hji]
      exact ho
    · rw [if_neg hji, if_neg hji]
      exact h.rel_of_same j fun k => hsame j k hji
  · rw [hnumber] at hj hk
    by_cases hji : j = i
    · rw [if_pos hji] at hj
      exact absurd hj (hnone l hl)
    · by_cases hki : k = i
      · rw [if_pos hki] at hk
        exact absurd hk (hnone l hl)
      · rw [if_neg hji] at hj
        rw [if_neg hki] at hk
        exact h.apart j k l hl hj hk
  · have howned := owned_set hi hown shared kept
    show slots.used = kept + owned ⟨p.size, shared, kept, p.holds.set i o⟩ +
      if shared.isSome then 1 else 0
    omega

/-- Something is put into the lowest free slot: slot zero if that is free. -/
theorem admitted_cases (h : p.Shows t) (a : Option α) :
    (t.slots.take a = (-1, t.slots) ∧ p.admitted a = none) ∨
      ∃ b, ∃ k : Nat, t.slots.take a = ((k : Int), t.slots.put k b) ∧ p.admitted a = some b ∧
        t.slots.lowest = some k ∧ (k = 0 ↔ p.shared = none) := by
  rcases t.slots.take_cases a with ⟨htake, hnone⟩ | ⟨b, k, rfl, hroom, hlowest, htake⟩
  · refine .inl ⟨htake, ?_⟩
    rw [h.used, h.size] at hnone
    rcases hnone with rfl | hfull
    · exact ite_self none
    · exact if_neg hfull
  · refine .inr ⟨b, k, htake, ?_, hlowest, ?_⟩
    · rw [h.used, h.size] at hroom
      exact if_pos hroom
    · rw [← h.shared]
      exact Slots.lowest_eq_zero_iff hlowest

theorem acquire (h : p.Shows t) (a : Option α) :
    (p.step (.acquire a)).Shows (t.step (.acquire a)) := by
  rw [Pool.step, Holders.step]
  rcases h.admitted_cases a with ⟨htake, hnone⟩ | ⟨b, k, htake, hsome, hlowest, hzero⟩
  · rw [htake, hnone]
    have hneg : Hold.Shows t.slots .nothing (-1) := by
      show (-1 : Int) < 0
      omega
    exact h.add h.size h.shared (fun _ _ _ => rfl) hneg (Slots.content_of_neg _ (by omega)) h.used
  · have hsize : (t.slots.put k b).cells.length = p.size := List.length_set.trans h.size
    have hfree := Slots.content_lowest hlowest
    have hused := Slots.used_put hlowest b
    have hsame (m : Int) (a : α) (hm : t.slots.content m = some a) :=
      Slots.content_put_of_some hlowest b hm
    rw [h.used, inUse] at hused
    rw [htake, hsome]
    cases hshared : p.shared with
    | none =>
        obtain rfl := hzero.mpr hshared
        have hx : Hold.Shows (t.slots.put 0 b) .shared ((0 : Nat) : Int) := rfl
        refine h.add hsize ?_ hsame hx hfree ?_
        · rw [Slots.content_put hlowest]
          rfl
        · rw [hused, hshared]
          rfl
    | some c =>
        have hpos : 0 < k := Nat.pos_of_ne_zero fun hk => by
          rw [hzero.mp hk] at hshared
          cases hshared
        have hx : Hold.Shows (t.slots.put k b) (.own b) k := by
          refine ⟨Int.natCast_pos.mpr hpos, ?_⟩
          rw [Slots.content_put hlowest, if_pos rfl]
        refine h.add hsize ?_ hsame hx hfree ?_
        · rw [Slots.content_put hlowest, if_neg (by omega), h.shared, hshared]
        · rw [hused, hshared]
          simp only [Hold.left, Hold.isOwn, Option.isSome_some, if_true]
          omega

theorem fill (h : p.Shows t) (a : Option α) :
    (p.step (.fill a)).Shows (t.step (.fill a)) := by
  rw [Pool.step, Holders.step]
  rcases h.admitted_cases a with ⟨htake, hnone⟩ | ⟨b, k, htake, hsome, hlowest, hzero⟩
  · rw [htake, hnone]
    exact h
  · have hsize : (t.slots.put k b).cells.length = p.size := List.length_set.trans h.size
    have hused := Slots.used_put hlowest b
    have hholds (j : Nat) : Option.Rel (Hold.Shows (t.slots.put k b)) (p.hold j) (t.number j) := by
      refine h.rel_of_same j fun m hm hpos => ?_
      obtain ⟨a, ha⟩ := h.content_isSome hm hpos
      exact Slots.content_put_of_some hlowest b ha
    rw [h.used, inUse] at hused
    rw [htake, hsome]
    cases hshared : p.shared with
    | none =>
        obtain rfl := hzero.mpr hshared
        refine ⟨hsize, ?_, h.length, hholds, h.apart, ?_⟩
        · show (t.slots.put 0 b).content 0 = some b
          rw [Slots.content_put hlowest]
          rfl
        · rw [hused, hshared]
          rfl
    | some c =>
        have hk : (0 : Int) ≠ k := by
          intro hk
          rw [hzero.mp (by omega)] at hshared
          cases hshared
        refine ⟨hsize, ?_, h.length, hholds, h.apart, ?_⟩
        · show (t.slots.put k b).content 0 = some c
          rw [Slots.content_put hlowest, if_neg hk, h.shared, hshared]
        · show (t.slots.put k b).used = p.kept + 1 + p.owned + 1
          rw [hused, hshared, Option.isSome_some, if_pos rfl]
          omega

/-- Holder and hold are there or not, both. -/
theorem cases_hold (h : p.Shows t) (i : Nat) :
    (p.hold i = none ∧ t.number i = none) ∨
      ∃ x n, p.hold i = some x ∧ t.number i = some n ∧ x.Shows t.slots n := by
  have hrel := h.holds i
  generalize hx : p.hold i = o at hrel
  generalize hn : t.number i = m at hrel
  cases hrel with
  | none => exact .inl ⟨rfl, rfl⟩
  | some hshows => exact .inr ⟨_, _, rfl, rfl, hshows⟩

theorem assign (h : p.Shows t) (i : Nat) (zero : Bool) :
    (p.step (.assign i zero)).Shows (t.step (.assign i zero)) := by
  rw [Pool.step, Holders.step]
  rcases h.cases_hold i with ⟨hx, hn⟩ | ⟨x, n, hx, hn, -⟩
  · rw [hx, hn]
    exact h
  · rw [hx, hn]
    refine h.set hx h.size h.shared (fun _ _ _ _ _ => rfl) (.some ?_) ?_ ?_
    · cases zero with
      | true => exact (rfl : (0 : Int) = 0)
      | false => exact (by omega : (-1 : Int) < 0)
    · cases zero <;> rfl
    · rw [h.used, inUse]
      omega

theorem drop (h : p.Shows t) (i : Nat) : (p.step (.drop i)).Shows (t.step (.drop i)) := by
  rw [Pool.step, Holders.step]
  rcases h.cases_hold i with ⟨hx, hn⟩ | ⟨x, n, hx, hn, -⟩
  · rw [hx, hn]
    exact h
  · rw [hx, hn]
    refine h.set hx h.size h.shared (fun _ _ _ _ _ => rfl) .none rfl ?_
    rw [h.used, inUse]
    omega

/-- What is released is the slot of the holder, and nobody else's unless it is slot zero. -/
theorem release (h : p.Shows t) (i : Nat) :
    (p.step (.release i)).Shows (t.step (.release i)) := by
  rw [Pool.step, Holders.step]
  rcases h.cases_hold i with ⟨hx, hn⟩ | ⟨x, n, hx, hn, hshows⟩
  · rw [hx, hn]
    exact h
  · have hsize : (t.slots.free n).cells.length = p.size := (Slots.length_free _ n).trans h.size
    have hused := t.slots.used_free n
    have hsame (j : Nat) (k : Int) (hj : j ≠ i) (hk : t.number j = some k) (hpos : 0 < k) :
        (t.slots.free n).content k = t.slots.content k := by
      rw [Slots.content_free, if_neg]
      rintro rfl
      exact hj (h.apart j i k hpos hk hn)
    rw [h.used, inUse] at hused
    rw [hx, hn]
    refine h.set hx hsize ?_ hsame .none rfl ?_
    · rw [Slots.content_free, h.shared]
      cases x with
      | own a =>
          have hpos : 0 < n := hshows.1
          rw [if_neg (by omega)]
          rfl
      | shared =>
          have hzero : n = 0 := hshows
          rw [if_pos hzero.symm]
          rfl
      | nothing =>
          have hneg : n < 0 := hshows
          rw [if_neg (by omega)]
          rfl
    · cases x with
      | own a =>
          rw [hshows.2] at hused
          exact hused
      | shared =>
          have hzero : n = 0 := hshows
          rw [hzero, h.shared] at hused
          rw [hzero]
          show (t.slots.free 0).used + 0 = p.kept + p.owned + 0
          omega
      | nothing =>
          have hneg : n < 0 := hshows
          rw [Slots.content_of_neg _ hneg] at hused
          exact hused

/-- **The step lemma.** -/
theorem step (h : p.Shows t) (c : SlotCall α) : (p.step c).Shows (t.step c) := by
  cases c with
  | acquire a => exact h.acquire a
  | fill a => exact h.fill a
  | assign i zero => exact h.assign i zero
  | release i => exact h.release i
  | drop i => exact h.drop i

end Shows

/-- What has been let go of stays in use. -/
theorem kept_le_step (p : Pool α) (c : SlotCall α) : p.kept ≤ (p.step c).kept := by
  cases c with
  | acquire a =>
      rw [step]
      split <;> exact Nat.le_refl _
  | fill a =>
      rw [step]
      split
      · exact Nat.le_refl _
      · exact Nat.le_refl _
      · exact Nat.le_succ _
  | assign i zero | drop i =>
      rw [step]
      split
      · exact Nat.le_add_right _ _
      · exact Nat.le_refl _
  | release i =>
      rw [step]
      split <;> exact Nat.le_refl _

end Pool
