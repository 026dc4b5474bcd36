import Mathlib.Data.List.Basic
import Mathlib.Tactic.Common

/-!
# Byte memory

A memory is a total map from addresses to bytes. `load mem p n` reads the `n` bytes from `p` on,
`store mem p bs` overwrites the bytes from `p` on with `bs`. Nothing here knows which addresses
are allocated: a program that must stay inside a block checks that itself.

Two groups of laws carry every proof about copies. *Reading back*: a store is seen by a load of
the same range (`load_store_same`) and by no load beside it (`load_store_of_disjoint`).
*Composing stores*: adjacent stores merge (`store_append`), a second store of the same length
covers the first (`store_store`), and stores to disjoint ranges commute (`store_comm`).
-/

abbrev Mem := Nat → UInt8

namespace Mem

/-- The `n` bytes from address `p` on. -/
def load (mem : Mem) (p : Nat) : Nat → List UInt8
  | 0 => []
  | n + 1 => mem p :: load mem (p + 1) n

/-- Overwrite the bytes from address `p` on with `bs`. -/
def store (mem : Mem) (p : Nat) (bs : List UInt8) : Mem := fun i =>
  if p ≤ i then (bs[i - p]?).getD (mem i) else mem i

/-! ## Loading -/

@[simp] theorem load_zero (mem : Mem) (p : Nat) : load mem p 0 = [] := rfl

@[simp] theorem length_load (mem : Mem) (p n : Nat) : (load mem p n).length = n := by
  induction n generalizing p with
  | zero => rfl
  | succ n ih => simp [load, ih]

theorem load_add (mem : Mem) (p m n : Nat) :
    load mem p (m + n) = load mem p m ++ load mem (p + m) n := by
  induction m generalizing p with
  | zero => simp
  | succ m ih =>
      rw [Nat.add_right_comm m 1 n]
      show mem p :: load mem (p + 1) (m + n) = (mem p :: load mem (p + 1) m) ++ _
      rw [ih, List.cons_append, Nat.add_right_comm p 1 m, Nat.add_assoc]

theorem getElem?_load (mem : Mem) (p n i : Nat) :
    (load mem p n)[i]? = if i < n then some (mem (p + i)) else none := by
  induction n generalizing p i with
  | zero => simp
  | succ n ih =>
      cases i with
      | zero => simp [load]
      | succ i =>
          simp only [load, List.getElem?_cons_succ, ih, Nat.add_lt_add_iff_right]
          rw [Nat.add_right_comm, Nat.add_assoc]

theorem mem_load {mem : Mem} {p n : Nat} {b : UInt8} :
    b ∈ load mem p n ↔ ∃ i < n, mem (p + i) = b := by
  rw [List.mem_iff_getElem?]
  constructor
  · rintro ⟨i, hi⟩
    rw [getElem?_load] at hi
    split at hi
    · next hlt => exact ⟨i, hlt, Option.some.inj hi⟩
    · cases hi
  · rintro ⟨i, hi, hb⟩
    exact ⟨i, by rw [getElem?_load, if_pos hi, hb]⟩

/-- Two loads agree exactly when the memories agree on every byte they read. -/
theorem load_eq_load_iff {a b : Mem} {p q n : Nat} :
    load a p n = load b q n ↔ ∀ i < n, a (p + i) = b (q + i) := by
  constructor
  · intro h i hi
    have hget : (load a p n)[i]? = (load b q n)[i]? := by rw [h]
    rw [getElem?_load, getElem?_load, if_pos hi, if_pos hi] at hget
    exact Option.some.inj hget
  · intro h
    apply List.ext_getElem?
    intro i
    rw [getElem?_load, getElem?_load]
    by_cases hi : i < n
    · rw [if_pos hi, if_pos hi, h i hi]
    · rw [if_neg hi, if_neg hi]

/-- A load spells `bs` exactly when each byte of `bs` is in its place. -/
theorem load_eq_iff {mem : Mem} {p : Nat} {bs : List UInt8} :
    load mem p bs.length = bs ↔ ∀ i (hi : i < bs.length), mem (p + i) = bs[i] := by
  constructor
  · intro h i hi
    have hget : (load mem p bs.length)[i]? = bs[i]? := by rw [h]
    rw [getElem?_load, if_pos hi, List.getElem?_eq_getElem hi] at hget
    exact Option.some.inj hget
  · intro h
    apply List.ext_getElem?
    intro i
    rw [getElem?_load]
    by_cases hi : i < bs.length
    · rw [if_pos hi, List.getElem?_eq_getElem hi, h i hi]
    · rw [if_neg hi, List.getElem?_eq_none (Nat.le_of_not_lt hi)]

/-! ## Storing -/

theorem store_of_lt {mem : Mem} {p i : Nat} (bs : List UInt8) (h : i < p) :
    store mem p bs i = mem i := if_neg (Nat.not_le.mpr h)

theorem store_of_ge {mem : Mem} {p i : Nat} {bs : List UInt8} (h : p + bs.length ≤ i) :
    store mem p bs i = mem i := by
  have hnone : bs[i - p]? = none := List.getElem?_eq_none (by omega)
  rw [store, if_pos (by omega), hnone, Option.getD_none]

theorem store_add {mem : Mem} {p i : Nat} {bs : List UInt8} (h : i < bs.length) :
    store mem p bs (p + i) = bs[i] := by
  rw [store, if_pos (Nat.le_add_right p i), Nat.add_sub_cancel_left,
    List.getElem?_eq_getElem h, Option.getD_some]

/-- Inside the stored range it does not matter what was there before. -/
theorem store_congr_within {mem : Mem} (mem' : Mem) {p i : Nat} {bs : List UInt8} (hp : p ≤ i)
    (hi : i < p + bs.length) : store mem p bs i = store mem' p bs i := by
  obtain ⟨k, rfl⟩ := Nat.exists_eq_add_of_le hp
  rw [store_add (by omega), store_add (by omega)]

@[simp] theorem store_nil (mem : Mem) (p : Nat) : store mem p [] = mem := by
  funext i
  simp [store]

/-! ## Reading back -/

theorem load_store_same (mem : Mem) (p : Nat) (bs : List UInt8) :
    load (store mem p bs) p bs.length = bs :=
  load_eq_iff.mpr fun _ hi => store_add hi

/-- Storing what is there already changes nothing. -/
theorem store_load_same (mem : Mem) (p n : Nat) : store mem p (load mem p n) = mem := by
  funext i
  by_cases hp : p ≤ i
  · rw [store, if_pos hp, getElem?_load]
    by_cases hn : i - p < n
    · rw [if_pos hn, Option.getD_some, Nat.add_sub_cancel' hp]
    · rw [if_neg hn, Option.getD_none]
  · exact store_of_lt _ (Nat.lt_of_not_le hp)

/-- A load inside the stored range reads the part of `bs` that lies there. -/
theorem load_store_within (mem : Mem) (p : Nat) {bs : List UInt8} {i n : Nat}
    (h : i + n ≤ bs.length) : load (store mem p bs) (p + i) n = (bs.drop i).take n := by
  apply List.ext_getElem?
  intro j
  rw [getElem?_load, List.getElem?_take, List.getElem?_drop]
  by_cases hj : j < n
  · rw [if_pos hj, if_pos hj, Nat.add_assoc, store_add (by omega),
      List.getElem?_eq_getElem (by omega)]
  · rw [if_neg hj, if_neg hj]

theorem load_store_of_disjoint {mem : Mem} {p q n : Nat} {bs : List UInt8}
    (h : p + n ≤ q ∨ q + bs.length ≤ p) : load (store mem q bs) p n = load mem p n := by
  apply load_eq_load_iff.mpr
  intro i hi
  rcases h with h | h
  · exact store_of_lt bs (by omega)
  · exact store_of_ge (by omega)

/-! ## Composing stores -/

theorem store_append (mem : Mem) (p : Nat) (as bs : List UInt8) :
    store (store mem p as) (p + as.length) bs = store mem p (as ++ bs) := by
  funext i
  by_cases hi : p + as.length ≤ i
  · have hsub : i - p = as.length + (i - (p + as.length)) := by omega
    have hget : (as ++ bs)[i - p]? = bs[i - (p + as.length)]? := by
      rw [hsub, List.getElem?_append_right (Nat.le_add_right _ _), Nat.add_sub_cancel_left]
    rw [store, if_pos hi, store_of_ge hi, store, if_pos (by omega), hget]
  · rw [store_of_lt bs (by omega)]
    by_cases hp : p ≤ i
    · have hget : (as ++ bs)[i - p]? = as[i - p]? := List.getElem?_append_left (by omega)
      rw [store, if_pos hp, store, if_pos hp, hget]
    · rw [store_of_lt as (by omega), store_of_lt (as ++ bs) (by omega)]

theorem store_store {mem : Mem} {p : Nat} {as bs : List UInt8} (h : as.length ≤ bs.length) :
    store (store mem p as) p bs = store mem p bs := by
  funext i
  by_cases hp : i < p
  · rw [store_of_lt bs hp, store_of_lt bs hp, store_of_lt as hp]
  · by_cases hi : i < p + bs.length
    · obtain ⟨k, rfl⟩ := Nat.exists_eq_add_of_le (Nat.le_of_not_lt hp)
      rw [store_add (by omega), store_add (by omega)]
    · rw [store_of_ge (by omega), store_of_ge (by omega), store_of_ge (by omega)]

theorem store_comm {mem : Mem} {p q : Nat} {as bs : List UInt8}
    (h : p + as.length ≤ q ∨ q + bs.length ≤ p) :
    store (store mem p as) q bs = store (store mem q bs) p as := by
  have outside (mem : Mem) (r : Nat) (cs : List UInt8) (i : Nat)
      (hi : i < r ∨ r + cs.length ≤ i) : store mem r cs i = mem i :=
    hi.elim (store_of_lt cs) store_of_ge
  funext i
  -- an address lies in at most one of the two ranges
  by_cases hp : i < p ∨ p + as.length ≤ i
  · rw [outside (store mem q bs) p as i hp]
    by_cases hq : i < q ∨ q + bs.length ≤ i
    · rw [outside _ q bs i hq, outside mem p as i hp, outside mem q bs i hq]
    · obtain ⟨k, rfl⟩ := Nat.exists_eq_add_of_le (show q ≤ i by omega)
      rw [store_add (by omega), store_add (by omega)]
  · obtain ⟨k, rfl⟩ := Nat.exists_eq_add_of_le (show p ≤ i by omega)
    rw [outside _ q bs (p + k) (by omega), store_add (by omega), store_add (by omega)]

end Mem
