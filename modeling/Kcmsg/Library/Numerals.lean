import Mathlib.Data.Nat.Notation
import Mathlib.Tactic.Common

/-!
# Numerals

The text of a number in decimal, with a sign, and of a machine word in hexadecimal, without one:
a negative number is written as the word that stands for it. The two agree on a word exactly if it
is one decimal digit (`hexadecimal_eq_decimal_iff`).
-/

def decimal (i : Int) : String :=
  if i < 0 then "-" ++ String.ofList (Nat.toDigits 10 i.natAbs)
  else String.ofList (Nat.toDigits 10 i.natAbs)

def hexadecimal {w : Nat} (x : BitVec w) : String := String.ofList (Nat.toDigits 16 x.toNat)

/-- Below sixteen the digits are different characters. -/
theorem digitChar_inj {m n : Nat} (hm : m < 16) (hn : n < 16) (h : m.digitChar = n.digitChar) :
    m = n := by
  have hall : ∀ m < 16, ∀ n < 16, m.digitChar = n.digitChar → m = n := by decide
  exact hall m hm n hn h

/-- The digits of a number spell a larger one in a larger base. -/
theorem le_of_toDigits_eq {m n : Nat} (h : Nat.toDigits 10 m = Nat.toDigits 16 n) :
    m ≤ n ∧ (10 ≤ m → m < n) := by
  induction m using Nat.strongRecOn generalizing n with
  | _ m ih =>
      by_cases hm : m < 10
      · rw [Nat.toDigits_of_lt_base hm] at h
        by_cases hn : n < 16
        · rw [Nat.toDigits_of_lt_base hn] at h
          have hsame : m = n := digitChar_inj (by omega) hn (List.cons.inj h).1
          omega
        · omega
      · rw [Nat.toDigits_of_base_le (by decide) (by omega)] at h
        by_cases hn : n < 16
        · -- two digits at least are not one
          rw [Nat.toDigits_of_lt_base hn] at h
          have hlength := congrArg List.length h
          have hpos := Nat.length_toDigits_pos (b := 10) (n := m / 10)
          simp only [List.length_append, List.length_singleton] at hlength
          omega
        · rw [Nat.toDigits_of_base_le (b := 16) (by decide) (by omega)] at h
          obtain ⟨hfront, hlast⟩ := List.append_inj' h rfl
          have hdigit : m % 10 = n % 16 :=
            digitChar_inj (by omega) (by omega) (List.cons.inj hlast).1
          have hless := (ih (m / 10) (by omega) hfront).1
          omega

theorem toDigits_eq_iff (n : Nat) : Nat.toDigits 10 n = Nat.toDigits 16 n ↔ n < 10 := by
  constructor
  · intro h
    have := (le_of_toDigits_eq h).2
    omega
  · intro h
    rw [Nat.toDigits_of_lt_base h, Nat.toDigits_of_lt_base (by omega)]

theorem minus_notMem_toDigits (n : Nat) : '-' ∉ Nat.toDigits 16 n := by
  induction n using Nat.strongRecOn with
  | _ n ih =>
      have hdigit (d : Nat) : '-' ≠ d.digitChar := by
        by_cases hd : d < 16
        · have hall : ∀ d < 16, '-' ≠ d.digitChar := by decide
          exact hall d hd
        · rw [Nat.digitChar_eq_star.mpr (by omega)]
          decide
      by_cases hn : n < 16
      · rw [Nat.toDigits_of_lt_base hn, List.mem_singleton]
        exact hdigit n
      · rw [Nat.toDigits_of_base_le (by decide) (by omega), List.mem_append, List.mem_singleton]
        rintro (h | h)
        · exact ih (n / 16) (by omega) h
        · exact hdigit _ h

/-- **A word has the same text in both forms exactly if its number is one decimal digit.** -/
theorem hexadecimal_eq_decimal_iff {w : Nat} (x : BitVec w) :
    hexadecimal x = decimal x.toInt ↔ 0 ≤ x.toInt ∧ x.toInt < 10 := by
  unfold hexadecimal decimal
  by_cases hneg : x.toInt < 0
  · rw [if_pos hneg]
    refine iff_of_false (fun h => ?_) (by omega)
    have hlist := congrArg String.toList h
    rw [String.toList_append, String.toList_ofList, String.toList_ofList] at hlist
    apply minus_notMem_toDigits x.toNat
    rw [hlist]
    exact List.mem_cons_self
  · rw [if_neg hneg]
    have hnat : x.toInt.natAbs = x.toNat := by
      have := BitVec.toInt_eq_toNat_cond x
      split at this <;> omega
    rw [hnat, String.ofList_inj, eq_comm, toDigits_eq_iff]
    omega

theorem hexadecimal_eq_decimal_natCast_iff {w : Nat} (x : BitVec w) :
    hexadecimal x = decimal x.toNat ↔ x.toNat < 10 := by
  unfold hexadecimal decimal
  rw [if_neg (by omega), Int.natAbs_natCast, String.ofList_inj, eq_comm, toDigits_eq_iff]

/-! ## One numeral, one number -/

theorem toDigits_inj {b m n : Nat} (hb : 1 < b) (hb' : b ≤ 16)
    (h : Nat.toDigits b m = Nat.toDigits b n) : m = n := by
  induction m using Nat.strongRecOn generalizing n with
  | _ m ih =>
      -- one digit is not two at least
      have hlong {k l : Nat} (hk : k < b) (hl : b ≤ l) :
          Nat.toDigits b k ≠ Nat.toDigits b l := by
        intro heq
        have hlength := congrArg List.length heq
        have hpos := Nat.length_toDigits_pos (b := b) (n := l / b)
        rw [Nat.toDigits_of_lt_base hk, Nat.toDigits_of_base_le hb hl] at hlength
        simp only [List.length_append, List.length_singleton] at hlength
        omega
      by_cases hm : m < b
      · by_cases hn : n < b
        · rw [Nat.toDigits_of_lt_base hm, Nat.toDigits_of_lt_base hn] at h
          exact digitChar_inj (by omega) (by omega) (List.cons.inj h).1
        · exact absurd h (hlong hm (Nat.le_of_not_lt hn))
      · by_cases hn : n < b
        · exact absurd h.symm (hlong hn (Nat.le_of_not_lt hm))
        · rw [Nat.toDigits_of_base_le (n := m) hb (Nat.le_of_not_lt hm),
            Nat.toDigits_of_base_le (n := n) hb (Nat.le_of_not_lt hn)] at h
          obtain ⟨hfront, hlast⟩ := List.append_inj' h rfl
          have hquotient : m / b = n / b := ih (m / b) (Nat.div_lt_self (by omega) hb) hfront
          have hdigit (k : Nat) : k % b < 16 := Nat.lt_of_lt_of_le (Nat.mod_lt k (by omega)) hb'
          have hremainder : m % b = n % b :=
            digitChar_inj (hdigit m) (hdigit n) (List.cons.inj hlast).1
          rw [← Nat.div_add_mod m b, ← Nat.div_add_mod n b, hquotient, hremainder]

/-- A character that is no digit is in no numeral. -/
theorem notMem_toDigits {b : Nat} (hb : 1 < b) (hb' : b ≤ 16) {c : Char}
    (hc : ∀ d < 16, c ≠ d.digitChar) (n : Nat) : c ∉ Nat.toDigits b n := by
  induction n using Nat.strongRecOn with
  | _ n ih =>
      have hdigit (k : Nat) : k % b < 16 := Nat.lt_of_lt_of_le (Nat.mod_lt k (by omega)) hb'
      by_cases hn : n < b
      · rw [Nat.toDigits_of_lt_base hn, List.mem_singleton]
        exact hc n (by omega)
      · rw [Nat.toDigits_of_base_le hb (by omega), List.mem_append, List.mem_singleton]
        rintro (h | h)
        · exact ih (n / b) (Nat.div_lt_self (by omega) hb) h
        · exact hc _ (hdigit n) h

theorem hexadecimal_inj {w : Nat} {x y : BitVec w} (h : hexadecimal x = hexadecimal y) :
    x = y :=
  BitVec.eq_of_toNat_eq (toDigits_inj (by decide) (by decide) (String.ofList_inj.mp h))

theorem decimal_inj {i j : Int} (h : decimal i = decimal j) : i = j := by
  have hlist := congrArg String.toList h
  have hminus (n : Nat) (l : List Char) : '-' :: l ≠ Nat.toDigits 10 n := fun heq =>
    notMem_toDigits (by decide) (by decide) (by decide) n (heq ▸ List.mem_cons_self)
  have hsign (n : Nat) : ("-" ++ String.ofList (Nat.toDigits 10 n)).toList =
      '-' :: Nat.toDigits 10 n := by
    rw [String.toList_append, String.toList_ofList, String.toList_ofList]
    rfl
  unfold decimal at hlist
  by_cases hi : i < 0
  · by_cases hj : j < 0
    · rw [if_pos hi, if_pos hj, hsign, hsign] at hlist
      have habs := toDigits_inj (by decide) (by decide) (List.cons.inj hlist).2
      omega
    · rw [if_pos hi, if_neg hj, hsign, String.toList_ofList] at hlist
      exact absurd hlist (hminus _ _)
  · by_cases hj : j < 0
    · rw [if_neg hi, if_pos hj, hsign, String.toList_ofList] at hlist
      exact absurd hlist.symm (hminus _ _)
    · rw [if_neg hi, if_neg hj, String.toList_ofList, String.toList_ofList] at hlist
      have habs := toDigits_inj (by decide) (by decide) hlist
      omega

theorem notMem_hexadecimal {c : Char} (hc : ∀ d < 16, c ≠ d.digitChar) {w : Nat} (x : BitVec w) :
    c ∉ (hexadecimal x).toList := by
  rw [hexadecimal, String.toList_ofList]
  exact notMem_toDigits (by decide) (by decide) hc _

theorem notMem_decimal {c : Char} (hc : ∀ d < 16, c ≠ d.digitChar) (hminus : c ≠ '-') (i : Int) :
    c ∉ (decimal i).toList := by
  have hdigits := notMem_toDigits (b := 10) (by decide) (by decide) hc i.natAbs
  unfold decimal
  by_cases hi : i < 0
  · rw [if_pos hi, String.toList_append, String.toList_ofList, String.toList_ofList,
      List.mem_append]
    rintro (h | h)
    · exact hminus (List.mem_singleton.mp h)
    · exact hdigits h
  · rw [if_neg hi, String.toList_ofList]
    exact hdigits
