import Mathlib.Data.Nat.ModEq
import Mathlib.Data.List.Basic

/-!
# Byte orders

A natural number written into a fixed number of bytes, least significant byte first
(`leBytes`), and read back (`ofLE`). `ByteOrder` names the two orders in which a machine lays
out its own integers; `ByteOrder.encode` and `ByteOrder.decode` are what a plain copy of an
integer to and from memory does on a machine of that order.

Both directions are total. Writing drops the bits that do not fit, so the round trip
`ofLE_leBytes` is a statement modulo `256 ^ w` and becomes exact below that bound, while reading
loses nothing (`leBytes_ofLE`).
-/

/-! ## Least significant byte first -/

/-- The `w` low bytes of `n`, least significant first. -/
def leBytes : Nat → Nat → List UInt8
  | 0, _ => []
  | w + 1, n => UInt8.ofNat n :: leBytes w (n / 256)

/-- The number whose bytes, least significant first, are the given ones. -/
def ofLE : List UInt8 → Nat
  | [] => 0
  | b :: bs => b.toNat + 256 * ofLE bs

@[simp] theorem length_leBytes (w n : Nat) : (leBytes w n).length = w := by
  induction w generalizing n with
  | zero => rfl
  | succ w ih => simp [leBytes, ih]

theorem ofLE_leBytes (w n : Nat) : ofLE (leBytes w n) = n % 256 ^ w := by
  induction w generalizing n with
  | zero => simp [leBytes, ofLE, Nat.mod_one]
  | succ w ih =>
      have hhead : (UInt8.ofNat n).toNat = n % 256 := by simp
      calc ofLE (leBytes (w + 1) n)
          = n % 256 + 256 * (n / 256 % 256 ^ w) := by rw [leBytes, ofLE, hhead, ih]
        _ = n % (256 * 256 ^ w) := (Nat.mod_mul).symm
        _ = n % 256 ^ (w + 1) := by rw [Nat.pow_succ, Nat.mul_comm]

theorem ofLE_leBytes_of_lt {w n : Nat} (h : n < 256 ^ w) : ofLE (leBytes w n) = n := by
  rw [ofLE_leBytes, Nat.mod_eq_of_lt h]

/-- Reading loses nothing: the bytes can be written again from the number they spell. -/
theorem leBytes_ofLE (bs : List UInt8) : leBytes bs.length (ofLE bs) = bs := by
  induction bs with
  | nil => rfl
  | cons b bs ih =>
      have hb : b.toNat < 256 := b.toNat_lt
      have hlow : UInt8.ofNat (b.toNat + 256 * ofLE bs) = b := by
        apply UInt8.toNat_inj.mp
        simp only [UInt8.toNat_ofNat']
        omega
      have hhigh : (b.toNat + 256 * ofLE bs) / 256 = ofLE bs := by omega
      show UInt8.ofNat (b.toNat + 256 * ofLE bs)
        :: leBytes bs.length ((b.toNat + 256 * ofLE bs) / 256) = b :: bs
      rw [hlow, hhigh, ih]

theorem ofLE_lt (bs : List UInt8) : ofLE bs < 256 ^ bs.length := by
  have hagain : ofLE (leBytes bs.length (ofLE bs)) = ofLE bs % 256 ^ bs.length := ofLE_leBytes _ _
  rw [leBytes_ofLE] at hagain
  rw [hagain]
  exact Nat.mod_lt _ (Nat.pow_pos (by decide))

theorem ofLE_append (as bs : List UInt8) :
    ofLE (as ++ bs) = ofLE as + 256 ^ as.length * ofLE bs := by
  induction as with
  | nil => simp [ofLE]
  | cons a as ih =>
      simp only [List.cons_append, ofLE, ih, List.length_cons, Nat.pow_succ]
      rw [Nat.mul_add, Nat.add_assoc, Nat.mul_comm (256 ^ as.length) 256, Nat.mul_assoc]

theorem ofLE_eq_zero_iff {bs : List UInt8} : ofLE bs = 0 ↔ ∀ b ∈ bs, b = 0 := by
  induction bs with
  | nil => simp [ofLE]
  | cons b bs ih =>
      have hb : b.toNat = 0 ↔ b = 0 := UInt8.toNat_inj (b := 0)
      rw [ofLE, List.forall_mem_cons, ← ih, ← hb]
      omega

/-- Two numbers that fit are equal when their bytes are. -/
theorem leBytes_inj {w m n : Nat} (hm : m < 256 ^ w) (hn : n < 256 ^ w)
    (h : leBytes w m = leBytes w n) : m = n := by
  rw [← ofLE_leBytes_of_lt hm, h, ofLE_leBytes_of_lt hn]

/-- A bit pattern is recovered from the bytes of its number. -/
theorem ofNat_ofLE_leBytes {k w : Nat} (x : BitVec k) (hk : 2 ^ k ≤ 256 ^ w) :
    BitVec.ofNat k (ofLE (leBytes w x.toNat)) = x := by
  rw [ofLE_leBytes_of_lt (Nat.lt_of_lt_of_le x.isLt hk), BitVec.ofNat_toNat, BitVec.setWidth_eq]

/-! ## The order of a machine -/

/-- The order in which a machine stores the bytes of an integer. -/
inductive ByteOrder where
  | little
  | big
  deriving DecidableEq, Repr

namespace ByteOrder

/-- The machine's own representation of `n` in `w` bytes. -/
def encode (order : ByteOrder) (w n : Nat) : List UInt8 :=
  match order with
  | little => leBytes w n
  | big => (leBytes w n).reverse

/-- The number a machine reads from its own representation. -/
def decode (order : ByteOrder) (bs : List UInt8) : Nat :=
  match order with
  | little => ofLE bs
  | big => ofLE bs.reverse

@[simp] theorem length_encode (order : ByteOrder) (w n : Nat) :
    (order.encode w n).length = w := by
  cases order <;> simp [encode]

theorem decode_encode (order : ByteOrder) {w n : Nat} (h : n < 256 ^ w) :
    order.decode (order.encode w n) = n := by
  cases order <;> simp [encode, decode, ofLE_leBytes_of_lt h]

/-- Reading loses nothing here either. -/
theorem encode_decode (order : ByteOrder) (bs : List UInt8) :
    order.encode bs.length (order.decode bs) = bs := by
  cases order with
  | little => exact leBytes_ofLE bs
  | big =>
      show (leBytes bs.length (ofLE bs.reverse)).reverse = bs
      rw [← List.length_reverse, leBytes_ofLE, List.reverse_reverse]

theorem decode_lt (order : ByteOrder) (bs : List UInt8) : order.decode bs < 256 ^ bs.length := by
  cases order with
  | little => exact ofLE_lt bs
  | big =>
      rw [← List.length_reverse]
      exact ofLE_lt bs.reverse

theorem decode_eq_zero_iff (order : ByteOrder) {bs : List UInt8} :
    order.decode bs = 0 ↔ ∀ b ∈ bs, b = 0 := by
  cases order with
  | little => exact ofLE_eq_zero_iff
  | big =>
      show ofLE bs.reverse = 0 ↔ _
      rw [ofLE_eq_zero_iff]
      simp only [List.mem_reverse]

/-- A bit pattern survives being copied to memory and back on one machine. -/
theorem ofNat_decode_encode (order : ByteOrder) {k w : Nat} (x : BitVec k)
    (hk : 2 ^ k ≤ 256 ^ w) : BitVec.ofNat k (order.decode (order.encode w x.toNat)) = x := by
  rw [order.decode_encode (Nat.lt_of_lt_of_le x.isLt hk), BitVec.ofNat_toNat, BitVec.setWidth_eq]

/-- The `w` bytes of `n` read the same from either end. -/
def Symmetric (w n : Nat) : Prop := (leBytes w n).reverse = leBytes w n

instance (w n : Nat) : Decidable (Symmetric w n) :=
  inferInstanceAs (Decidable ((leBytes w n).reverse = leBytes w n))

theorem encode_little_eq_big_iff (w n : Nat) :
    little.encode w n = big.encode w n ↔ Symmetric w n := eq_comm

end ByteOrder
