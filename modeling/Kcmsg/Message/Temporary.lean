import Kcmsg.Library.Terminated
import Kcmsg.Message.Wire

/-!
# Temporary blocks

The string getters copy a field into a block from `malloc`, put a terminator behind it, and
assign the block to the result as a terminated string. What matters of such a block is which of
its bytes have been set: `Block` carries their number, since all copies start at its beginning,
and everything else in it, and behind it, is whatever the memory held.
-/

namespace Kcmsg

/-- What `malloc` makes of a request for `n` bytes: nothing, or a block. The bytes are those of
the block and those behind it, to the end of what can be read, as they happen to be. -/
def Heap : Type := (n : Nat) → Option { bytes : List UInt8 // n ≤ bytes.length }

/-- A block with what lies behind it; its first `written` bytes have been set. -/
structure Block where
  bytes : List UInt8
  size : Nat
  written : Nat
  size_le : size ≤ bytes.length
  written_le : written ≤ size

/-- A block in which nothing has been set. -/
def Block.fresh {n : Nat} (bytes : { bytes : List UInt8 // n ≤ bytes.length }) : Block :=
  ⟨bytes.val, n, 0, bytes.property, Nat.zero_le n⟩

def Heap.malloc (heap : Heap) (n : Nat) : Option Block := (heap n).map Block.fresh

/-- Requests of the size of a message body are served, four bytes for each of its bytes. -/
def Heap.Serves (heap : Heap) : Prop := ∀ n ≤ 4 * 0x10000, (heap n).isSome

theorem Heap.malloc_of_some {heap : Heap} {n : Nat}
    {bytes : { bytes : List UInt8 // n ≤ bytes.length }} (h : heap n = some bytes) :
    heap.malloc n = some (Block.fresh bytes) := by
  rw [malloc, h, Option.map_some]

theorem Heap.malloc_of_none {heap : Heap} {n : Nat} (h : heap n = none) :
    heap.malloc n = none := by
  rw [malloc, h, Option.map_none]

namespace Block

/-- Copy `src` to the beginning of the block; a longer `src` leaves the block. -/
def copy (b : Block) (src : List UInt8) : Option Block :=
  if h : src.length ≤ b.size then
    some {
      bytes := src ++ b.bytes.drop src.length
      size := b.size
      written := max b.written src.length
      size_le := by
        have hsize := b.size_le
        rw [List.length_append, List.length_drop]
        omega
      written_le := Nat.max_le.mpr ⟨b.written_le, h⟩ }
  else none

theorem copy_of_le (b : Block) {src : List UInt8} (h : src.length ≤ b.size) :
    ∃ b', b.copy src = some b' ∧ b'.bytes = src ++ b.bytes.drop src.length ∧
      b'.size = b.size ∧ b'.written = max b.written src.length :=
  ⟨_, dif_pos h, rfl, rfl, rfl⟩

/-- A fresh block of `n` bytes whose first `k` are cleared and that then takes a payload. -/
theorem clear_copy {n k : Nat} (bytes : { bytes : List UInt8 // n ≤ bytes.length })
    (payload : List UInt8) (hk : k ≤ n) (hpayload : payload.length ≤ n) :
    ∃ cleared block, (fresh bytes).copy (List.replicate k 0) = some cleared ∧
      cleared.copy payload = some block ∧
      block.bytes = payload ++ (List.replicate k 0 ++ bytes.val.drop k).drop payload.length ∧
      block.written = max k payload.length := by
  obtain ⟨cleared, hcleared, hbytes, hsize, hwritten⟩ :=
    copy_of_le (fresh bytes) (show (List.replicate k 0).length ≤ n by rwa [List.length_replicate])
  obtain ⟨block, hblock, hbytes', -, hwritten'⟩ :=
    copy_of_le cleared (show payload.length ≤ cleared.size by rwa [hsize])
  refine ⟨cleared, block, hcleared, hblock, ?_, ?_⟩
  · rw [hbytes', hbytes, List.length_replicate]
    rfl
  · rw [hwritten', hwritten, List.length_replicate]
    exact congrArg (max · payload.length) (Nat.zero_max k)

end Block

/-- `memset(ptr, 0, n)` -/
def memset (ptr : Option Block) (n : Nat) : Program Message Block :=
  Program.orFault (ptr.bind fun block => block.copy (List.replicate n 0))

/-- `memcpy(ptr, src, n)` -/
def memcpy (block : Block) (src : List UInt8) : Program Message Block :=
  Program.orFault (block.copy src)

/-! ## Wide characters -/

/-- The bytes of a block as `wchar_t`s. -/
def wideChars (host : ByteOrder) : List UInt8 → List (BitVec 32)
  | a :: b :: c :: d :: rest => nativeValue host 32 [a, b, c, d] :: wideChars host rest
  | _ => []

/-- The first character of a sequence that has one. -/
theorem exists_four {bytes : List UInt8} {n : Nat} (h : bytes.length = (n + 1) * 4) :
    ∃ a b c d rest, bytes = a :: b :: c :: d :: rest ∧ rest.length = n * 4 := by
  match bytes, h with
  | a :: b :: c :: d :: rest, h =>
      simp only [List.length_cons] at h
      exact ⟨a, b, c, d, rest, rfl, by omega⟩
  | [], h => simp at h
  | [_], h | [_, _], h | [_, _, _], h =>
      simp only [List.length_cons, List.length_nil] at h
      omega

theorem wideChars_append (host : ByteOrder) {bytes : List UInt8} (n : Nat)
    (h : bytes.length = n * 4) (rest : List UInt8) :
    wideChars host (bytes ++ rest) = wideChars host bytes ++ wideChars host rest := by
  induction n generalizing bytes with
  | zero =>
      have hnil : bytes = [] := List.length_eq_zero_iff.mp (by omega)
      rw [hnil]
      rfl
  | succ n ih =>
      obtain ⟨a, b, c, d, tail, rfl, htail⟩ := exists_four h
      simp only [List.cons_append, wideChars, ih htail]

theorem length_wideChars (host : ByteOrder) {bytes : List UInt8} (n : Nat)
    (h : bytes.length = n * 4) : (wideChars host bytes).length = n := by
  induction n generalizing bytes with
  | zero =>
      have hnil : bytes = [] := List.length_eq_zero_iff.mp (by omega)
      rw [hnil]
      rfl
  | succ n ih =>
      obtain ⟨a, b, c, d, tail, rfl, htail⟩ := exists_four h
      rw [wideChars, List.length_cons, ih htail]

/-- The characters of a wide string are read back on the host that stored them. -/
theorem wideChars_wideBytes (host : ByteOrder) (chars : List (BitVec 32)) :
    wideChars host (wideBytes host chars) = chars := by
  induction chars with
  | nil => rfl
  | cons c cs ih =>
      have hcons : wideBytes host (c :: cs) = native host 4 c ++ wideBytes host cs := rfl
      have hhead : wideChars host (native host 4 c) = [c] := by
        have hvalue := nativeValue_native host c (w := 4) (by decide)
        obtain ⟨p, q, r, s, rest, hbytes, hrest⟩ :=
          exists_four (n := 0) (length_native host 4 c)
        rw [hbytes, List.length_eq_zero_iff.mp (hrest.trans (Nat.zero_mul 4))] at hvalue ⊢
        rw [wideChars, wideChars, hvalue]
        exact nofun
      rw [hcons, wideChars_append host 1 (by simp), hhead, ih, List.singleton_append]

end Kcmsg
