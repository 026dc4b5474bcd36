import Kcmsg.Library.ByteOrder
import Kcmsg.Library.Memory

/-!
# Records spelled out in memory

A record is laid out by a table of its fields: an offset, a width and the number the bytes there
spell, least significant byte first. `Tiles` says that the fields of a table stand one behind the
other, without a gap and without an overlap. For such a table copying the fields one by one is
copying all bytes in one piece (`storeAll_eq`), every field is found where it was put
(`load_storeAll`), and reading the fields one by one is reading that piece (`flatMap_load`).
-/

/-- One field of a record that is spelled out in memory: where its bytes stand, how many they
are, and the number they spell. -/
structure RecordField (ρ : Type) where
  offset : Nat
  width : Nat
  value : ρ → Nat

namespace RecordField

variable {ρ : Type} {fs : List (RecordField ρ)} {p q : Nat}

def bytes (f : RecordField ρ) (r : ρ) : List UInt8 := leBytes f.width (f.value r)

@[simp] theorem length_bytes (f : RecordField ρ) (r : ρ) : (f.bytes r).length = f.width :=
  length_leBytes f.width _

/-- The fields stand one behind the other from `p` to `q`, without a gap and without an overlap. -/
def Tiles : Nat → List (RecordField ρ) → Nat → Prop
  | p, [], q => p = q
  | p, f :: fs, q => f.offset = p ∧ Tiles (p + f.width) fs q

/-- Copy the bytes of one field after the other to its place. -/
def storeAll (r : ρ) (mem : Mem) (fs : List (RecordField ρ)) : Mem :=
  fs.foldl (fun mem f => mem.store f.offset (f.bytes r)) mem

theorem Tiles.le (h : Tiles p fs q) : p ≤ q := by
  induction fs generalizing p with
  | nil => exact Nat.le_of_eq h
  | cons f fs ih =>
      have hrest : p + f.width ≤ q := ih h.2
      omega

theorem Tiles.length_flatMap_bytes (h : Tiles p fs q) (r : ρ) :
    p + (fs.flatMap fun f => f.bytes r).length = q := by
  induction fs generalizing p with
  | nil => exact h
  | cons f fs ih =>
      rw [List.flatMap_cons, List.length_append, length_bytes, ← Nat.add_assoc]
      exact ih h.2

/-- Copies to adjacent places are one copy. -/
theorem Tiles.storeAll_eq (h : Tiles p fs q) (r : ρ) (mem : Mem) :
    storeAll r mem fs = mem.store p (fs.flatMap fun f => f.bytes r) := by
  induction fs generalizing p mem with
  | nil => exact (Mem.store_nil mem p).symm
  | cons f fs ih =>
      obtain ⟨rfl, hrest⟩ := h
      have hlater := ih hrest (mem.store f.offset (f.bytes r))
      have hadjacent := Mem.store_append mem f.offset (f.bytes r) (fs.flatMap fun f => f.bytes r)
      rw [length_bytes] at hadjacent
      rw [List.flatMap_cons, ← hadjacent, ← hlater]
      rfl

/-- A later copy does not disturb an earlier one: every field is found where it was put. -/
theorem Tiles.load_storeAll (h : Tiles p fs q) (r : ρ) (mem : Mem) :
    ∀ f ∈ fs, (storeAll r mem fs).load f.offset f.width = f.bytes r := by
  induction fs generalizing p mem with
  | nil =>
      intro f hf
      cases hf
  | cons g gs ih =>
      obtain ⟨rfl, hrest⟩ := h
      intro f hf
      rcases List.mem_cons.mp hf with rfl | hlater
      · show (storeAll r (mem.store f.offset (f.bytes r)) gs).load f.offset f.width = f.bytes r
        rw [hrest.storeAll_eq, Mem.load_store_of_disjoint (.inl (Nat.le_refl _))]
        simpa only [length_bytes] using Mem.load_store_same mem f.offset (f.bytes r)
      · exact ih hrest _ f hlater

/-- Reading adjacent places one by one is reading them in one piece. -/
theorem Tiles.flatMap_load (h : Tiles p fs q) (mem : Mem) :
    (fs.flatMap fun f => mem.load f.offset f.width) = mem.load p (q - p) := by
  induction fs generalizing p with
  | nil =>
      have hpq : p = q := h
      rw [hpq, Nat.sub_self]
      rfl
  | cons f fs ih =>
      obtain ⟨rfl, hrest⟩ := h
      have hle := hrest.le
      have hsplit : q - f.offset = f.width + (q - (f.offset + f.width)) := by omega
      rw [List.flatMap_cons, ih hrest, hsplit, Mem.load_add]

end RecordField
