import Kcmsg.Message.Calls
import Kcmsg.Message.Length
import Kcmsg.Message.Stale

/-!
# Decoding untrusted bytes

A received block can hold anything, and `readMessageLength` takes any sixteen bits for the length.
The getters test the tag and nothing else: not one of them looks at `data_length`, and the length
of a string is taken as it comes. So a truncated element is read past the end of the message, and a
hostile length past the end of the block. A wide string that is all there is read past its end as
well, in the block it has been copied to, unless it has a zero character.

`Safe` says of one call that it is rejected or stays inside the message, `Getter.Meets` when it
does: the tag is another one, or the element it announces is all there. Both are carried through a
sequence of calls (`safeAll_iff`).
-/

namespace Kcmsg

/-- The payload bytes the getter of a kind reads: those of the kind, but for `getLong`. -/
def ScalarKind.readWidth : ScalarKind → Nat
  | long => 2
  | k => k.width

/-- Where a getter leaves the cursor, if nothing wraps around: the tag, the length and as many
characters as `size_t` makes of it. -/
def Getter.extent (m : Message) : Getter → Nat
  | scalar k => 1 + k.readWidth
  | string => 1 + m.prefixWidth .string + castSizeT (m.signedLength .string)
  | wstring => 1 + m.prefixWidth .wstring + castSizeT (m.signedLength .wstring) * 4

/-! ## Calls that stay inside the message -/

/-- What is served on one heap is served on the other; what is in the blocks, and behind them, may
be anything. -/
def Heap.ServesLike (heap heap' : Heap) : Prop := ∀ n, (heap n).isSome → (heap' n).isSome

/-- A call that returned has read only bytes between the cursor and the end of the message, has
left the cursor behind them, and neither the length nor the cursor has wrapped around. -/
structure ReturnsInside (host : ByteOrder) (heap : Heap) (g : Getter) (m : Message)
    (val : Decoded) (m' : Message) : Prop where
  advances : m.offset < m'.offset
  inside : m'.offset ≤ m.dataLength
  /-- With anything else in front of the cursor, behind the message and on the heap it does the
  same. -/
  reads : ∀ (data : Mem) (heap' : Heap),
    (∀ i, m.offset ≤ i → i < m.dataLength → data i = m.data i) → heap.ServesLike heap' →
    (g.get host heap').run { m with data := data } = .returns val { m' with data := data }
  /-- Of the block that a string is assigned from it looks at no byte that it has not set. -/
  looksAtSet : ∀ k : StringKind, g = k.getter → ∀ block m₁,
    (Message.temporary heap k).run m = .returns block m₁ →
    Message.bytesLookedAt host k block ≤ block.written
  length : ∀ k : StringKind, g = k.getter → (castSizeT (m.signedLength k) : Int) = m.signedLength k
  cursor : m'.offset = m.offset + g.extent m

/-- The call is rejected, or returns and stays inside the message. -/
def Safe (host : ByteOrder) (heap : Heap) (g : Getter) (m : Message) : Prop :=
  ((g.get host heap).run m = .aborts ∨ ∃ what m', (g.get host heap).run m = .throws what m') ∨
    ∃ val m', (g.get host heap).run m = .returns val m' ∧ ReturnsInside host heap g m val m'

/-- A field of `n` characters is at the cursor, and all of it lies in front of the end of the
message. -/
structure FieldInside (k : StringKind) (m : Message) (n : Nat) : Prop where
  announced : m.Announces k
  length : m.signedLength k = n
  inside : m.payloadStart k + n * k.charSize ≤ m.dataLength

/-- The tag at the cursor is none of the getter's, or the element is complete. `getString` is also
rejected where there is no block for it; `getWString` needs one, and a zero character among those
of the element. -/
def Getter.Meets (host : ByteOrder) (heap : Heap) (m : Message) : Getter → Prop
  | scalar k =>
      (m.offset < maxMsgData ∧ m.data m.offset ≠ k.tag) ∨
        (m.data m.offset = k.tag ∧ m.offset + 1 + k.readWidth ≤ m.dataLength)
  | string =>
      (m.offset < maxMsgData ∧ ¬ m.Announces .string) ∨
        (m.Announces .string ∧ m.payloadStart .string ≤ maxMsgData ∧
          heap (m.request .string) = none) ∨
        ∃ n, FieldInside .string m n
  | wstring =>
      (m.offset < maxMsgData ∧ ¬ m.Announces .wstring) ∨
        ∃ n, FieldInside .wstring m n ∧ (heap ((n + 1) * 4)).isSome ∧
          0 ∈ wideChars host (m.payload .wstring)

section Outcomes

variable {host : ByteOrder} {heap : Heap} {g : Getter} {m m' : Message} {val : Decoded}

theorem safe_of_aborts (h : (g.get host heap).run m = .aborts) : Safe host heap g m :=
  .inl (.inl h)

/-- A call that leaves the block is not safe. -/
theorem not_safe_of_faults (h : (g.get host heap).run m = .faults) : ¬ Safe host heap g m := by
  rintro ((hrun | ⟨_, _, hrun⟩) | ⟨_, _, hrun, -⟩)
  all_goals exact absurd (h.symm.trans hrun) nofun

/-- One that has returned is safe only if it has stayed inside the message. -/
theorem Safe.returnsInside (hsafe : Safe host heap g m)
    (h : (g.get host heap).run m = .returns val m') : ReturnsInside host heap g m val m' := by
  rcases hsafe with (hrun | ⟨_, _, hrun⟩) | ⟨_, _, hrun, hreturns⟩
  · exact absurd (h.symm.trans hrun) nofun
  · exact absurd (h.symm.trans hrun) nofun
  · obtain ⟨rfl, rfl⟩ := Outcome.returns.inj (h.symm.trans hrun)
    exact hreturns

end Outcomes

/-! ## The scalars -/

/-- A getter makes a value of its kind of the bytes of its element. -/
theorem ScalarKind.exists_run (host : ByteOrder) (k : ScalarKind) :
    ∃ f : List UInt8 → ScalarValue, (∀ bytes, (f bytes).kind = k) ∧ ∀ m : Message,
      (k.get host).run m = ((Message.getElement k.tag k.readWidth).run m).map f := by
  cases k <;> refine ⟨_, ?_, Program.run_bind_pure_pure _ _ _⟩ <;> exact fun _ => rfl

section Scalars

variable {host : ByteOrder} {heap : Heap} {k : ScalarKind} {m : Message}

theorem exists_run_scalar (host : ByteOrder) (heap : Heap) (k : ScalarKind) :
    ∃ f : List UInt8 → Decoded, ∀ m : Message, ((Getter.scalar k).get host heap).run m =
      ((Message.getElement k.tag k.readWidth).run m).map f := by
  obtain ⟨f, -, hf⟩ := k.exists_run host
  refine ⟨fun bytes => .scalar (f bytes), fun m => ?_⟩
  rw [Getter.get, Program.run_bind_pure, hf, Outcome.map_map]

theorem run_scalar_of_ne (hroom : m.offset + 1 ≤ maxMsgData) (htag : m.data m.offset ≠ k.tag) :
    ((Getter.scalar k).get host heap).run m = .aborts := by
  obtain ⟨f, hf⟩ := exists_run_scalar host heap k
  rw [hf, Message.run_getElement_of_ne k.tag_lt hroom htag, Outcome.map]

theorem run_scalar_of_faults (h : (Message.getElement k.tag k.readWidth).run m = .faults) :
    ((Getter.scalar k).get host heap).run m = .faults := by
  obtain ⟨f, hf⟩ := exists_run_scalar host heap k
  rw [hf, h, Outcome.map]

/-- An element that ends in the block is read, and nothing but its bytes matters. -/
theorem run_scalar (host : ByteOrder) (heap : Heap) (htag : m.data m.offset = k.tag)
    (hinside : m.offset + 1 + k.readWidth ≤ maxMsgData) :
    ∃ val, ∀ data : Mem,
      (∀ i, m.offset ≤ i → i < m.offset + 1 + k.readWidth → data i = m.data i) →
      ((Getter.scalar k).get host heap).run { m with data := data } =
        .returns val { m with data := data, offset := m.offset + 1 + k.readWidth } := by
  obtain ⟨f, hf⟩ := exists_run_scalar host heap k
  refine ⟨f (m.data.load (m.offset + 1) k.readWidth), fun data hsame => ?_⟩
  have htag' : data m.offset = k.tag := by rw [hsame m.offset (by omega) (by omega), htag]
  have hload : Mem.load data (m.offset + 1) k.readWidth =
      m.data.load (m.offset + 1) k.readWidth :=
    Mem.load_eq_load_iff.mpr fun i hi => hsame (m.offset + 1 + i) (by omega) (by omega)
  have helement := Message.run_getElement (m := { m with data := data }) k.tag_lt hinside htag'
  rw [hf, helement, Outcome.map, hload]

theorem meets_scalar_of_safe (hsafe : Safe host heap (.scalar k) m) :
    Getter.Meets host heap m (.scalar k) := by
  by_cases hroom : m.offset + 1 ≤ maxMsgData
  · by_cases htag : m.data m.offset = k.tag
    · by_cases hinside : m.offset + 1 + k.readWidth ≤ maxMsgData
      · obtain ⟨val, hrun⟩ := run_scalar host heap htag hinside
        have hreturns := hsafe.returnsInside (hrun m.data fun _ _ _ => rfl)
        exact .inr ⟨htag, hreturns.inside⟩
      · have helement := Message.run_getElement_of_gt k.tag_lt (Nat.lt_of_not_le hinside) htag
        exact absurd hsafe (not_safe_of_faults (run_scalar_of_faults helement))
    · exact .inl ⟨hroom, htag⟩
  · have helement : (Message.getElement k.tag k.readWidth).run m = .faults :=
      Message.run_getElement_outside (Nat.lt_of_not_le hroom)
    exact absurd hsafe (not_safe_of_faults (run_scalar_of_faults helement))

theorem safe_scalar_iff (hd : m.dataLength ≤ maxMsgData) :
    Safe host heap (.scalar k) m ↔ Getter.Meets host heap m (.scalar k) := by
  constructor
  · exact meets_scalar_of_safe
  · rintro (⟨hroom, htag⟩ | ⟨htag, hinside⟩)
    · exact safe_of_aborts (run_scalar_of_ne hroom htag)
    · obtain ⟨val, hrun⟩ := run_scalar host heap htag (Nat.le_trans hinside hd)
      refine .inr ⟨val, _, hrun m.data fun _ _ _ => rfl, ?_⟩
      refine {
        advances := ?_
        inside := hinside
        -- the heap is not used
        reads := fun data _ hsame _ =>
          hrun data fun i hi hlt => hsame i hi (Nat.lt_of_lt_of_le hlt hinside)
        looksAtSet := ?_
        length := ?_
        cursor := Nat.add_assoc m.offset 1 k.readWidth }
      · show m.offset < m.offset + 1 + k.readWidth
        omega
      · -- a scalar has neither a block nor a length of its own
        intro l hl
        cases l <;> cases hl
      · intro l hl
        cases l <;> cases hl

end Scalars

/-! ## The strings -/

section Strings

variable {host : ByteOrder} {heap : Heap} {k : StringKind} {m : Message} {n : Nat}

theorem FieldInside.fits (h : FieldInside k m n) (hd : m.dataLength ≤ maxMsgData) :
    m.FieldFits k n :=
  ⟨h.announced, h.length, Nat.le_trans h.inside hd⟩

/-- A field depends on its own bytes only. -/
theorem Message.FieldFits.frame (h : m.FieldFits k n) {data : Mem}
    (hsame : ∀ i, m.offset ≤ i → i < m.payloadStart k + n * k.charSize → data i = m.data i) :
    Message.FieldFits k { m with data := data } n ∧
      Message.payloadStart k { m with data := data } = m.payloadStart k ∧
      Message.payload k { m with data := data } = m.payload k := by
  have hstart : m.payloadStart k = m.offset + 1 + m.prefixWidth k := rfl
  have hpos := m.prefixWidth_pos k
  have htag : data m.offset = m.data m.offset := hsame m.offset (Nat.le_refl _) (by omega)
  have hwidth : Message.prefixWidth k { m with data := data } = m.prefixWidth k := by
    show (if data m.offset = k.shortTag then 1 else 2) = m.prefixWidth k
    rw [htag]
    rfl
  have hload {j : Nat} (hj : j ≤ m.prefixWidth k) :
      Mem.load data (m.offset + 1) j = m.data.load (m.offset + 1) j :=
    Mem.load_eq_load_iff.mpr fun i hi => hsame (m.offset + 1 + i) (by omega) (by omega)
  have hlength : Message.signedLength k { m with data := data } = m.signedLength k := by
    show (if data m.offset = k.shortTag then
        (littleValue 8 (Mem.load data (m.offset + 1) 1)).toInt
      else (littleValue 16 (Mem.load data (m.offset + 1) 2)).toInt) = m.signedLength k
    rw [htag, Message.signedLength]
    by_cases hshort : m.data m.offset = k.shortTag
    · rw [if_pos hshort, if_pos hshort, hload hpos]
    · have htwo : m.prefixWidth k = 2 := if_neg hshort
      rw [if_neg hshort, if_neg hshort, hload (by omega)]
  have hstart' : Message.payloadStart k { m with data := data } = m.payloadStart k := by
    show m.offset + 1 + Message.prefixWidth k { m with data := data } = _
    rw [hwidth, hstart]
  have hfits : Message.FieldFits k { m with data := data } n := by
    refine ⟨?_, hlength.trans h.length, by rw [hstart']; exact h.inside⟩
    show data m.offset = k.shortTag ∨ data m.offset = k.longTag
    rw [htag]
    exact h.announced
  refine ⟨hfits, hstart', ?_⟩
  rw [hfits.payload_eq, h.payload_eq, hstart']
  exact Mem.load_eq_load_iff.mpr fun i hi =>
    hsame (m.payloadStart k + i) (by omega) (by omega)

/-- What the two string getters share once the field is inside: the outcome is left to each. -/
theorem FieldInside.returnsInside (h : FieldInside k m n) {val : Decoded}
    (hreads : ∀ (data : Mem) (heap' : Heap),
      (∀ i, m.offset ≤ i → i < m.dataLength → data i = m.data i) → heap.ServesLike heap' →
      (k.getter.get host heap').run { m with data := data } =
        .returns val { m with data := data, offset := m.payloadStart k + n * k.charSize })
    (hset : ∀ block m₁, (Message.temporary heap k).run m = .returns block m₁ →
      Message.bytesLookedAt host k block ≤ block.written) :
    ReturnsInside host heap k.getter m val
      { m with offset := m.payloadStart k + n * k.charSize } := by
  have hbounds := m.signedLength_bounds k
  have hlength := h.length
  have hcast : castSizeT (m.signedLength k) = n := by
    rw [hlength]
    exact Message.castSizeT_natCast (by omega)
  have hkind {l : StringKind} (hl : k.getter = l.getter) : k = l := by
    cases k <;> cases l <;> first | rfl | cases hl
  refine {
    advances := ?_
    inside := h.inside
    reads := hreads
    looksAtSet := fun l hl => hkind hl ▸ hset
    length := fun l hl => ?_
    cursor := ?_ }
  · show m.offset < m.offset + 1 + m.prefixWidth k + n * k.charSize
    omega
  · rw [← hkind hl, hcast, hlength]
  · show m.offset + 1 + m.prefixWidth k + n * k.charSize = m.offset + k.getter.extent m
    cases k with
    | string =>
        rw [StringKind.getter, Getter.extent, hcast, StringKind.charSize]
        omega
    | wstring =>
        rw [StringKind.getter, Getter.extent, hcast, StringKind.charSize]
        omega

theorem run_get_string (host : ByteOrder) (heap : Heap) (m : Message) :
    (Getter.string.get host heap).run m = ((Message.getString heap).run m).map .string :=
  Program.run_bind_pure _ _ m

theorem run_get_wstring (host : ByteOrder) (heap : Heap) (m : Message) :
    (Getter.wstring.get host heap).run m = ((Message.getWString heap host).run m).map .wstring :=
  Program.run_bind_pure _ _ m

theorem safe_string_of_aborts (h : (Message.getString heap).run m = .aborts) :
    Safe host heap .string m :=
  safe_of_aborts (by rw [run_get_string, h, Outcome.map])

theorem meets_string_of_safe (hsafe : Safe host heap .string m) :
    Getter.Meets host heap m .string := by
  have hget := run_get_string host heap m
  rcases Message.getString_cases heap m with ⟨hroom, ha, -⟩ | ⟨ha, hstart, hheap, -⟩ |
    ⟨n, hfits, -, hrun⟩ | hrun
  · exact .inl ⟨hroom, ha⟩
  · exact .inr (.inl ⟨ha, hstart, hheap⟩)
  · rw [hrun, Outcome.map] at hget
    have hend : m.payloadStart .string + n ≤ m.dataLength := (hsafe.returnsInside hget).inside
    refine .inr (.inr ⟨n, hfits.announced, hfits.length, ?_⟩)
    rwa [StringKind.charSize, Nat.mul_one]
  · rw [hrun, Outcome.map] at hget
    exact absurd hsafe (not_safe_of_faults hget)

/-- A complete string is returned, or rejected where there is no block for it. -/
theorem safe_string_of_inside (hd : m.dataLength ≤ maxMsgData) (hinside : FieldInside .string m n) :
    Safe host heap .string m := by
  have hfits := hinside.fits hd
  cases hheap : heap (n + 1) with
  | none =>
      have hrequest : m.request .string = n + 1 := hfits.request_eq.trans (Nat.mul_one _)
      have hend := hfits.inside
      exact safe_string_of_aborts (Message.run_getString_refused hfits.announced (by omega)
        (by rw [hrequest, hheap]))
  | some bytes =>
      have hsome : (heap (n + 1)).isSome := by rw [hheap]; rfl
      have hrequest : (heap (m.request .string)).isSome := by
        rwa [hfits.request_eq.trans (Nat.mul_one _)]
      have hread (data : Mem) (heap' : Heap)
          (hsame : ∀ i, m.offset ≤ i → i < m.dataLength → data i = m.data i)
          (hserves : heap.ServesLike heap') :
          (Getter.string.get host heap').run { m with data := data } =
            .returns (.string (cutAt 0 (m.payload .string)))
              { m with data := data, offset := m.payloadStart .string + n * 1 } := by
        obtain ⟨hfits', hstart, hpayload⟩ := hfits.frame fun i hi hlt =>
          hsame i hi (Nat.lt_of_lt_of_le hlt hinside.inside)
        rw [run_get_string, Message.run_getString hfits' (hserves _ hsome), hpayload, hstart,
          Nat.mul_one, Outcome.map]
      have hdepends : DependsOnMessage host .string m := .of_string hfits
      exact .inr ⟨_, _, hread m.data heap (fun _ _ _ => rfl) fun _ => id,
        hinside.returnsInside hread (hdepends.looksAtSet heap hrequest)⟩

theorem safe_string_iff (hd : m.dataLength ≤ maxMsgData) :
    Safe host heap .string m ↔ Getter.Meets host heap m .string := by
  constructor
  · exact meets_string_of_safe
  · rintro (⟨hroom, ha⟩ | ⟨ha, hstart, hheap⟩ | ⟨n, hinside⟩)
    · exact safe_string_of_aborts (Message.run_getString_of_not ha hroom)
    · exact safe_string_of_aborts (Message.run_getString_refused ha hstart hheap)
    · exact safe_string_of_inside hd hinside

theorem meets_wstring_of_safe (hsafe : Safe host heap .wstring m) :
    Getter.Meets host heap m .wstring := by
  have hget := run_get_wstring host heap m
  rcases Message.getWString_cases heap host m with ⟨hroom, ha, -⟩ |
    ⟨n, bytes, hfits, hheap, s, hstop, hrun⟩ | hrun
  · exact .inl ⟨hroom, ha⟩
  · rw [hrun, Outcome.map] at hget
    have hreturns := hsafe.returnsInside hget
    refine .inr ⟨n, ⟨hfits.announced, hfits.length, hreturns.inside⟩, by rw [hheap]; rfl, ?_⟩
    -- on the dirty heap a string without a zero runs off the end of its block
    by_contra hnul
    have hdirty := hreturns.reads m.data dirtyHeap (fun _ _ _ => rfl) fun _ _ => rfl
    rw [run_get_wstring, Message.run_getWString_dirty hfits hnul, Outcome.map] at hdirty
    cases hdirty
  · rw [hrun, Outcome.map] at hget
    exact absurd hsafe (not_safe_of_faults hget)

/-- A complete wide string with a zero character is returned. -/
theorem safe_wstring_of_inside (hd : m.dataLength ≤ maxMsgData)
    (hinside : FieldInside .wstring m n) (hheap : (heap ((n + 1) * 4)).isSome)
    (hzero : 0 ∈ wideChars host (m.payload .wstring)) : Safe host heap .wstring m := by
  have hfits := hinside.fits hd
  have hdepends : DependsOnMessage host .wstring m := .of_zero hfits hzero
  have hrequest : (heap (m.request .wstring)).isSome := by rwa [hfits.request_eq]
  have hread (data : Mem) (heap' : Heap)
      (hsame : ∀ i, m.offset ≤ i → i < m.dataLength → data i = m.data i)
      (hserves : heap.ServesLike heap') :
      (Getter.wstring.get host heap').run { m with data := data } =
        .returns (.wstring (cutAt 0 (wideChars host (m.payload .wstring))))
          { m with data := data, offset := m.payloadStart .wstring + n * 4 } := by
    obtain ⟨hfits', hstart, hpayload⟩ := hfits.frame fun i hi hlt =>
      hsame i hi (Nat.lt_of_lt_of_le hlt hinside.inside)
    obtain ⟨bytes, hbytes⟩ := Option.isSome_iff_exists.mp (hserves _ hheap)
    rw [run_get_wstring, Message.run_getWString hfits' hbytes, hpayload, hstart,
      untilStop_of_mem hzero, Program.run_orFault_some, Outcome.map]
  exact .inr ⟨_, _, hread m.data heap (fun _ _ _ => rfl) fun _ => id,
    hinside.returnsInside hread (hdepends.looksAtSet heap hrequest)⟩

theorem safe_wstring_iff (hd : m.dataLength ≤ maxMsgData) :
    Safe host heap .wstring m ↔ Getter.Meets host heap m .wstring := by
  constructor
  · exact meets_wstring_of_safe
  · rintro (⟨hroom, ha⟩ | ⟨n, hinside, hheap, hzero⟩)
    · apply safe_of_aborts
      rw [run_get_wstring, Message.run_getWString_of_not ha hroom, Outcome.map]
    · exact safe_wstring_of_inside hd hinside hheap hzero

end Strings

/-! ## Sequences of calls -/

/-- **What one call needs to stay inside the message.** -/
theorem safe_iff_meets {host : ByteOrder} {heap : Heap} {m : Message}
    (hd : m.dataLength ≤ maxMsgData) (g : Getter) :
    Safe host heap g m ↔ g.Meets host heap m := by
  cases g with
  | scalar k => exact safe_scalar_iff hd
  | string => exact safe_string_iff hd
  | wstring => exact safe_wstring_iff hd

section Sequences

variable (host : ByteOrder)

/-- Each call of the sequence is safe when its turn comes; one that is rejected may end it. -/
def SafeAll : Message → List (Getter × Heap) → Prop
  | _, [] => True
  | m, (g, heap) :: calls =>
      Safe host heap g m ∧ ∀ m' ∈ ((g.get host heap).run m).state, SafeAll m' calls

def MeetsAll : Message → List (Getter × Heap) → Prop
  | _, [] => True
  | m, (g, heap) :: calls =>
      g.Meets host heap m ∧ ∀ m' ∈ ((g.get host heap).run m).state, MeetsAll m' calls

end Sequences

theorem safeAll_iff_meetsAll {host : ByteOrder} {m : Message} (hd : m.dataLength ≤ maxMsgData)
    (calls : List (Getter × Heap)) : SafeAll host m calls ↔ MeetsAll host m calls := by
  induction calls generalizing m with
  | nil => exact Iff.rfl
  | cons c calls ih =>
      obtain ⟨g, heap⟩ := c
      refine and_congr (safe_iff_meets hd g) (forall₂_congr fun m' hm' => ih ?_)
      -- no getter changes the length
      rw [(g.preserves host heap m m' hm').dataLength]
      exact hd

/-- **Decoding untrusted bytes** stays inside the message exactly as long as every call finds
another tag or a complete element: for every content of the block and every sequence of getters. -/
theorem safeAll_iff {host : ByteOrder} {m m' : Message}
    (hread : Message.readMessageLength.run m = .returns () m') (calls : List (Getter × Heap)) :
    SafeAll host m' calls ↔ MeetsAll host m' calls := by
  rw [Message.run_readMessageLength] at hread
  cases hread
  have hlt := (littleValue 16 (m.data.load messageLengthOffset 2)).isLt
  exact safeAll_iff_meetsAll (Nat.le_of_lt_succ hlt) calls

/-- A received block of `n` bytes that starts with a boolean. -/
def receivedBool (n : Nat) : Message where
  data := (Mem.store (fun _ => 0) messageLengthOffset (leBytes 2 n)).store 26 [dataTypeBool, 1]
  offset := 26
  dataLength := 26
  hdr := default

/-- All of the boolean has been received. -/
theorem safeAll_iff_sample :
    ∃ m, Message.readMessageLength.run (receivedBool 28) = .returns () m ∧
      SafeAll .little m [(.scalar .bool, fun _ => none)] := by
  have hread := Message.run_readMessageLength (receivedBool 28)
  refine ⟨_, hread, (safeAll_iff hread _).mpr ⟨.inr ⟨by decide, by decide⟩, fun _ _ => trivial⟩⟩

/-- Only its tag has: the getter reads its value behind the message. -/
theorem not_safeAll_truncated :
    ∃ m, Message.readMessageLength.run (receivedBool 27) = .returns () m ∧
      m.offset = 26 ∧ m.dataLength = 27 ∧
      (∃ m', (Getter.get .little (fun _ => none) (.scalar .bool)).run m =
        .returns (.scalar (.bool true)) m' ∧ m'.offset = 28) ∧
      ¬ SafeAll .little m [(.scalar .bool, fun _ => none)] := by
  refine ⟨_, Message.run_readMessageLength (receivedBool 27), rfl, by decide, ⟨_, rfl, by decide⟩,
    fun h => ?_⟩
  rcases (safe_iff_meets (by decide) (.scalar .bool)).mp h.1 with ⟨-, htag⟩ | ⟨-, hinside⟩
  · exact absurd htag (by decide)
  · exact absurd hinside (by decide)

end Kcmsg
