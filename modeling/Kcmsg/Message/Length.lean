import Kcmsg.Message.Runs

/-!
# Length accounting

`getMessageLength()` is meant to be three things at once: the number of bytes a sequence of puts
produced, the number stored in the block's own length field, and a number that fits that field.
`Accounts` states the three of one state. They hold in every state of a run exactly when no
successful call of the run put a wide string of more than 255 characters: that branch of
`putWString` advances `dataLength` once more than the length field sees.
-/

namespace Kcmsg

/-! ## The length field -/

theorem Message.run_readMessageLength (m : Message) :
    readMessageLength.run m = .returns ()
      { m with dataLength := (littleValue 16 (m.data.load messageLengthOffset 2)).toNat } := by
  rw [readMessageLength, Program.run_bind_returns _ (run_memcpyFrom m (by decide)),
    Program.run_modify]

/-- The number the length field holds. -/
def Message.storedLength (m : Message) : Nat :=
  (littleValue 16 (m.data.load messageLengthOffset 2)).toNat

theorem Message.storedLength_of_load {m : Message} {n : Nat}
    (h : m.data.load messageLengthOffset 2 = leBytes 2 n) : m.storedLength = n % 65536 := by
  rw [storedLength, h, littleValue, BitVec.toNat_ofNat, ofLE_leBytes]
  exact Nat.mod_mod n 65536

/-- A put leaves its own idea of the new length in the length field. -/
theorem Message.place_storedLength {host : ByteOrder} {v : Value} {m : Message}
    (hfit : m.dataLength + v.size ≤ maxMsgData) :
    (m.place host v).storedLength = m.dataLength + v.size := by
  have hlt : m.dataLength + v.size < 65536 := Nat.lt_succ_of_le hfit
  have hload : (m.place host v).data.load messageLengthOffset 2 =
      leBytes 2 (m.dataLength + v.size) := by
    show Mem.load (Mem.store _ messageLengthOffset
      (leBytes 2 (m.dataLength + (v.encode host).length))) messageLengthOffset 2 = _
    rw [Value.length_encode]
    exact Mem.load_store_same _ _ (leBytes 2 (m.dataLength + v.size))
  rw [storedLength_of_load hload, Nat.mod_eq_of_lt hlt]

theorem Message.new_storedLength (hdr : MessageHeader) :
    (Message.new hdr).storedLength = messageLengthOffset + 2 :=
  storedLength_of_load (n := messageLengthOffset + 2) (Mem.load_store_same _ _ _)

/-! ## Accounting -/

namespace PutRun

/-- The bytes a list of values encodes to. -/
def totalSize (vs : List Value) : Nat := (vs.map Value.size).sum

/-- The length is the bytes put so far, it is what the length field says, and it fits. -/
structure Accounts (r : PutRun) : Prop where
  total : r.msg.getMessageLength = 26 + totalSize r.accepted
  stored : r.msg.getMessageLength = r.msg.storedLength
  lower : 26 ≤ r.msg.getMessageLength
  upper : r.msg.getMessageLength ≤ 0xFFFF
  reread : Message.readMessageLength.run r.msg = .returns () r.msg

/-- Re-reading the length changes nothing once the length field holds it. -/
theorem reread_of_stored {m : Message} (h : m.getMessageLength = m.storedLength) :
    Message.readMessageLength.run m = .returns () m := by
  rw [Message.run_readMessageLength]
  show Outcome.returns () { m with dataLength := m.storedLength } = _
  rw [← h]
  rfl

theorem totalSize_concat (vs : List Value) (v : Value) :
    totalSize (vs ++ [v]) = totalSize vs + v.size := by
  simp [totalSize]

theorem accounts_fresh (hdr : MessageHeader) : (fresh hdr).Accounts where
  total := rfl
  stored := (Message.new_storedLength hdr).symm
  lower := Nat.le_refl 26
  upper := show 26 ≤ 0xFFFF by decide
  reread := reread_of_stored (Message.new_storedLength hdr).symm

/-- The step: a put that is not a long wide string keeps the accounts. -/
theorem Accounts.place {r : PutRun} (hr : r.Accounts) {v : Value}
    (hfit : r.msg.dataLength + v.size ≤ maxMsgData) (hv : ¬ v.IsLongWide) (host : ByteOrder) :
    Accounts ⟨r.msg.place host v, r.accepted ++ [v]⟩ := by
  have hlength : (r.msg.place host v).getMessageLength = r.msg.dataLength + v.size := by
    show r.msg.dataLength + v.size + v.gap = _
    rw [Value.gap_of_not_isLongWide hv, Nat.add_zero]
  have htotal : r.msg.dataLength = 26 + totalSize r.accepted := hr.total
  have hlower : 26 ≤ r.msg.dataLength := hr.lower
  have hstored : (r.msg.place host v).getMessageLength = (r.msg.place host v).storedLength := by
    rw [hlength, Message.place_storedLength hfit]
  exact {
    total := by
      show (r.msg.place host v).getMessageLength = 26 + totalSize (r.accepted ++ [v])
      rw [hlength, totalSize_concat, htotal, Nat.add_assoc]
    stored := hstored
    lower := by
      show 26 ≤ (r.msg.place host v).getMessageLength
      omega
    upper := by
      show (r.msg.place host v).getMessageLength ≤ 0xFFFF
      rw [hlength]
      exact hfit
    reread := reread_of_stored hstored }

/-- A successful put of a long wide string always breaks them: the length field is behind. -/
theorem not_accounts_place {r : PutRun} {v : Value}
    (hfit : r.msg.dataLength + v.size ≤ maxMsgData) (hv : v.IsLongWide) (host : ByteOrder)
    (accepted : List Value) : ¬ Accounts ⟨r.msg.place host v, accepted⟩ := by
  intro h
  have hstored : r.msg.dataLength + v.size + v.gap = r.msg.dataLength + v.size :=
    h.stored.trans (Message.place_storedLength hfit)
  have hgap : 0 < v.gap := by
    rw [Value.gap_of_isLongWide hv]
    cases v with
    | scalar _ => exact hv.elim
    | string _ => exact hv.elim
    | wstring s =>
        have hlong : 255 < s.chars.length := hv
        show 0 < s.chars.length * 4
        omega
  omega

/-! ## Runs -/

/-- In every state of a run the accounts hold, if and only if the run has no successful call of
`putWString` with more than 255 characters. By induction on the run from its end: the last call
keeps the accounts or breaks them according to its value. -/
theorem accounts_every_prefix_iff (host : ByteOrder) (hdr : MessageHeader) (vs : List Value) :
    (∀ pre, pre <+: vs → (result host hdr pre).Accounts) ↔
      ∀ v ∈ admitted (messageLengthOffset + 2) vs, ¬ v.IsLongWide := by
  induction vs using List.reverseRecOn with
  | nil =>
      simp only [List.prefix_nil, forall_eq, admitted, List.not_mem_nil, false_imp_iff,
        implies_true, iff_true]
      exact accounts_fresh hdr
  | append_singleton vs v ih =>
      -- the prefixes are those of `vs` and the whole sequence
      have hsplit : (∀ pre, pre <+: vs ++ [v] → (result host hdr pre).Accounts) ↔
          (result host hdr (vs ++ [v])).Accounts ∧
            ∀ pre, pre <+: vs → (result host hdr pre).Accounts := by
        simp only [List.prefix_concat_iff, or_imp, forall_and, forall_eq]
      rw [hsplit, ih, admitted_concat host hdr, result_concat]
      by_cases hfit : (result host hdr vs).msg.dataLength + v.size ≤ maxMsgData
      · rw [after_of_fits hfit, if_pos hfit]
        simp only [List.mem_append, List.mem_singleton, or_imp, forall_and, forall_eq]
        constructor
        · rintro ⟨hlast, hbefore⟩
          exact ⟨hbefore, fun hv => not_accounts_place hfit hv host _ hlast⟩
        · rintro ⟨hbefore, hv⟩
          -- the state before the last call is one of those the hypothesis speaks of
          have hvs := ih.mpr hbefore vs (List.prefix_refl vs)
          exact ⟨hvs.place hfit hv host, hbefore⟩
      · rw [after_of_not_fits hfit, if_neg hfit, List.append_nil]
        exact ⟨fun h => h.2, fun h => ⟨ih.mpr h vs (List.prefix_refl vs), h⟩⟩

/-- **Length accounting, exactly when it holds**, stated of the calls themselves. -/
theorem lengthAccounting_iff (host : ByteOrder) (hdr : MessageHeader) (vs : List Value) :
    (∀ pre, pre <+: vs → ∃ r, (fresh hdr).putAll host pre = some r ∧ r.Accounts) ↔
      ∀ v ∈ admitted 26 vs, ¬ v.IsLongWide := by
  have hrun (pre : List Value) : (∃ r, (fresh hdr).putAll host pre = some r ∧ r.Accounts) ↔
      (result host hdr pre).Accounts := by
    simp only [putAll_fresh, Option.some.injEq, exists_eq_left']
  simp only [hrun]
  exact accounts_every_prefix_iff host hdr vs

/-- The shortest wide string of the two-byte form. -/
def wide256 : StdWString where
  chars := List.replicate 256 0x41
  size_lt := by rw [List.length_replicate]; decide

/-- After `putWString` of 256 characters the length is 2077, while the call has put 1027 bytes
and the length field holds 1053. -/
theorem lengthAccounting_wide256 :
    (∃ r, (fresh default).putAll .little [.wstring wide256] = some r ∧
      r.msg.getMessageLength = 2077 ∧ 26 + totalSize r.accepted = 1053 ∧
      r.msg.storedLength = 1053) ∧
    ¬ ∀ pre, pre <+: [.wstring wide256] →
      ∃ r, (fresh default).putAll .little pre = some r ∧ r.Accounts := by
  have hchars : wide256.chars.length = 256 := List.length_replicate
  have hlong : (Value.wstring wide256).IsLongWide := show 255 < wide256.chars.length by omega
  have hsize : (Value.wstring wide256).size = 1027 := by
    simp [Value.size, Value.prefixWidth, Value.payloadWidth, hchars]
  have hgap : (Value.wstring wide256).gap = 1024 := by
    rw [Value.gap_of_isLongWide hlong, Value.payloadWidth, hchars]
  have hstart : (fresh default).msg.dataLength = 26 := rfl
  have hfit : (fresh default).msg.dataLength + (Value.wstring wide256).size ≤ maxMsgData := by
    simp only [hstart, hsize, maxMsgData]
    omega
  have hrun : (fresh default).putAll .little [.wstring wide256] =
      some ⟨(fresh default).msg.place .little (.wstring wide256), [.wstring wide256]⟩ := by
    rw [putAll_eq (writable_fresh default), List.foldl_cons, after_of_fits hfit]
    rfl
  refine ⟨⟨_, hrun, ?_, ?_, ?_⟩, ?_⟩
  · simp only [Message.getMessageLength, Message.place_dataLength, hstart, hsize, hgap]
  · simp [totalSize, hsize]
  · simp only [Message.place_storedLength hfit, hstart, hsize]
  · intro h
    obtain ⟨r, hr, haccounts⟩ := h _ (List.prefix_refl _)
    rw [hrun, Option.some.injEq] at hr
    exact not_accounts_place hfit hlong .little _ (hr ▸ haccounts)

end PutRun

end Kcmsg
