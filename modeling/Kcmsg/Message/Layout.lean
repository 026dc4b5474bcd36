import Kcmsg.Message.Runs

/-!
# The layout of an image

`Laid host data p vs q` says that the encodings of `vs` stand in `data` one after the other from
`p` to `q`, each inside the block. It is the picture a sequence of successful puts paints
(`laid_result`): every put extends it at the end, and no later put disturbs it, because a put
writes only the length field and the bytes from `dataLength` on.

Two results read the picture back. On one host it determines the values, so the image and the
length of a message determine the calls that made it (`sameCalls`). Between two hosts it compares
encodings element by element, which is how `HostOrder` finds the values whose bytes depend on the
host.
-/

namespace Kcmsg

/-- The encodings of `vs` stand in `data` from `p` to `q`. -/
def Laid (host : ByteOrder) (data : Mem) : Nat → List Value → Nat → Prop
  | p, [], q => p = q
  | p, v :: vs, q =>
      data.load p v.size = v.encode host ∧ p + v.size ≤ maxMsgData ∧
        Laid host data (p + v.size + v.gap) vs q

namespace Laid

variable {host : ByteOrder} {data : Mem} {p q : Nat} {vs : List Value}

theorem le (h : Laid host data p vs q) : p ≤ q := by
  induction vs generalizing p with
  | nil => exact Nat.le_of_eq h
  | cons v vs ih => exact Nat.le_trans (by omega) (ih h.2.2)

/-- Every element takes at least its tag, so only the empty layout has no extent. -/
theorem lt_of_cons {v : Value} (h : Laid host data p (v :: vs) q) : p < q := by
  have hsize := v.size_pos
  have hrest := h.2.2.le
  omega

theorem concat {v : Value} (h : Laid host data p vs q)
    (hload : data.load q v.size = v.encode host) (hroom : q + v.size ≤ maxMsgData) :
    Laid host data p (vs ++ [v]) (q + v.size + v.gap) := by
  induction vs generalizing p with
  | nil =>
      have hpq : p = q := h
      subst hpq
      exact ⟨hload, hroom, rfl⟩
  | cons w ws ih => exact ⟨h.1, h.2.1, ih h.2.2⟩

/-- A layout depends on the bytes it spans only. -/
theorem frame {data' : Mem} (h : Laid host data p vs q)
    (hsame : ∀ i, p ≤ i → i < q → data' i = data i) : Laid host data' p vs q := by
  induction vs generalizing p with
  | nil => exact h
  | cons v vs ih =>
      have hrest := h.2.2.le
      refine ⟨?_, h.2.1, ih h.2.2 fun i hp hq => hsame i (by omega) hq⟩
      rw [← h.1]
      exact Mem.load_eq_load_iff.mpr fun i hi => hsame (p + i) (by omega) (by omega)

end Laid

/-! ## Puts paint a layout -/

/-- Beside the length field and the bytes it appends, a put leaves the block alone. -/
theorem Message.place_data_of_outside {host : ByteOrder} {v : Value} {m : Message} {i : Nat}
    (hfield : i < messageLengthOffset ∨ messageLengthOffset + 2 ≤ i)
    (htail : i < m.dataLength ∨ m.dataLength + v.size ≤ i) :
    (m.place host v).data i = m.data i := by
  have hstored : (m.place host v).data i = m.data.store m.dataLength (v.encode host) i := by
    rcases hfield with hlow | hhigh
    · exact Mem.store_of_lt _ hlow
    · exact Mem.store_of_ge (by rw [length_leBytes]; exact hhigh)
  rw [hstored]
  rcases htail with hlow | hhigh
  · exact Mem.store_of_lt _ hlow
  · exact Mem.store_of_ge (by rw [Value.length_encode]; exact hhigh)

/-- The bytes a put appends are the encoding of its value. -/
theorem Message.place_load {host : ByteOrder} {v : Value} {m : Message}
    (hm : messageLengthOffset + 2 ≤ m.dataLength) :
    (m.place host v).data.load m.dataLength v.size = v.encode host := by
  show Mem.load (Mem.store (m.data.store m.dataLength (v.encode host)) messageLengthOffset _)
    m.dataLength v.size = _
  rw [Mem.load_store_of_disjoint (.inr (by rw [length_leBytes]; exact hm)),
    ← Value.length_encode host v, Mem.load_store_same]

namespace PutRun

/-- After any sequence of puts, the values of the successful ones stand in the block in order,
from the end of the length field to `dataLength`. -/
theorem laid_result (host : ByteOrder) (hdr : MessageHeader) (vs : List Value) :
    Laid host (result host hdr vs).msg.data (messageLengthOffset + 2)
      (result host hdr vs).accepted (result host hdr vs).msg.dataLength := by
  refine (result_preserves (P := fun r => r.msg.Writable ∧ Laid host r.msg.data
    (messageLengthOffset + 2) r.accepted r.msg.dataLength) ⟨writable_fresh hdr, rfl⟩ ?_ vs).2
  rintro r v ⟨hw, hlaid⟩ hfit
  refine ⟨hw.place hfit host, Laid.concat (hlaid.frame ?_) ?_ hfit⟩
  -- what stands there already lies between the length field and the bytes to come
  · intro i hp hq
    exact Message.place_data_of_outside (.inr hp) (.inl hq)
  · exact Message.place_load hw.past_length

end PutRun

/-! ## Reading a layout back -/

namespace Laid

variable {a b : Mem} {p q : Nat} {vs ws : List Value}

/-- A longer range starts with the encoding of the first element. -/
theorem load_head {host : ByteOrder} {v : Value} (h : Laid host a p (v :: vs) q) {n : Nat}
    (hn : v.size ≤ n) :
    a.load p n = v.encode host ++ a.load (p + v.size) (n - v.size) := by
  obtain ⟨k, rfl⟩ := Nat.exists_eq_add_of_le hn
  rw [Mem.load_add, h.1, Nat.add_sub_cancel_left]

/-- **The layout determines the values.** By induction on the first of the two lists: the blocks
agree on the longer of the two leading elements, and the format is a prefix code. -/
theorem unique (hsame : ∀ i < maxMsgData, a i = b i) (ha : Laid .little a p vs q)
    (hb : Laid .little b p ws q) : vs = ws := by
  induction vs generalizing p ws with
  | nil =>
      have hpq : p = q := ha
      cases ws with
      | nil => rfl
      | cons w ws => exact absurd hb.lt_of_cons (by omega)
  | cons v vs ih =>
      cases ws with
      | nil =>
          have hpq : p = q := hb
          exact absurd ha.lt_of_cons (by omega)
      | cons w ws =>
          have hva := ha.2.1
          have hwb := hb.2.1
          -- both encodings are inside the block, so the longer of them can be compared
          have hload : a.load p (max v.size w.size) = b.load p (max v.size w.size) :=
            Mem.load_eq_load_iff.mpr fun i hi => hsame (p + i) (by omega)
          rw [ha.load_head (Nat.le_max_left _ _), hb.load_head (Nat.le_max_right _ _)] at hload
          obtain ⟨rfl, -⟩ := Value.encode_append_inj (by omega) (by omega) hload
          rw [ih ha.2.2 hb.2.2]

end Laid

/-! ## The format is unambiguous -/

namespace PutRun

/-- Every call of the sequence succeeds on a fresh message, which ends up as `m`. -/
def Builds (host : ByteOrder) (hdr : MessageHeader) (vs : List Value) (m : Message) : Prop :=
  (fresh hdr).putAll host vs = some ⟨m, vs⟩

theorem Builds.laid {host : ByteOrder} {hdr : MessageHeader} {vs : List Value} {m : Message}
    (h : Builds host hdr vs m) :
    Laid host m.data (messageLengthOffset + 2) vs m.dataLength := by
  have hresult : result host hdr vs = ⟨m, vs⟩ := by
    rw [Builds, putAll_fresh, Option.some.injEq] at h
    exact h
  simpa only [hresult] using laid_result host hdr vs

theorem builds_of_admitted {host : ByteOrder} {hdr : MessageHeader} {vs : List Value}
    (h : admitted (messageLengthOffset + 2) vs = vs) :
    Builds host hdr vs (result host hdr vs).msg := by
  have haccepted : (result host hdr vs).accepted = vs := (result_accepted host hdr vs).trans h
  rw [Builds, putAll_fresh]
  exact congrArg some (congrArg (PutRun.mk (result host hdr vs).msg) haccepted)

/-- **The wire format is unambiguous.** Two sequences of calls, each successful throughout on its
own fresh message, that leave the same block and the same length are the same sequence. -/
theorem sameCalls {hdr hdr' : MessageHeader} {vs ws : List Value} {m m' : Message}
    (hvs : Builds .little hdr vs m) (hws : Builds .little hdr' ws m')
    (hdata : ∀ i < maxMsgData, m.data i = m'.data i) (hlength : m.dataLength = m'.dataLength) :
    vs = ws :=
  hvs.laid.unique hdata (hlength ▸ hws.laid)

/-- A string with a NUL in it between two scalars. -/
def sampleCalls : List Value :=
  [.scalar (.short (-2)), .string ⟨[0x61, 0, 0x62], by decide⟩, .scalar (.float 0x3F800000)]

/-- The calls that are made, and the calls that succeed, on two messages with other headers. -/
theorem sameCalls_sample :
    Builds .little default sampleCalls (result .little default sampleCalls).msg ∧
      Builds .little { (default : MessageHeader) with ttl := 7 }
        (admitted (messageLengthOffset + 2) sampleCalls)
        (result .little { (default : MessageHeader) with ttl := 7 } sampleCalls).msg ∧
      sampleCalls = admitted (messageLengthOffset + 2) sampleCalls := by
  have hadmitted : admitted (messageLengthOffset + 2) sampleCalls = sampleCalls := by decide
  have hbuilds : Builds .little default sampleCalls (result .little default sampleCalls).msg :=
    builds_of_admitted hadmitted
  have hbuilds' : Builds .little { (default : MessageHeader) with ttl := 7 }
      (admitted (messageLengthOffset + 2) sampleCalls)
      (result .little { (default : MessageHeader) with ttl := 7 } sampleCalls).msg := by
    rw [hadmitted]
    exact builds_of_admitted hadmitted
  exact ⟨hbuilds, hbuilds', sameCalls hbuilds hbuilds' (fun _ _ => rfl) rfl⟩

end PutRun

end Kcmsg
