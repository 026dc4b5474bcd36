import Kcmsg.Message.LongValues
import Kcmsg.Message.PrintEnds
import Kcmsg.Message.Stale
import Mathlib.Data.List.Forall2

/-!
# What the printout sees of a sequence of puts

The loop of `debugMessagePrint` is told nothing about the puts that made the message: it finds the
next element where the getter of the last one has left the cursor, and its kind by the tag that
stands there. So it sees what was put as long as every getter consumes what its put has produced.

`Value.Printable` is when it does, and the value is one that can be printed. It is the condition of
a round (`round_of_printable`, `printable_of_round`), and the printout of a sequence of puts is
in order exactly if it holds of each of them (`seesPuts_iff`).
-/

namespace Kcmsg

/-- The element name of a put. -/
def Value.elementName : Value → String
  | scalar v => v.kind.elementName
  | string _ => "string"
  | wstring _ => "wstring"

/-- An element as it is printed: on one line of `std::cout`, with the members of a structure on
lines of their own, or on a line of `std::wcout`. -/
inductive IsElement (name : String) : List Output → Prop
  | line (text : String) : IsElement name [.cout (tagged 8 name text)]
  | members (fields : List (String × String)) : IsElement name
      ((["        <" ++ name ++ ">"] ++ fields.map (fun f => tagged 12 f.1 f.2) ++
        ["        </" ++ name ++ ">"]).map .cout)
  | wideLine (chars : List (BitVec 32)) : IsElement name
      [.wcout (wide ("        <" ++ name ++ ">") ++ chars ++ wide ("</" ++ name ++ ">"))]

/-- The value is one `gmtime` can represent, if it is a time. -/
def ScalarValue.InCalendar : ScalarValue → Prop
  | time t => (gmtime t).isSome
  | _ => True

/-- What a put of the value writes, the getter of its kind consumes, and the value it makes of it
can be printed. -/
def Value.Printable (host : ByteOrder) (heap : Heap) : Value → Prop
  | scalar v => v.kind ≠ .long ∧ v.InCalendar
  | string s => Countable host s.chars.length ∧ (heap (s.chars.length + 1)).isSome
  | wstring w => w.chars.length ≤ 127 ∧ ∃ bytes, heap ((w.chars.length + 1) * 4) = some bytes ∧
      0 ∈ w.chars ++ wideChars host (Message.behindWide bytes.val w.chars.length)

/-- The bytes that puts of the values advance the length by. -/
def extent (vs : List Value) : Nat := (vs.map fun v => v.size + v.gap).sum

theorem extent_concat (vs : List Value) (v : Value) :
    extent (vs ++ [v]) = extent vs + v.size + v.gap := by
  rw [extent, extent, List.map_append, List.sum_append, List.map_singleton, List.sum_singleton,
    Nat.add_assoc]

/-- The rest of a layout is a layout. -/
theorem Laid.suffix {host : ByteOrder} {data : Mem} {p q : Nat} {before after : List Value}
    (h : Laid host data p (before ++ after) q) : Laid host data (p + extent before) after q := by
  induction before generalizing p with
  | nil => exact h
  | cons v vs ih =>
      have hrest := ih h.2.2
      have hextent : extent (v :: vs) = v.size + v.gap + extent vs := by
        rw [extent, List.map_cons, List.sum_cons, extent]
      rwa [hextent, ← Nat.add_assoc, ← Nat.add_assoc]

/-- Puts do not move the cursor. -/
theorem PutRun.Builds.offset {host : ByteOrder} {hdr : MessageHeader} {vs : List Value}
    {m : Message} (h : Builds host hdr vs m) : m.offset = messageLengthOffset + 2 := by
  have hresult : result host hdr vs = ⟨m, vs⟩ := by
    rw [Builds, putAll_fresh, Option.some.injEq] at h
    exact h
  have hoffset : (result host hdr vs).msg.offset = messageLengthOffset + 2 :=
    result_preserves (P := fun r => r.msg.offset = messageLengthOffset + 2) rfl
      (fun _ _ h _ => h) vs
  rwa [hresult] at hoffset

theorem Value.getter_hasTag (v : Value) : v.getter.HasTag v.tag := by
  cases v with
  | scalar v => exact rfl
  | string s =>
      rw [Value.tag]
      split
      · exact .inr rfl
      · exact .inl rfl
  | wstring w =>
      rw [Value.tag]
      split
      · exact .inr rfl
      · exact .inl rfl

namespace Console

/-! ## The lines of a value -/

theorem timeLines_eq (ios : Ios) (tm : Tm) : ∃ fields : List (String × String),
    timeLines ios tm = ["        <" ++ "time" ++ ">"] ++
      fields.map (fun f => tagged 12 f.1 f.2) ++ ["        </" ++ "time" ++ ">"] :=
  ⟨[("seconds", _), ("minutes", _), ("hours", _), ("day_of_month", _), ("month", _),
    ("day_of_week", _), ("day_of_year", _), ("year", _), ("time_zone", _), ("is_dst", _)], rfl⟩

/-- A scalar that is in the calendar is one element. -/
theorem exists_isElement (floats : FloatText) (ios : Ios) {v : ScalarValue} (hv : v.InCalendar) :
    ∃ lines, valueLines floats ios (.scalar v) = some lines ∧
      IsElement v.kind.elementName lines := by
  cases v with
  | time t =>
      obtain ⟨tm, htm⟩ := Option.isSome_iff_exists.mp hv
      obtain ⟨fields, hfields⟩ := timeLines_eq ios tm
      refine ⟨(timeLines ios tm).map .cout, by rw [valueLines, htm, Option.map_some], ?_⟩
      rw [hfields]
      exact .members fields
  | _ => exact ⟨_, rfl, .line _⟩

theorem inCalendar_of_valueLines {floats : FloatText} {ios : Ios} {v : ScalarValue}
    {lines : List Output} (h : valueLines floats ios (.scalar v) = some lines) :
    v.InCalendar := by
  cases v with
  | time t =>
      obtain ⟨tm, htm, -⟩ := Option.map_eq_some_iff.mp h
      exact Option.isSome_of_eq_some htm
  | _ => exact trivial

/-! ## A round at a put -/

section Round

variable {host : ByteOrder} {floats : FloatText} {heap : Heap} {c c' : Console} {v : Value}

theorem onMessage_returned {α : Type} {x : Program Message α} {a : α}
    (h : (onMessage x).run c = .returns a c') :
    ∃ m', x.run c.msg = .returns a m' ∧ c' = { c with msg := m' } := by
  cases hx : x.run c.msg with
  | returns b m' =>
      rw [run_onMessage_returns hx] at h
      cases h
      exact ⟨m', rfl, rfl⟩
  | throws what m' =>
      have hthrows : (onMessage x).run c = .throws what { c with msg := m' } :=
        Program.run_zoom_throws hx
      exact absurd (hthrows.symm.trans h) nofun
  | aborts => exact absurd ((run_onMessage_aborts hx).symm.trans h) nofun
  | faults => exact absurd ((run_onMessage_faults hx).symm.trans h) nofun

/-- What a case that has returned has printed, and where it has left the message. -/
theorem printWith_returned {g : Getter}
    (h : (printWith host floats heap g).run c = .returns () c') :
    ∃ val lines, (g.get host heap).run c.msg = .returns val c'.msg ∧
      valueLines floats (g.manipulator c.ios) val = some lines := by
  unfold printWith manipulate at h
  rw [Program.run_bind_returns _ (Program.run_modify _ c)] at h
  obtain ⟨val, c₁, hget, h⟩ := Program.exists_of_bind_returns h
  obtain ⟨m', hm', rfl⟩ := onMessage_returned hget
  rw [Program.run_get_bind] at h
  obtain ⟨lines, c₂, hlines, h⟩ := Program.exists_of_bind_returns h
  cases hval : valueLines floats (g.manipulator c.ios) val with
  | none =>
      rw [hval] at hlines
      cases hlines
  | some lines' =>
      rw [hval] at hlines
      cases hlines
      cases h
      exact ⟨val, lines, hm', hval⟩

theorem printElement_of_put (hload : c.msg.data.load c.msg.offset v.size = v.encode host)
    (hroom : c.msg.offset + v.size ≤ maxMsgData) :
    (printElement host floats heap).run c = (printWith host floats heap v.getter).run c := by
  have hpos := v.size_pos
  apply printElement_of_tag (by omega)
  rw [(Value.parts hload).1]
  exact v.getter_hasTag

/-- A scalar that its getter understands and that has lines. -/
theorem round_of_scalar (floats : FloatText) (heap : Heap) {v : ScalarValue}
    {lines : List Output}
    (hload : c.msg.data.load c.msg.offset (Value.scalar v).size = (Value.scalar v).encode host)
    (hroom : c.msg.offset + (Value.scalar v).size ≤ maxMsgData) (hlong : v.kind ≠ .long)
    (hlines : valueLines floats ((Getter.scalar v.kind).manipulator c.ios) (.scalar v) =
      some lines) :
    (printElement host floats heap).run c =
      .returns () ⟨{ c.msg with offset := c.msg.offset + (Value.scalar v).size },
        (Getter.scalar v.kind).manipulator c.ios, c.out ++ lines⟩ := by
  have hget : ((Getter.scalar v.kind).get host heap).run c.msg = _ :=
    Program.run_bind_returns _ (ScalarValue.run_get hlong hload hroom).2
  rw [printElement_of_put (v := .scalar v) hload hroom]
  exact run_printWith_returns hget hlines

/-- **A printable value is printed**, as one element, and the cursor is left behind it. -/
theorem round_of_printable (floats : FloatText)
    (hload : c.msg.data.load c.msg.offset v.size = v.encode host)
    (hroom : c.msg.offset + v.size ≤ maxMsgData) (hv : v.Printable host heap) :
    ∃ ios lines, IsElement v.elementName lines ∧ (printElement host floats heap).run c =
      .returns () ⟨{ c.msg with offset := c.msg.offset + v.size + v.gap }, ios,
        c.out ++ lines⟩ := by
  cases v with
  | scalar v =>
      obtain ⟨hlong, hcalendar⟩ := hv
      obtain ⟨lines, hlines, helement⟩ :=
        exists_isElement floats ((Getter.scalar v.kind).manipulator c.ios) hcalendar
      exact ⟨_, lines, helement, round_of_scalar floats heap hload hroom hlong hlines⟩
  | string s =>
      obtain ⟨hcount, hheap⟩ := hv
      have hget := run_get_string host heap c.msg
      have hfits := (Message.fieldFits_string_iff hload hroom).mpr hcount
      rw [Message.run_getString hfits hheap, Outcome.map, Message.string_end hload] at hget
      rw [printElement_of_put hload hroom, Value.gap_of_not_isLongWide id]
      exact ⟨_, _, .line _, run_printWith_returns hget rfl⟩
  | wstring w =>
      obtain ⟨hshort, bytes, hheap, hzero⟩ := hv
      have hget := run_get_wstring host heap c.msg
      have hfits := (Message.fieldFits_wstring_iff hload hroom).mpr ⟨rfl, .inl hshort⟩
      have hlong : ¬ (Value.wstring w).IsLongWide := by
        show ¬ 255 < w.chars.length
        omega
      have hstop := untilStop_of_mem hzero []
      rw [List.append_nil] at hstop
      rw [Message.run_getWString hfits hheap, Message.wideChars_payload hload hfits, hstop,
        Message.wstring_end hload] at hget
      rw [printElement_of_put hload hroom, Value.gap_of_not_isLongWide hlong]
      exact ⟨_, _, .wideLine _, run_printWith_returns hget rfl⟩

/-- `getLong` stops two bytes before the end of the value. -/
theorem ne_long_of_get {v : ScalarValue} {val : Decoded} {m m' : Message}
    (hload : m.data.load m.offset (Value.scalar v).size = (Value.scalar v).encode host)
    (hroom : m.offset + (Value.scalar v).size ≤ maxMsgData)
    (hget : ((Getter.scalar v.kind).get host heap).run m = .returns val m')
    (hoffset : m'.offset = m.offset + (Value.scalar v).size + (Value.scalar v).gap) :
    v.kind ≠ .long := by
  intro hlong
  cases v with
  | long i =>
      have hthree : ((Getter.scalar .long).get host heap).run m = _ :=
        Program.run_bind_returns _
          (Program.run_bind_returns _ (Message.run_getLong_of_put hload hroom))
      obtain ⟨-, rfl⟩ := Outcome.returns.inj (hthree.symm.trans hget)
      exact absurd hoffset (show m.offset + 3 ≠ m.offset + 5 + 0 by omega)
  | _ => cases hlong

theorem printable_of_getString {s : StdString} {chars : List UInt8} {m m' : Message}
    (hload : m.data.load m.offset (Value.string s).size = (Value.string s).encode host)
    (hroom : m.offset + (Value.string s).size ≤ maxMsgData)
    (hget : (Message.getString heap).run m = .returns chars m')
    (hoffset : m'.offset = m.offset + (Value.string s).size + (Value.string s).gap) :
    (Value.string s).Printable host heap := by
  obtain ⟨n, hfits, hheap, -, rfl⟩ := Message.getString_returned hget
  have hcursor : m.payloadStart .string + n =
      m.offset + (Value.string s).size + (Value.string s).gap := hoffset
  have hend := Message.string_end hload
  rw [Value.gap_of_not_isLongWide id] at hcursor
  obtain rfl : n = s.chars.length := by omega
  exact ⟨(Message.fieldFits_string_iff hload hroom).mp hfits, hheap⟩

theorem printable_of_getWString {w : StdWString} {chars : List (BitVec 32)} {m m' : Message}
    (hload : m.data.load m.offset (Value.wstring w).size = (Value.wstring w).encode host)
    (hroom : m.offset + (Value.wstring w).size ≤ maxMsgData)
    (hget : (Message.getWString heap host).run m = .returns chars m')
    (hoffset : m'.offset = m.offset + (Value.wstring w).size + (Value.wstring w).gap) :
    (Value.wstring w).Printable host heap := by
  obtain ⟨n, bytes, hfits, hheap, hstop, rfl⟩ := Message.getWString_returned hget
  obtain ⟨rfl, hlength⟩ := (Message.fieldFits_wstring_iff hload hroom).mp hfits
  have hcursor : m.payloadStart .wstring + w.chars.length * 4 =
      m.offset + (Value.wstring w).size + (Value.wstring w).gap := hoffset
  have hend := Message.wstring_end hload
  -- a wide string of more than 255 characters is followed by a gap
  have hshort : w.chars.length ≤ 127 := by
    refine hlength.resolve_right fun hlong => ?_
    rw [Value.gap_of_isLongWide (v := .wstring w) (show 255 < w.chars.length by omega),
      Value.payloadWidth] at hcursor
    omega
  rw [Message.wideChars_payload hload hfits] at hstop
  refine ⟨hshort, bytes, hheap, ?_⟩
  by_contra hzero
  rw [untilStop_eq_none_iff.mpr hzero] at hstop
  cases hstop

/-- And conversely: where the cursor is left behind the value, it was printable. -/
theorem printable_of_round (hload : c.msg.data.load c.msg.offset v.size = v.encode host)
    (hroom : c.msg.offset + v.size ≤ maxMsgData)
    (hrun : (printElement host floats heap).run c = .returns () c')
    (hoffset : c'.msg.offset = c.msg.offset + v.size + v.gap) : v.Printable host heap := by
  rw [printElement_of_put hload hroom] at hrun
  obtain ⟨val, lines, hget, hlines⟩ := printWith_returned hrun
  cases v with
  | scalar v =>
      have hlong := ne_long_of_get hload hroom hget hoffset
      have hvalue : ((Getter.scalar v.kind).get host heap).run c.msg = _ :=
        Program.run_bind_returns _ (ScalarValue.run_get hlong hload hroom).2
      obtain ⟨rfl, -⟩ := Outcome.returns.inj (hvalue.symm.trans hget)
      exact ⟨hlong, inCalendar_of_valueLines hlines⟩
  | string s =>
      obtain ⟨chars, m', hstring, hpure⟩ := Program.exists_of_bind_returns hget
      cases hpure
      exact printable_of_getString hload hroom hstring hoffset
  | wstring w =>
      obtain ⟨chars, m', hwide, hpure⟩ := Program.exists_of_bind_returns hget
      cases hpure
      exact printable_of_getWString hload hroom hwide hoffset

end Round

/-! ## The printout of a sequence of puts -/

section Call

variable (host : ByteOrder) (floats : FloatText) (heaps : Nat → Heap) (c : Console)

/-- The printout of a message that the values have been put on: the call returns, with all of the
message read, and has printed one element for each value, in order and under its name; and each
element begins where the bytes of its put begin. -/
structure SeesPuts (vs : List Value) : Prop where
  printed : ∃ fuel c' elements, debugMessagePrint host floats heaps fuel c = some (.returns () c') ∧
    List.Forall₂ (fun v lines => IsElement v.elementName lines) vs elements ∧
    c'.out = c.out ++ (headerLines c.ios c.msg).map .cout ++ elements.flatten ++
      ["    </data>", "</message>"].map .cout ∧
    c'.msg.offset = c'.msg.dataLength
  aligned : ∀ before after, vs = before ++ after →
    ∃ s, Reaches host floats heaps c before.length s ∧
      s.msg.offset = messageLengthOffset + 2 + extent before

end Call

section Run

variable {host : ByteOrder} {floats : FloatText} {heaps : Nat → Heap} {c : Console}
  {hdr : MessageHeader} {vs : List Value}

/-- The element that stands where the loop has come to. -/
theorem stands_of_builds (hbuilds : PutRun.Builds host hdr vs c.msg) {before after : List Value}
    {v : Value} (hvs : vs = before ++ v :: after) {s : Console} (hsame : c.msg.SameContents s.msg)
    (hoffset : s.msg.offset = messageLengthOffset + 2 + extent before) :
    s.msg.data.load s.msg.offset v.size = v.encode host ∧
      s.msg.offset + v.size ≤ maxMsgData ∧ unread s = true := by
  have hlaid := hbuilds.laid
  rw [hvs] at hlaid
  have hrest := hlaid.suffix
  rw [← hoffset, ← hsame.data, ← hsame.dataLength] at hrest
  exact ⟨hrest.1, hrest.2.1, unread_iff.mpr hrest.lt_of_cons⟩

/-- The run lemma: printable values are printed one after the other. By induction on the values
already seen, from the last one. -/
theorem reaches_of_printable (floats : FloatText) (hbuilds : PutRun.Builds host hdr vs c.msg)
    (hvs : ∀ before v after, vs = before ++ v :: after →
      v.Printable host (heaps before.length)) (before : List Value) :
    ∀ after, vs = before ++ after → ∃ s elements, Reaches host floats heaps c before.length s ∧
      s.msg.offset = messageLengthOffset + 2 + extent before ∧
      List.Forall₂ (fun v lines => IsElement v.elementName lines) before elements ∧
      s.out = (printHeader c).out ++ elements.flatten := by
  induction before using List.reverseRecOn with
  | nil =>
      intro after _
      refine ⟨printHeader c, [], .start, hbuilds.offset, .nil, ?_⟩
      rw [List.flatten_nil, List.append_nil]
  | append_singleton before v ih =>
      intro after hafter
      rw [List.append_assoc, List.singleton_append] at hafter
      obtain ⟨s, elements, hs, hoffset, helements, hout⟩ := ih (v :: after) hafter
      obtain ⟨hload, hroom, ht⟩ := stands_of_builds hbuilds hafter hs.sameContents hoffset
      obtain ⟨ios, lines, helement, hrun⟩ := round_of_printable floats hload hroom
        (hvs before v after hafter)
      have hlength : (before ++ [v]).length = before.length + 1 := by
        rw [List.length_append, List.length_singleton]
      have hnext : Reaches host floats heaps c (before.length + 1) _ := hs.next ht hrun
      rw [← hlength] at hnext
      refine ⟨_, elements ++ [lines], hnext, ?_, ?_, ?_⟩
      · show s.msg.offset + v.size + v.gap = _
        rw [hoffset, extent_concat]
        omega
      · exact List.rel_append helements (.cons helement .nil)
      · show s.out ++ lines = _
        rw [hout, List.flatten_append, List.flatten_singleton, List.append_assoc]

theorem seesPuts_of_printable (hbuilds : PutRun.Builds host hdr vs c.msg)
    (hvs : ∀ before v after, vs = before ++ v :: after →
      v.Printable host (heaps before.length)) : SeesPuts host floats heaps c vs := by
  have hreaches := reaches_of_printable floats hbuilds hvs
  constructor
  · obtain ⟨s, elements, hs, hoffset, helements, hout⟩ := hreaches vs [] (List.append_nil vs).symm
    have hend : s.msg.offset = s.msg.dataLength := by
      have hlaid := hbuilds.laid
      rw [← List.append_nil vs] at hlaid
      have hall : messageLengthOffset + 2 + extent vs = c.msg.dataLength := hlaid.suffix
      rw [hoffset, hs.sameContents.dataLength, hall]
    have hstop : unread s = false := by
      rw [Bool.eq_false_iff]
      intro ht
      have hlt := unread_iff.mp ht
      omega
    refine ⟨0 + 1 + vs.length, printFooter s, elements, ?_, helements, ?_, hend⟩
    · unfold debugMessagePrint loop
      rw [Rounds.whileLoop_eq hs, whileLoop_stop hstop, Option.map_some]
    · show s.out ++ _ = _
      rw [hout]
      rfl
  · intro before after hafter
    obtain ⟨s, -, hs, hoffset, -, -⟩ := hreaches before after hafter
    exact ⟨s, hs, hoffset⟩

theorem printable_of_seesPuts (hbuilds : PutRun.Builds host hdr vs c.msg)
    (hsees : SeesPuts host floats heaps c vs) {before after : List Value} {v : Value}
    (hvs : vs = before ++ v :: after) : v.Printable host (heaps before.length) := by
  obtain ⟨s, hs, hoffset⟩ := hsees.aligned before (v :: after) hvs
  obtain ⟨s', hs', hoffset'⟩ := hsees.aligned (before ++ [v]) after
    (by rw [hvs, List.append_assoc, List.singleton_append])
  obtain ⟨hload, hroom, -⟩ := stands_of_builds hbuilds hvs hs.sameContents hoffset
  rw [List.length_append, List.length_singleton] at hs'
  cases hs' with
  | next hs₀ ht hrun =>
      obtain rfl := Rounds.unique hs₀ hs
      refine printable_of_round hload hroom hrun ?_
      rw [hoffset', hoffset, extent_concat]
      omega

/-- **The printout sees what was put exactly if every value is printable**, with the heap as the
round of its element finds it. -/
theorem seesPuts_iff (hbuilds : PutRun.Builds host hdr vs c.msg) :
    SeesPuts host floats heaps c vs ↔ ∀ before v after, vs = before ++ v :: after →
      v.Printable host (heaps before.length) :=
  ⟨fun hsees _ _ _ hvs => printable_of_seesPuts hbuilds hsees hvs,
    seesPuts_of_printable hbuilds⟩

end Run

/-- A message that is printed first. -/
def consoleOf (m : Message) : Console := ⟨m, .init, []⟩

/-- A string with a NUL in it between two scalars. -/
theorem seesPuts_sample :
    PutRun.Builds .little default PutRun.sampleCalls
        (PutRun.result .little default PutRun.sampleCalls).msg ∧
      SeesPuts .little noFloats (fun _ => zeroHeap)
        (consoleOf (PutRun.result .little default PutRun.sampleCalls).msg) PutRun.sampleCalls := by
  have hbuilds : PutRun.Builds .little default PutRun.sampleCalls
      (consoleOf (PutRun.result .little default PutRun.sampleCalls).msg).msg :=
    PutRun.builds_of_admitted (by decide)
  refine ⟨hbuilds, (seesPuts_iff hbuilds).mpr fun before v after hvs => ?_⟩
  have hv : v ∈ PutRun.sampleCalls := by
    rw [hvs]
    exact List.mem_append_right before List.mem_cons_self
  simp only [PutRun.sampleCalls, List.mem_cons, List.not_mem_nil, or_false] at hv
  rcases hv with rfl | rfl | rfl
  · exact ⟨by decide, trivial⟩
  · exact ⟨by decide, rfl⟩
  · exact ⟨by decide, trivial⟩

/-- A long is not seen: what is left of it is taken for a tag. -/
theorem not_seesPuts_long :
    PutRun.Builds .little default [.scalar (.long 0)]
        (PutRun.result .little default [.scalar (.long 0)]).msg ∧
      (debugMessagePrint .little noFloats (fun _ => zeroHeap) 2
        (consoleOf (PutRun.result .little default [.scalar (.long 0)]).msg)).bind
          Outcome.exception = some "Unknown Data Type;" ∧
      ¬ SeesPuts .little noFloats (fun _ => zeroHeap)
        (consoleOf (PutRun.result .little default [.scalar (.long 0)]).msg)
        [.scalar (.long 0)] := by
  have hbuilds : PutRun.Builds .little default [.scalar (.long 0)]
      (consoleOf (PutRun.result .little default [.scalar (.long 0)]).msg).msg :=
    PutRun.builds_of_admitted (by decide)
  refine ⟨hbuilds, ?_, fun hsees => ?_⟩
  · decide +kernel
  · have hvs : [Value.scalar (.long 0)] = [] ++ .scalar (.long 0) :: [] := rfl
    have hlong := printable_of_seesPuts hbuilds hsees hvs
    exact hlong.1 rfl

end Console

end Kcmsg
