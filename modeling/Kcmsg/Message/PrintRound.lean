import Kcmsg.Message.Print

/-!
# One round of the printout

Every case of the `switch` but those of the arrays has the same shape: set flags, call the getter
of the kind, write what it returned. `printWith` is that shape, with `valueLines` for what is
written, and `printElement_of_tag` says that a round at a tag of a getter is this and nothing
else. What a round does is then found out from what the getter does.
-/

namespace Kcmsg

/-- The element name of a kind. -/
def ScalarKind.elementName : ScalarKind → String
  | bool => "bool"
  | byte => "byte"
  | short => "short"
  | int => "int"
  | long => "long"
  | longLong => "long_long"
  | float => "float"
  | double => "double"
  | char => "char"
  | wchar => "wchar"
  | time => "time"
  | duration => "duration"

namespace Getter

/-- What a case does to the flags before it writes. -/
def manipulator : Getter → Ios → Ios
  | scalar .bool => Console.boolalpha
  | scalar .byte => Console.hex
  | scalar .float => Console.fixed3
  | _ => id

/-- The byte is a tag of the getter. -/
def HasTag (dt : UInt8) : Getter → Prop
  | scalar k => dt = k.tag
  | string => dt = dataTypeString1 ∨ dt = dataTypeString2
  | wstring => dt = dataTypeWString1 ∨ dt = dataTypeWString2

end Getter

namespace Console

/-- The text of a scalar in its element. -/
def scalarText (floats : FloatText) (ios : Ios) : ScalarValue → String
  | .bool val => ios.showBool val
  | .byte val => ios.showChar val.toUInt8
  | .short val => ios.showInt val.toBitVec
  | .int val => ios.showInt val.toBitVec
  | .long val => ios.showInt val.toBitVec
  | .longLong val => ios.showInt val.toBitVec
  | .float val => floats.float ios val
  | .double val => floats.double ios val
  | .char val => ios.showChar val
  | .wchar val => ios.showInt val
  | .time _ => ""
  | .duration val => ios.showUnsigned val.toBitVec

/-- The lines of a value; there are none for a time that is not in the calendar. -/
def valueLines (floats : FloatText) (ios : Ios) : Decoded → Option (List Output)
  | .scalar (.time t) => (gmtime t).map fun tm => (timeLines ios tm).map .cout
  | .scalar v => some [.cout (tagged 8 v.kind.elementName (scalarText floats ios v))]
  | .string chars =>
      some [.cout (tagged 8 "string" (String.ofList (chars.map fun b => Char.ofNat b.toNat)))]
  | .wstring chars => some [.wcout (wide "        <wstring>" ++ chars ++ wide "</wstring>")]

/-- The common shape of the cases. -/
def printWith (host : ByteOrder) (floats : FloatText) (heap : Heap) (g : Getter) :
    Program Console Unit := do
  manipulate g.manipulator
  let val ← onMessage (g.get host heap)
  let c ← Program.get
  let lines ← Program.orFault (valueLines floats c.ios val)
  Program.modify fun c => { c with out := c.out ++ lines }

section OnMessage

variable {α : Type} {x : Program Message α} {c : Console}

theorem run_onMessage_returns {a : α} {m' : Message} (h : x.run c.msg = .returns a m') :
    (onMessage x).run c = .returns a { c with msg := m' } := Program.run_zoom_returns h

theorem run_onMessage_aborts (h : x.run c.msg = .aborts) : (onMessage x).run c = .aborts :=
  Program.run_zoom_aborts h

theorem run_onMessage_faults (h : x.run c.msg = .faults) : (onMessage x).run c = .faults :=
  Program.run_zoom_faults h

end OnMessage

section Shape

variable {host : ByteOrder} {floats : FloatText} {heap : Heap} {g : Getter} {c : Console}

theorem run_printWith_returns {val : Decoded} {m' : Message} {lines : List Output}
    (h : (g.get host heap).run c.msg = .returns val m')
    (hlines : valueLines floats (g.manipulator c.ios) val = some lines) :
    (printWith host floats heap g).run c =
      .returns () ⟨m', g.manipulator c.ios, c.out ++ lines⟩ := by
  have hget := run_onMessage_returns (c := { c with ios := g.manipulator c.ios }) h
  unfold printWith manipulate
  rw [Program.run_bind_returns _ (Program.run_modify _ c), Program.run_bind_returns _ hget,
    Program.run_get_bind, hlines]
  rfl

theorem run_printWith_outside {val : Decoded} {m' : Message}
    (h : (g.get host heap).run c.msg = .returns val m')
    (hlines : valueLines floats (g.manipulator c.ios) val = none) :
    (printWith host floats heap g).run c = .faults := by
  have hget := run_onMessage_returns (c := { c with ios := g.manipulator c.ios }) h
  unfold printWith manipulate
  rw [Program.run_bind_returns _ (Program.run_modify _ c), Program.run_bind_returns _ hget,
    Program.run_get_bind, hlines]
  rfl

theorem run_printWith_aborts (h : (g.get host heap).run c.msg = .aborts) :
    (printWith host floats heap g).run c = .aborts := by
  have hget := run_onMessage_aborts (c := { c with ios := g.manipulator c.ios }) h
  unfold printWith manipulate
  rw [Program.run_bind_returns _ (Program.run_modify _ c)]
  exact Program.run_bind_aborts _ hget

theorem run_printWith_faults (h : (g.get host heap).run c.msg = .faults) :
    (printWith host floats heap g).run c = .faults := by
  have hget := run_onMessage_faults (c := { c with ios := g.manipulator c.ios }) h
  unfold printWith manipulate
  rw [Program.run_bind_returns _ (Program.run_modify _ c)]
  exact Program.run_bind_faults _ hget

end Shape

/-! ## The cases have that shape -/

/-- Making something else of a value first and then going on with it. -/
theorem onMessage_map {α β γ : Type} {x : Program Message α} {y : Program Message β} {f : α → β}
    (h : ∀ m, y.run m = (x.run m).map f) (next : β → Program Console γ) :
    (onMessage y >>= next) = (onMessage x >>= fun a => next (f a)) := by
  funext c
  show (onMessage y >>= next).run c = (onMessage x >>= fun a => next (f a)).run c
  have hc := h c.msg
  cases hx : x.run c.msg with
  | returns a m' =>
      rw [hx] at hc
      rw [Program.run_bind_returns _ (run_onMessage_returns hc),
        Program.run_bind_returns _ (run_onMessage_returns hx)]
  | throws what m' =>
      rw [hx] at hc
      have hy : (onMessage y).run c = .throws what { c with msg := m' } :=
        Program.run_zoom_throws hc
      have hx' : (onMessage x).run c = .throws what { c with msg := m' } :=
        Program.run_zoom_throws hx
      rw [Program.run_bind_throws _ hy, Program.run_bind_throws _ hx']
  | aborts =>
      rw [hx] at hc
      rw [Program.run_bind_aborts _ (run_onMessage_aborts hc),
        Program.run_bind_aborts _ (run_onMessage_aborts hx)]
  | faults =>
      rw [hx] at hc
      rw [Program.run_bind_faults _ (run_onMessage_faults hc),
        Program.run_bind_faults _ (run_onMessage_faults hx)]

section Cases

variable (host : ByteOrder) (floats : FloatText) (heap : Heap)

theorem element_eq_printWith {α : Type} {g : Getter} {name : String} {get : Program Message α}
    {text : Ios → α → String} {f : α → Decoded}
    (hget : ∀ m, (g.get host heap).run m = (get.run m).map f)
    (hlines : ∀ ios a, valueLines floats ios (f a) = some [.cout (tagged 8 name (text ios a))]) :
    element name g.manipulator get text = printWith host floats heap g := by
  unfold element printWith
  rw [onMessage_map hget]
  simp only [hlines]
  rfl

theorem printTime_eq_printWith :
    printTime = printWith host floats heap (.scalar .time) := by
  have hget : ∀ m, ((Getter.scalar .time).get host heap).run m =
      (Message.getTime.run m).map fun t => .scalar (.time t) :=
    Program.run_bind_pure_pure Message.getTime ScalarValue.time Decoded.scalar
  unfold printWith
  rw [onMessage_map hget]
  unfold printTime
  -- the flags stay as they are, and the times in the calendar are those with lines
  refine congrArg (fun rest => onMessage Message.getTime >>= rest) ?_
  funext t c
  show (Program.orFault (gmtime t) >>= _).run c = (Program.orFault _ >>= _).run c
  cases hgm : gmtime t with
  | some tm =>
      rw [valueLines, hgm]
      rfl
  | none =>
      rw [valueLines, hgm]
      rfl

/-- The case of a kind that is not a time, from its getter and the value it makes of the result. -/
theorem element_scalar_eq {α : Type} (k : ScalarKind) (get : Program Message α)
    (f : α → ScalarValue) (hk : k ≠ .time) (hkind : ∀ a, (f a).kind = k)
    (hget : k.get host = (get >>= fun a => pure (f a))) :
    element k.elementName (Getter.scalar k).manipulator get
      (fun ios a => scalarText floats ios (f a)) = printWith host floats heap (.scalar k) := by
  refine element_eq_printWith host floats heap (f := fun a => .scalar (f a)) (fun m => ?_)
    fun ios a => ?_
  · rw [Getter.get, hget]
    exact Program.run_bind_pure_pure get f Decoded.scalar m
  · rw [← hkind a] at hk ⊢
    cases hv : f a with
    | time t =>
        rw [hv] at hk
        exact absurd rfl hk
    | _ => rfl

theorem printScalar_eq (k : ScalarKind) :
    printScalar host floats k = printWith host floats heap (.scalar k) := by
  have hscalar {α : Type} (k : ScalarKind) (get : Program Message α) (f : α → ScalarValue) :=
    element_scalar_eq host floats heap k get f
  cases k with
  | bool => exact hscalar .bool Message.getBool .bool (by decide) (fun _ => rfl) rfl
  | byte => exact hscalar .byte Message.getByte .byte (by decide) (fun _ => rfl) rfl
  | short => exact hscalar .short Message.getShort .short (by decide) (fun _ => rfl) rfl
  | int => exact hscalar .int Message.getInt .int (by decide) (fun _ => rfl) rfl
  | long => exact hscalar .long Message.getLong .long (by decide) (fun _ => rfl) rfl
  | longLong => exact hscalar .longLong Message.getLongLong .longLong (by decide) (fun _ => rfl) rfl
  | float => exact hscalar .float (Message.getFloat host) .float (by decide) (fun _ => rfl) rfl
  | double => exact hscalar .double (Message.getDouble host) .double (by decide) (fun _ => rfl) rfl
  | char => exact hscalar .char Message.getChar .char (by decide) (fun _ => rfl) rfl
  | wchar => exact hscalar .wchar (Message.getWChar host) .wchar (by decide) (fun _ => rfl) rfl
  | time => exact printTime_eq_printWith host floats heap
  | duration => exact hscalar .duration Message.getDuration .duration (by decide) (fun _ => rfl) rfl

theorem printString_eq : printString heap = printWith host floats heap .string :=
  element_eq_printWith host floats heap (g := .string)
    (Program.run_bind_pure (Message.getString heap) Decoded.string) fun _ _ => rfl

theorem printWString_eq : printWString host heap = printWith host floats heap .wstring := by
  have hget : ∀ m, (Getter.wstring.get host heap).run m =
      ((Message.getWString heap host).run m).map .wstring :=
    Program.run_bind_pure (Message.getWString heap host) Decoded.wstring
  unfold printWith
  rw [onMessage_map hget]
  rfl

/-- The `switch` at a tag of a getter. -/
theorem switchCase_of_tag {g : Getter} {dt : UInt8} (h : g.HasTag dt) :
    switchCase host floats heap dt = printWith host floats heap g := by
  cases g with
  | scalar k =>
      cases h
      rw [← printScalar_eq]
      cases k <;> rfl
  | string =>
      rw [← printString_eq host floats]
      rcases h with rfl | rfl <;> rfl
  | wstring =>
      rw [← printWString_eq host floats]
      rcases h with rfl | rfl <;> rfl

/-- The arrays have no getter. -/
theorem switchCase_of_array {dt : UInt8} (h : dt ∈ arrayTypes) :
    switchCase host floats heap dt = pure () := by
  have hall : ∀ dt ∈ arrayTypes, switchCase host floats heap dt = pure () := by
    simp only [arrayTypes, List.forall_mem_cons]
    exact ⟨rfl, rfl, rfl, rfl, rfl, rfl, rfl, rfl, rfl, rfl, rfl, rfl, fun _ h => nomatch h⟩
  exact hall dt h

theorem switchCase_of_unknown {dt : UInt8} (hget : ∀ g : Getter, ¬ g.HasTag dt)
    (harray : dt ∉ arrayTypes) :
    switchCase host floats heap dt = Program.throw "Unknown Data Type;" := by
  have hscalar (k : ScalarKind) : dt ≠ k.tag := hget (.scalar k)
  have hstring : ¬ (dt = dataTypeString1 ∨ dt = dataTypeString2) := hget .string
  have hwstring : ¬ (dt = dataTypeWString1 ∨ dt = dataTypeWString2) := hget .wstring
  unfold switchCase
  rw [if_neg (show dt ≠ dataTypeBool from hscalar .bool),
    if_neg (show dt ≠ dataTypeByte from hscalar .byte),
    if_neg (show dt ≠ dataTypeShort from hscalar .short),
    if_neg (show dt ≠ dataTypeInt from hscalar .int),
    if_neg (show dt ≠ dataTypeLong from hscalar .long),
    if_neg (show dt ≠ dataTypeLongLong from hscalar .longLong),
    if_neg (show dt ≠ dataTypeFloat from hscalar .float),
    if_neg (show dt ≠ dataTypeDouble from hscalar .double),
    if_neg (show dt ≠ dataTypeChar from hscalar .char),
    if_neg (show dt ≠ dataTypeWChar from hscalar .wchar), if_neg hstring, if_neg hwstring,
    if_neg (show dt ≠ dataTypeTime from hscalar .time),
    if_neg (show dt ≠ dataTypeDuration from hscalar .duration), if_neg harray]

end Cases

/-! ## A round -/

section Round

variable {host : ByteOrder} {floats : FloatText} {heap : Heap} {c : Console}

/-- While there is something to read there is a byte to look at. -/
theorem run_getDataType_onMessage (h : c.msg.offset + 1 ≤ maxMsgData) :
    (onMessage Message.getDataType).run c = .returns (c.msg.data c.msg.offset) c :=
  run_onMessage_returns (Message.run_getDataType h rfl)

theorem run_printElement (h : c.msg.offset + 1 ≤ maxMsgData) :
    (printElement host floats heap).run c =
      (switchCase host floats heap (c.msg.data c.msg.offset)).run c := by
  unfold printElement
  rw [Program.run_bind_returns _ (run_getDataType_onMessage h)]

theorem printElement_of_tag {g : Getter} (h : c.msg.offset + 1 ≤ maxMsgData)
    (htag : g.HasTag (c.msg.data c.msg.offset)) :
    (printElement host floats heap).run c = (printWith host floats heap g).run c := by
  rw [run_printElement h, switchCase_of_tag host floats heap htag]

theorem printElement_of_array (h : c.msg.offset + 1 ≤ maxMsgData)
    (harray : c.msg.data c.msg.offset ∈ arrayTypes) :
    (printElement host floats heap).run c = .returns () c := by
  rw [run_printElement h, switchCase_of_array host floats heap harray]
  rfl

theorem printElement_of_unknown (h : c.msg.offset + 1 ≤ maxMsgData)
    (hget : ∀ g : Getter, ¬ g.HasTag (c.msg.data c.msg.offset))
    (harray : c.msg.data c.msg.offset ∉ arrayTypes) :
    (printElement host floats heap).run c = .throws "Unknown Data Type;" c := by
  rw [run_printElement h, switchCase_of_unknown host floats heap hget harray]
  rfl

end Round

end Console

end Kcmsg
