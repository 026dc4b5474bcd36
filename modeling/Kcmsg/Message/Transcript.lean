import Kcmsg.Library.Codes
import Kcmsg.Message.Letters
import Kcmsg.Message.PrintFlags

/-!
# What can be read off a printout

Two programs that print messages made by puts of plain kinds, on the same `std::cout`, have the
same text there only if they have printed the same: as many messages, with the same headers and the
same unread values (`coutText_eq_iff`). The flags may make numbers hexadecimal, but they are the
same for both as long as what has been printed is the same, and neither form of a number stands for
two.

It is the characters that count here, and not the lines. The text of a number has no `<` in it, so
it ends where the closing tag begins, and that of a character is one character long, whatever it
is. A string has neither property, and is not plain.
-/

namespace Kcmsg

/-- The characters on `std::cout`. -/
def coutText (out : List Output) : List Char :=
  out.flatMap fun
    | .cout line => line.toList ++ ['\n']
    | .wcout _ => []

/-- What a call of `debugMessagePrint` has to print. -/
def PrintCall.contents {host : ByteOrder} (p : PrintCall host) : HeaderView × List ScalarValue :=
  (p.msg.headerView, p.unread)

namespace Transcript

def lineText (line : String) : List Char := line.toList ++ ['\n']

theorem coutText_cout (lines : List String) :
    coutText (lines.map .cout) = lines.flatMap lineText := by
  rw [coutText, List.flatMap_map]
  rfl

theorem coutText_append (out out' : List Output) :
    coutText (out ++ out') = coutText out ++ coutText out' := List.flatMap_append

/-! ## A tag and a text -/

/-- What comes behind the text. -/
def closing (name : String) : List Char := '/' :: name.toList ++ ['>', '\n']

theorem lineText_tagged (name text : String) (s : List Char) :
    lineText (tagged 8 name text) ++ s =
      List.replicate 8 ' ' ++ '<' :: (name.toList ++ '>' ::
        (text.toList ++ '<' :: (closing name ++ s))) := by
  simp [lineText, tagged, closing, String.toList_append]

variable {name name' text text' : String} {s t : List Char}

/-- The name of a tag ends where the tag does. -/
theorem tagged_name_inj (hname : '>' ∉ name.toList) (hname' : '>' ∉ name'.toList)
    (h : lineText (tagged 8 name text) ++ s = lineText (tagged 8 name' text') ++ t) :
    name = name' ∧ text.toList ++ '<' :: (closing name ++ s) =
      text'.toList ++ '<' :: (closing name' ++ t) := by
  rw [lineText_tagged, lineText_tagged] at h
  have htag := (List.cons.inj (List.append_cancel_left h)).2
  obtain ⟨hsame, hrest⟩ := append_cons_inj hname hname' htag
  exact ⟨String.toList_inj.mp hsame, hrest⟩

/-- A text without `<` ends where the closing tag begins. -/
theorem tagged_text_inj (htext : '<' ∉ text.toList) (htext' : '<' ∉ text'.toList)
    (h : text.toList ++ '<' :: (closing name ++ s) = text'.toList ++ '<' :: (closing name ++ t)) :
    text = text' ∧ s = t := by
  obtain ⟨hsame, hrest⟩ := append_cons_inj htext htext' h
  exact ⟨String.toList_inj.mp hsame, List.append_cancel_left hrest⟩

/-- Both, under one name. -/
theorem tagged_inj (htext : '<' ∉ text.toList) (htext' : '<' ∉ text'.toList)
    (h : lineText (tagged 8 name text) ++ s = lineText (tagged 8 name text') ++ t) :
    text = text' ∧ s = t := by
  rw [lineText_tagged, lineText_tagged] at h
  have hname := (List.cons.inj (List.append_cancel_left h)).2
  exact tagged_text_inj htext htext' (List.cons.inj (List.append_cancel_left hname)).2

/-- A character is one of 256. -/
theorem ofNat_toNat_inj {a b : UInt8} (h : Char.ofNat a.toNat = Char.ofNat b.toNat) : a = b := by
  have htoNat (c : UInt8) : (Char.ofNat c.toNat).toNat = c.toNat := by
    have hlt := c.toNat_lt
    rw [Char.ofNat, dif_pos (Or.inl (by omega))]
    rfl
  have hnat := congrArg Char.toNat h
  rw [htoNat, htoNat] at hnat
  exact UInt8.toNat_inj.mp hnat

/-- The text of a character ends behind it. -/
theorem char_inj (ios : Ios) {a b : UInt8}
    (h : (ios.showChar a).toList ++ '<' :: (closing name ++ s) =
      (ios.showChar b).toList ++ '<' :: (closing name ++ t)) : a = b ∧ s = t := by
  rw [Ios.showChar, Ios.showChar, String.toList_singleton, String.toList_singleton] at h
  obtain ⟨hsame, hrest⟩ := List.cons.inj h
  exact ⟨ofNat_toNat_inj hsame, List.append_cancel_left (List.cons.inj hrest).2⟩

/-! ## Texts of values -/

theorem lt_ne_digitChar : ∀ d < 16, '<' ≠ d.digitChar := by decide

theorem notMem_showInt (ios : Ios) {w : Nat} (val : BitVec w) : '<' ∉ (ios.showInt val).toList := by
  unfold Ios.showInt
  split
  · exact notMem_hexadecimal lt_ne_digitChar val
  · exact notMem_decimal lt_ne_digitChar (by decide) _

theorem notMem_showUnsigned (ios : Ios) {w : Nat} (val : BitVec w) :
    '<' ∉ (ios.showUnsigned val).toList := by
  unfold Ios.showUnsigned
  split
  · exact notMem_hexadecimal lt_ne_digitChar val
  · exact notMem_decimal lt_ne_digitChar (by decide) _

theorem notMem_showBool (ios : Ios) (val : Bool) : '<' ∉ (ios.showBool val).toList := by
  unfold Ios.showBool
  split <;> cases val <;> decide

/-- In whatever form they are written, two words have different texts. -/
theorem showInt_inj {ios : Ios} {w : Nat} {a b : BitVec w} (h : ios.showInt a = ios.showInt b) :
    a = b := by
  unfold Ios.showInt at h
  split at h
  · exact hexadecimal_inj h
  · exact BitVec.toInt_inj.mp (decimal_inj h)

theorem showUnsigned_inj {ios : Ios} {w : Nat} {a b : BitVec w}
    (h : ios.showUnsigned a = ios.showUnsigned b) : a = b := by
  unfold Ios.showUnsigned at h
  split at h
  · exact hexadecimal_inj h
  · exact BitVec.eq_of_toNat_eq (Int.ofNat_inj.mp (decimal_inj h))

theorem showBool_inj {ios : Ios} {a b : Bool} (h : ios.showBool a = ios.showBool b) : a = b := by
  unfold Ios.showBool at h
  cases a <;> cases b <;> first | rfl | (split at h <;> exact absurd h (by decide))

variable {ios : Ios}

/-- The text of a number ends where the closing tag begins, and has one number. -/
theorem int_inj {w : Nat} {a b : BitVec w}
    (h : (ios.showInt a).toList ++ '<' :: (closing name ++ s) =
      (ios.showInt b).toList ++ '<' :: (closing name ++ t)) : a = b ∧ s = t := by
  obtain ⟨hsame, hst⟩ := tagged_text_inj (notMem_showInt ios a) (notMem_showInt ios b) h
  exact ⟨showInt_inj hsame, hst⟩

/-! ## Headers -/

/-- A number in the header; its name is that of the line. -/
theorem number_inj {w : Nat} {a b : BitVec w}
    (h : lineText (tagged 8 name (ios.showUnsigned a)) ++ s =
      lineText (tagged 8 name (ios.showUnsigned b)) ++ t) : a = b ∧ s = t := by
  obtain ⟨hsame, hst⟩ := tagged_inj (notMem_showUnsigned ios a) (notMem_showUnsigned ios b) h
  exact ⟨showUnsigned_inj hsame, hst⟩

theorem flag_inj {a b : Bool}
    (h : lineText (tagged 8 name (if a then "true" else "false")) ++ s =
      lineText (tagged 8 name (if b then "true" else "false")) ++ t) : a = b ∧ s = t := by
  have hbool (c : Bool) :
      (if c then "true" else "false") = Ios.showBool ⟨true, false, false, 6⟩ c := rfl
  rw [hbool, hbool] at h
  obtain ⟨hsame, hst⟩ := tagged_inj (notMem_showBool _ a) (notMem_showBool _ b) h
  exact ⟨showBool_inj hsame, hst⟩

/-- The header is told from any other, and so is its end. -/
theorem header_inj {h h' : HeaderView}
    (heq : (h.lines ios).flatMap lineText ++ s = (h'.lines ios).flatMap lineText ++ t) :
    h = h' ∧ s = t := by
  simp only [HeaderView.lines, List.flatMap_cons, List.flatMap_nil, List.append_assoc] at heq
  have heq := List.append_cancel_left (List.append_cancel_left
    (List.append_cancel_left (List.append_cancel_left heq)))
  obtain ⟨hsourceIdent, heq⟩ := number_inj heq
  obtain ⟨hsourceOrganization, heq⟩ := number_inj heq
  obtain ⟨htargetIdent, heq⟩ := number_inj heq
  obtain ⟨htargetOrganization, heq⟩ := number_inj heq
  obtain ⟨htransactionIdent, heq⟩ := number_inj heq
  obtain ⟨htransactionApplication, heq⟩ := number_inj heq
  obtain ⟨htransactionOrganization, heq⟩ := number_inj heq
  obtain ⟨httl, heq⟩ := number_inj heq
  obtain ⟨honce, heq⟩ := flag_inj heq
  obtain ⟨hquick, heq⟩ := flag_inj heq
  obtain ⟨hfragment, heq⟩ := flag_inj heq
  have hst := List.append_cancel_left (List.append_cancel_left heq)
  refine ⟨?_, hst⟩
  cases h
  cases h'
  rw [HeaderView.mk.injEq]
  exact ⟨UInt32.toBitVec_inj.mp hsourceIdent, UInt16.toBitVec_inj.mp hsourceOrganization,
    UInt32.toBitVec_inj.mp htargetIdent, UInt16.toBitVec_inj.mp htargetOrganization,
    UInt16.toBitVec_inj.mp htransactionIdent, UInt16.toBitVec_inj.mp htransactionApplication,
    UInt16.toBitVec_inj.mp htransactionOrganization, UInt32.toBitVec_inj.mp httl, honce, hquick,
    hfragment⟩

/-! ## Elements -/

theorem elementName_inj {k l : ScalarKind} (h : k.elementName = l.elementName) : k = l := by
  cases k <;> cases l <;> first | rfl | exact absurd h (by decide)

theorem notMem_elementName (k : ScalarKind) : '>' ∉ k.elementName.toList := by
  cases k <;> decide

/-- The characters of an element. -/
def elementText (floats : FloatText) (ios : Ios) (v : ScalarValue) : List Char :=
  lineText (PrintCall.shownLine floats ios (.element v))

theorem selfDelimiting_elementText (floats : FloatText) (ios : Ios) :
    SelfDelimiting (elementText floats ios) (fun v => v.kind ∈ plainKinds) := by
  intro v v' hv hv' s t h
  obtain ⟨hname, htext⟩ := tagged_name_inj (notMem_elementName _) (notMem_elementName _) h
  have hkind := elementName_inj hname
  cases v with
  | bool a =>
      cases v' with
      | bool b =>
          obtain ⟨hsame, hst⟩ := tagged_text_inj (notMem_showBool _ a) (notMem_showBool _ b) htext
          exact ⟨congrArg ScalarValue.bool (showBool_inj hsame), hst⟩
      | _ => cases hkind
  | byte a =>
      cases v' with
      | byte b =>
          obtain ⟨hsame, hst⟩ := char_inj ios htext
          have hbyte : a = b := congrArg Int8.ofUInt8 hsame
          exact ⟨congrArg ScalarValue.byte hbyte, hst⟩
      | _ => cases hkind
  | short a =>
      cases v' with
      | short b =>
          obtain ⟨hsame, hst⟩ := int_inj htext
          exact ⟨congrArg ScalarValue.short (Int16.toBitVec_inj.mp hsame), hst⟩
      | _ => cases hkind
  | int a =>
      cases v' with
      | int b =>
          obtain ⟨hsame, hst⟩ := int_inj htext
          exact ⟨congrArg ScalarValue.int (Int32.toBitVec_inj.mp hsame), hst⟩
      | _ => cases hkind
  | longLong a =>
      cases v' with
      | longLong b =>
          obtain ⟨hsame, hst⟩ := int_inj htext
          exact ⟨congrArg ScalarValue.longLong (Int64.toBitVec_inj.mp hsame), hst⟩
      | _ => cases hkind
  | char a =>
      cases v' with
      | char b =>
          obtain ⟨hsame, hst⟩ := char_inj ios htext
          exact ⟨congrArg ScalarValue.char hsame, hst⟩
      | _ => cases hkind
  | duration a =>
      cases v' with
      | duration b =>
          obtain ⟨hsame, hst⟩ :=
            tagged_text_inj (notMem_showUnsigned _ _) (notMem_showUnsigned _ _) htext
          have hduration : a = b := UInt32.toBitVec_inj.mp (showUnsigned_inj hsame)
          exact ⟨congrArg ScalarValue.duration hduration, hst⟩
      | _ => cases hkind
  | _ => exact absurd hv (by simp [ScalarValue.kind, plainKinds])

/-! ## Calls and histories -/

def footer : List Char := ["    </data>", "</message>"].flatMap lineText

/-- No element begins as the end of the data does. -/
theorem parted_footer (floats : FloatText) (ios : Ios) (v : ScalarValue) :
    Parted footer (elementText floats ios v) := by
  have hfooter : footer = List.replicate 4 ' ' ++ '<' :: footer.drop 5 := by decide
  have helement := lineText_tagged v.kind.elementName ((Item.element v).shown floats ios) []
  rw [List.append_nil] at helement
  rw [hfooter]
  show Parted _ (lineText (tagged 8 v.kind.elementName ((Item.element v).shown floats ios)))
  rw [helement]
  -- four blanks are common to the two
  exact (Parted.cons (show '<' ≠ ' ' by decide) _ _).append_left (List.replicate 4 ' ')

/-- The characters of a call with these contents. -/
def callText (floats : FloatText) (ios : Ios) (x : HeaderView × List ScalarValue) : List Char :=
  (x.1.lines ios).flatMap lineText ++
    ((written (elementText floats) (fun ios v => (Item.element v).flags ios) ios x.2).flatten ++
      footer)

theorem callText_ne_nil (floats : FloatText) (ios : Ios) (x : HeaderView × List ScalarValue) :
    callText floats ios x ≠ [] := by
  rw [callText]
  exact List.append_ne_nil_of_right_ne_nil _
    (List.append_ne_nil_of_right_ne_nil _ (by decide))

/-- The flags a call leaves. -/
def callFlags (ios : Ios) (x : HeaderView × List ScalarValue) : Ios :=
  (x.2.map Item.element).foldl Item.flags ios

theorem selfDelimiting_callText (floats : FloatText) (ios : Ios) :
    SelfDelimiting (callText floats ios) (fun x => ∀ v ∈ x.2, v.kind ∈ plainKinds) := by
  rintro ⟨h, vs⟩ ⟨h', vs'⟩ hvs hvs' s t heq
  rw [callText, callText, List.append_assoc, List.append_assoc, List.append_assoc,
    List.append_assoc] at heq
  obtain ⟨rfl, hrest⟩ := header_inj heq
  obtain ⟨rfl, hst⟩ := written_append_inj (selfDelimiting_elementText floats)
    (fun ios v _ => parted_footer floats ios v) hvs hvs' hrest
  exact ⟨rfl, hst⟩

section Histories

variable {host host' : ByteOrder} {floats : FloatText}

theorem coutText_shown (floats : FloatText) (ios : Ios) (p : PrintCall host) :
    coutText (p.shown floats ios) = callText floats ios p.contents := by
  have hlines :
      ["Debug message printout", "======================", "<message>", "    <header>"] ++
          (headerItems p.msg).map (PrintCall.shownLine floats ios) ++
          ["    </header>", "    <data>"] =
        p.msg.headerView.lines ios := rfl
  rw [PrintCall.shown, PrintCall.around, hlines, coutText_cout, List.flatMap_append,
    List.flatMap_append, flatMap_written, written_map, List.append_assoc]
  rfl

theorem coutText_shownAll (floats : FloatText) (ios : Ios) (history : List (PrintCall host)) :
    coutText (shownAll floats ios history) =
      (written (callText floats) callFlags ios (history.map PrintCall.contents)).flatten := by
  induction history generalizing ios with
  | nil => rfl
  | cons p ps ih =>
      have hflags : p.items.foldl Item.flags ios = callFlags ios p.contents := by
        rw [PrintCall.items, List.foldl_append, PrintCall.foldl_flags_headerItems]
        rfl
      rw [shownAll, coutText_append, coutText_shown, ih, hflags]
      rfl

end Histories

end Transcript

open Transcript

/-- **The printout is unambiguous**: two histories on the same stream print the same characters
exactly if they print the same headers and the same values. -/
theorem coutText_eq_iff {host host' : ByteOrder} {floats : FloatText} {c d d' : Console}
    {history : List (PrintCall host)} {history' : List (PrintCall host')}
    (h : PrintsAll host floats c history d) (h' : PrintsAll host' floats c history' d') :
    coutText d.out = coutText d'.out ↔
      history.map PrintCall.contents = history'.map PrintCall.contents := by
  obtain ⟨e, he, hout⟩ := exists_printsAll floats c history
  obtain ⟨e', he', hout'⟩ := exists_printsAll floats c history'
  rw [h.unique he, h'.unique he', hout, hout', coutText_append, coutText_append,
    List.append_cancel_left_eq, coutText_shownAll, coutText_shownAll]
  have hplain {host : ByteOrder} (ps : List (PrintCall host)) :
      ∀ x ∈ ps.map PrintCall.contents, ∀ v ∈ x.2, v.kind ∈ plainKinds := by
    intro x hx
    obtain ⟨p, -, rfl⟩ := List.mem_map.mp hx
    exact p.made.plain
  constructor
  · exact written_flatten_inj (selfDelimiting_callText floats)
      (fun ios x _ => callText_ne_nil floats ios x) (hplain history) (hplain history')
  · exact fun heq => by rw [heq]

/-- A byte and a number behind it, and the number alone. -/
theorem coutText_eq_iff_sample : ∃ d d',
    PrintsAll .little Console.noFloats (Console.consoleOf (Message.new default)) [byteThenInt] d ∧
    PrintsAll .little Console.noFloats (Console.consoleOf (Message.new default)) [intAlone] d' ∧
    coutText d.out ≠ coutText d'.out := by
  obtain ⟨d, hd, -⟩ := exists_printsAll Console.noFloats
    (Console.consoleOf (Message.new default)) [byteThenInt]
  obtain ⟨d', hd', -⟩ := exists_printsAll Console.noFloats
    (Console.consoleOf (Message.new default)) [intAlone]
  refine ⟨d, d', hd, hd', fun h => ?_⟩
  have hcontents := (coutText_eq_iff hd hd').mp h
  have hunread := congrArg (fun xs => xs.map fun x => x.2.length) hcontents
  exact absurd hunread (by decide)

end Kcmsg
