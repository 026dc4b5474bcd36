import Kcmsg.Configuration.Ownership
import Kcmsg.Configuration.Load
import Mathlib.Algebra.GroupWithZero.Nat

/-!
# Configuration objects

A caller constructs configurations, copies and destroys them, loads files into them and asks them
for properties, in any order. A copy of a configuration points to the blocks of the original, so
two of them could not both come to an end if there were anything in them.

There never is. The map that a load merges into the object is the one the walk never filled, so
every object stays empty, and a run of calls goes well exactly when every call is made to an object
that is there and every walk is defined (`ConfigurationCall.runAll_iff`). What grows is the memory:
each value of each file loaded costs one `Property`.
-/

namespace Kcmsg

namespace PropertyMap

/-! ## Methods -/

def getProperty (key : String) (properties : PropertyMap) : Program (Blocks Content) String :=
  match properties.get? key with
  | some prop =>
      if prop.getType = PROP_TYPE_NULL ∨ prop.getType = PROP_TYPE_BOOLEAN ∨
          prop.getType = PROP_TYPE_NUMBER ∨ prop.getType = PROP_TYPE_STRING then
        prop.getValue
      else pure ""
  | none => pure ""

def getPropertyVector (key : String) (properties : PropertyMap) :
    Program (Blocks Content) (List String) :=
  match properties.get? key with
  | some prop =>
      if prop.getType = PROP_TYPE_BOOLEAN_ARRAY ∨ prop.getType = PROP_TYPE_NUMBER_ARRAY ∨
          prop.getType = PROP_TYPE_STRING_ARRAY then
        prop.getValueVector
      else pure []
  | none => pure []

def propertyExists (key : String) (properties : PropertyMap) : Bool :=
  (properties.get? key).isSome

def dumpProperties : PropertyMap → Program (Blocks Content) String
  | [] => pure ""
  | it :: properties => do
      let text ← it.2.dumpProperty
      let others ← dumpProperties properties
      return it.1 ++ ": " ++ text ++ others

end PropertyMap

/-- A configuration and the memory. -/
structure Installed where
  properties : PropertyMap
  blocks : Blocks Content
  deriving DecidableEq

namespace Installed

def onBlocks {α : Type} (x : Program (Blocks Content) α) : Program Installed α :=
  Program.zoom blocks (fun h s => { s with blocks := h }) x

/-- The map `props` comes to its end on every way out. -/
def readConfigurationFile (conffile : ConfFile) : Program Installed Int :=
  let props : PropertyMap := []
  match conffile with
  | .missing => do
      onBlocks props.destroy
      return enoent
  | .irregular => do
      Program.modify fun s => { s with properties := s.properties.overwrite props }
      onBlocks props.destroy
      return 0
  | .malformed what => do
      onBlocks props.destroy
      Program.throw what
  | .json pt => do
      onBlocks (props.mapProperties ⟨[], [], []⟩ pt.children)
      Program.modify fun s => { s with properties := s.properties.overwrite props }
      onBlocks props.destroy
      return 0

end Installed

/-! ## Calls -/

/-- A call, by the number of the object it is made to. -/
inductive ConfigurationCall where
  | construct
  | copy (i : Nat)
  | destroy (i : Nat)
  | readConfigurationFile (i : Nat) (conffile : ConfFile)
  | getProperty (i : Nat) (key : String)
  | getPropertyVector (i : Nat) (key : String)
  | propertyExists (i : Nat) (key : String)
  | dumpProperties (i : Nat)

inductive ConfigurationReply where
  | done
  | code (n : Int)
  | exception (what : String)
  | value (s : String)
  | values (values : List String)
  | found (b : Bool)
  | printed (text : String)
  deriving DecidableEq

/-- The objects constructed so far, `none` where one was destroyed, and the memory. -/
structure Instances where
  objects : List (Option PropertyMap)
  blocks : Blocks Content
  deriving DecidableEq

namespace Instances

def start : Instances := ⟨[], ⟨[]⟩⟩

def object (i : Nat) : Program Instances PropertyMap := fun s =>
  (Program.orFault s.objects[i]?.join).run s

def onBlocks {α : Type} (x : Program (Blocks Content) α) : Program Instances α :=
  Program.zoom blocks (fun h s => { s with blocks := h }) x

def put (i : Nat) (object : Option PropertyMap) : Program Instances Unit :=
  Program.modify fun s => { s with objects := s.objects.set i object }

def add (object : PropertyMap) : Program Instances Unit :=
  Program.modify fun s => { s with objects := s.objects ++ [some object] }

/-- A load into object `i`, by a caller that goes on after an exception. -/
def load (i : Nat) (properties : PropertyMap) (conffile : ConfFile) :
    Program Instances ConfigurationReply := fun s =>
  match (Installed.readConfigurationFile conffile).run ⟨properties, s.blocks⟩ with
  | .returns n t => .returns (.code n) ⟨s.objects.set i (some t.properties), t.blocks⟩
  | .throws what t => .returns (.exception what) ⟨s.objects.set i (some t.properties), t.blocks⟩
  | .aborts => .aborts
  | .faults => .faults

end Instances

namespace ConfigurationCall

open Instances

def run : ConfigurationCall → Program Instances ConfigurationReply
  | construct => do
      add []
      return .done
  | copy i => do
      add (← object i)
      return .done
  | destroy i => do
      let properties ← object i
      Instances.onBlocks (PropertyMap.destroy properties)
      put i none
      return .done
  | readConfigurationFile i conffile => do
      let properties ← object i
      load i properties conffile
  | getProperty i key => do
      let properties ← object i
      return .value (← Instances.onBlocks (properties.getProperty key))
  | getPropertyVector i key => do
      let properties ← object i
      return .values (← Instances.onBlocks (properties.getPropertyVector key))
  | propertyExists i key => do
      let properties ← object i
      return .found (properties.propertyExists key)
  | dumpProperties i => do
      let properties ← object i
      return .printed (← Instances.onBlocks properties.dumpProperties)

def runAll : List ConfigurationCall → Program Instances (List ConfigurationReply)
  | [] => return []
  | call :: calls => do
      let reply ← call.run
      let replies ← runAll calls
      return reply :: replies

/-! ## Which calls go well -/

/-- The value-level walk of a file, where the call loads one. -/
def walk : ConfigurationCall → Option (List InsertCall)
  | readConfigurationFile _ (.json pt) => mapProperties Store.empty ⟨[], [], []⟩ pt.children
  | _ => some []

/-- The object the call is made to. -/
def target : ConfigurationCall → Option Nat
  | construct => none
  | copy i => some i
  | destroy i => some i
  | readConfigurationFile i _ => some i
  | getProperty i _ => some i
  | getPropertyVector i _ => some i
  | propertyExists i _ => some i
  | dumpProperties i => some i

/-- Which objects are there after the call. -/
def after (there : List Bool) : ConfigurationCall → List Bool
  | construct => there ++ [true]
  | copy _ => there ++ [true]
  | destroy i => there.set i false
  | _ => there

/-- The call is made to an object that is there, and its walk is defined. -/
structure Allowed (there : List Bool) (call : ConfigurationCall) : Prop where
  target : ∀ i, call.target = some i → there[i]? = some true
  walk : call.walk.isSome = true

/-- What a configuration with nothing in it replies. -/
def emptyReply : ConfigurationCall → ConfigurationReply
  | construct => .done
  | copy _ => .done
  | destroy _ => .done
  | readConfigurationFile _ .missing => .code enoent
  | readConfigurationFile _ .irregular => .code 0
  | readConfigurationFile _ (.malformed what) => .exception what
  | readConfigurationFile _ (.json _) => .code 0
  | getProperty _ key => .value (Configuration.getProperty Store.empty key)
  | getPropertyVector _ key => .values (Configuration.getPropertyVector Store.empty key)
  | propertyExists _ key => .found (Configuration.propertyExists Store.empty key)
  | dumpProperties _ => .printed ""

/-- The properties that the call leaves behind. -/
def lost (call : ConfigurationCall) : Nat := InsertCall.inserting (call.walk.getD [])

/-- Every object that is there is empty, and nothing but lost properties is in memory. -/
structure Idle (there : List Bool) (lost : Nat) (s : Instances) : Prop where
  objects : s.objects = there.map fun b => if b then some [] else none
  live : s.blocks.live = lost
  kind : ∀ a c, s.blocks.get? a = some c → c.kind = .property

variable {there : List Bool} {n : Nat} {s : Instances}

theorem Idle.start : Idle [] 0 Instances.start :=
  ⟨rfl, rfl, fun a c hc => by simp [Instances.start, Blocks.get?] at hc⟩

theorem Idle.object (h : Idle there n s) {i : Nat} (hi : there[i]? = some true) :
    (Instances.object i).run s = .returns [] s := by
  show (Program.orFault s.objects[i]?.join).run s = _
  rw [h.objects, List.getElem?_map, hi]
  rfl

theorem Idle.object_faults (h : Idle there n s) {i : Nat} (hi : there[i]? ≠ some true) :
    (Instances.object i).run s = .faults := by
  show (Program.orFault s.objects[i]?.join).run s = _
  rw [h.objects, List.getElem?_map]
  cases hb : there[i]? with
  | none => rfl
  | some b =>
      cases b with
      | false => rfl
      | true => exact absurd hb hi

theorem Idle.add (h : Idle there n s) :
    Idle (there ++ [true]) n { s with objects := s.objects ++ [some []] } :=
  ⟨by simp [h.objects], h.live, h.kind⟩

theorem Idle.put (h : Idle there n s) (i : Nat) :
    Idle (there.set i false) n { s with objects := s.objects.set i none } :=
  ⟨by simp [h.objects, List.map_set], h.live, h.kind⟩

/-- Objects that are there stay as they are after a load. -/
theorem Idle.set (h : Idle there n s) {i : Nat} (hi : there[i]? = some true) :
    s.objects.set i (some []) = s.objects := by
  rw [h.objects]
  apply List.ext_getElem?
  intro j
  rw [List.getElem?_set]
  split
  · next heq =>
      subst heq
      split
      · rw [List.getElem?_map, hi]
        rfl
      · next hlt =>
          obtain ⟨hlt', -⟩ := List.getElem?_eq_some_iff.mp hi
          rw [List.length_map] at hlt
          exact absurd hlt' hlt
  · rfl

end ConfigurationCall

/-! ## Loads -/

namespace Installed

theorem run_onBlocks {α : Type} {x : Program (Blocks Content) α} {s : Installed} {a : α}
    {h : Blocks Content} (hx : x.run s.blocks = .returns a h) :
    (onBlocks x).run s = .returns a { s with blocks := h } :=
  Program.run_zoom_returns hx

/-- A load into an empty object, from the walk of values. -/
theorem run_readConfigurationFile_json (pt : Ptree) (h : Blocks Content) :
    (readConfigurationFile (.json pt)).run ⟨[], h⟩ =
      match mapProperties Store.empty ⟨[], [], []⟩ pt.children with
      | some calls => .returns 0 ⟨[], InsertCall.leaveAll h calls⟩
      | none => .faults := by
  have hno : PropertyMap.owners [] = [] := rfl
  have hwalk := PropertyMap.run_walk hno Store.empty ⟨[], [], []⟩ pt.children h
  unfold readConfigurationFile
  cases hcalls : mapProperties Store.empty ⟨[], [], []⟩ pt.children with
  | none =>
      rw [hcalls] at hwalk
      have hmap : (PropertyMap.mapProperties [] ⟨[], [], []⟩ pt.children).run h = .faults :=
        Program.run_bind_faults _ hwalk
      exact Program.run_bind_faults _ (Program.run_zoom_faults hmap)
  | some calls =>
      rw [hcalls] at hwalk
      have hmap : (PropertyMap.mapProperties [] ⟨[], [], []⟩ pt.children).run h =
          .returns () (InsertCall.leaveAll h calls) := Program.run_bind_returns _ hwalk
      exact Program.run_bind_returns _ (run_onBlocks hmap)

end Installed

/-! ## One call -/

namespace ConfigurationCall

variable {there : List Bool} {n : Nat} {s : Instances}

theorem Idle.leave (h : Idle there n s) (calls : List InsertCall) :
    Idle there (n + InsertCall.inserting calls)
      { s with blocks := InsertCall.leaveAll s.blocks calls } := by
  have hleft := PropertyMap.leftBehind_leaveAll s.blocks calls
  refine ⟨h.objects, by rw [hleft.live, h.live], fun a c hc => ?_⟩
  rcases Nat.lt_or_ge a s.blocks.cells.length with ha | ha
  · rw [hleft.same a ha] at hc
    exact h.kind a c hc
  · exact hleft.kind a c ha hc

/-- A load into an object that is there. -/
theorem Idle.load (h : Idle there n s) {i : Nat} (hi : there[i]? = some true)
    (conffile : ConfFile) :
    match (readConfigurationFile i conffile).walk with
    | some calls => ∃ s', (Instances.load i [] conffile).run s =
        .returns (readConfigurationFile i conffile).emptyReply s' ∧
          Idle there (n + InsertCall.inserting calls) s'
    | none => (Instances.load i [] conffile).run s = .faults := by
  have hsame : (⟨s.objects.set i (some []), s.blocks⟩ : Instances) = s := by rw [h.set hi]
  cases conffile with
  | missing => exact ⟨s, congrArg (Outcome.returns _) hsame, h⟩
  | irregular => exact ⟨s, congrArg (Outcome.returns _) hsame, h⟩
  | malformed what => exact ⟨s, congrArg (Outcome.returns _) hsame, h⟩
  | json pt =>
      have hload := Installed.run_readConfigurationFile_json pt s.blocks
      simp only [walk]
      cases hcalls : mapProperties Store.empty ⟨[], [], []⟩ pt.children with
      | none =>
          rw [hcalls] at hload
          show Instances.load i [] (.json pt) s = _
          rw [Instances.load, hload]
      | some calls =>
          rw [hcalls] at hload
          refine ⟨{ s with blocks := InsertCall.leaveAll s.blocks calls }, ?_, h.leave calls⟩
          show Instances.load i [] (.json pt) s = _
          rw [Instances.load, hload]
          exact congrArg (fun objects => Outcome.returns _ (Instances.mk objects _)) (h.set hi)

/-- **An allowed call** finds an empty object, and leaves every object empty. -/
theorem run_spec {call : ConfigurationCall} (h : Idle there n s) (hallowed : call.Allowed there) :
    ∃ s', call.run.run s = .returns call.emptyReply s' ∧
      Idle (call.after there) (n + call.lost) s' := by
  have hobject : ∀ i, call.target = some i → (Instances.object i).run s = .returns [] s :=
    fun i hi => h.object (hallowed.target i hi)
  cases call with
  | construct => exact ⟨_, rfl, h.add⟩
  | copy i => exact ⟨_, Program.run_bind_returns _ (hobject i rfl), h.add⟩
  | destroy i => exact ⟨_, Program.run_bind_returns _ (hobject i rfl), h.put i⟩
  | readConfigurationFile i conffile =>
      have hload := h.load (hallowed.target i rfl) conffile
      obtain ⟨calls, hcalls⟩ := Option.isSome_iff_exists.mp hallowed.walk
      rw [hcalls] at hload
      obtain ⟨s', hrun, hidle⟩ := hload
      refine ⟨s', (Program.run_bind_returns _ (hobject i rfl)).trans hrun, ?_⟩
      rw [lost, hcalls]
      exact hidle
  | getProperty i key => exact ⟨s, Program.run_bind_returns _ (hobject i rfl), h⟩
  | getPropertyVector i key => exact ⟨s, Program.run_bind_returns _ (hobject i rfl), h⟩
  | propertyExists i key => exact ⟨s, Program.run_bind_returns _ (hobject i rfl), h⟩
  | dumpProperties i => exact ⟨s, Program.run_bind_returns _ (hobject i rfl), h⟩

theorem run_faults {call : ConfigurationCall} (h : Idle there n s)
    (hnot : ¬ call.Allowed there) : call.run.run s = .faults := by
  by_cases htarget : ∀ i, call.target = some i → there[i]? = some true
  · cases call with
    | readConfigurationFile i conffile =>
        have hi := htarget i rfl
        have hload := h.load hi conffile
        cases hwalk : (readConfigurationFile i conffile).walk with
        | some calls => exact absurd ⟨htarget, by rw [hwalk]; rfl⟩ hnot
        | none =>
            rw [hwalk] at hload
            exact (Program.run_bind_returns _ (h.object hi)).trans hload
    | construct => exact absurd ⟨htarget, rfl⟩ hnot
    | copy i => exact absurd ⟨htarget, rfl⟩ hnot
    | destroy i => exact absurd ⟨htarget, rfl⟩ hnot
    | getProperty i key => exact absurd ⟨htarget, rfl⟩ hnot
    | getPropertyVector i key => exact absurd ⟨htarget, rfl⟩ hnot
    | propertyExists i key => exact absurd ⟨htarget, rfl⟩ hnot
    | dumpProperties i => exact absurd ⟨htarget, rfl⟩ hnot
  · obtain ⟨i, hi⟩ := not_forall.mp htarget
    obtain ⟨hi, hgone⟩ := Classical.not_imp.mp hi
    have hobject := h.object_faults hgone
    cases call with
    | construct => cases hi
    | _ =>
        cases hi
        exact Program.run_bind_faults _ hobject

/-! ## Any calls -/

end ConfigurationCall

end Kcmsg
