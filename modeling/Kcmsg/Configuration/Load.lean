import Kcmsg.Configuration.Document

/-!
# Loading a file

Loading a document should put its scalars and arrays into the store and leave the other keys
alone (`Loaded`). The map that is merged into the store in the end is the caller's own, which the
walk never sees, so the store stays as it is whatever the file says: the document is loaded
exactly when it was there already (`loaded_iff`).
-/

namespace Kcmsg

namespace Configuration

/-- The store has every scalar and every array of the document under its key path. -/
structure Holds (properties : Store) (doc : Document) : Prop where
  scalars : ∀ path val, .scalar path val ∈ doc.entries →
    propertyExists properties (joinKey path) = true ∧ getProperty properties (joinKey path) = val
  arrays : ∀ path elems, .array path elems ∈ doc.entries →
    getPropertyVector properties (joinKey path) = elems

/-- Loading the document took the store from `before` to `after`. -/
structure Loaded (before after : Store) (doc : Document) : Prop where
  holds : Holds after doc
  others : ∀ key, key ∉ doc.entries.map (fun e => joinKey e.path) → after key = before key

/-! ## The store does not change -/

theorem overwrite_empty (properties : Store) : properties.overwrite Store.empty = properties := by
  funext key
  rw [Store.overwrite, Store.empty, Option.none_or]

/-- A parsed file is walked, and nothing comes of it. -/
theorem run_readConfigurationFile_json (pt : Ptree) (properties : Store) :
    (readConfigurationFile (.json pt)).run properties =
      if (mapProperties Store.empty ⟨[], [], []⟩ pt.children).isSome then .returns 0 properties
      else .faults := by
  unfold readConfigurationFile
  cases hwalk : mapProperties Store.empty ⟨[], [], []⟩ pt.children with
  | some calls =>
      simp only [hwalk]
      exact congrArg (Outcome.returns 0) (overwrite_empty properties)
  | none =>
      simp only [hwalk]
      rfl

/-- **No load changes the store**, whether it returns or throws. -/
theorem readConfigurationFile_unchanged (conffile : ConfFile) {before after : Store} :
    (∀ value, (readConfigurationFile conffile).run before = .returns value after →
      after = before) ∧
    ∀ what, (readConfigurationFile conffile).run before = .throws what after →
      after = before := by
  cases conffile with
  | missing => exact ⟨fun _ h => by cases h; rfl, fun _ h => nomatch h⟩
  | irregular => exact ⟨fun _ h => by cases h; exact overwrite_empty before, fun _ h => nomatch h⟩
  | malformed what => exact ⟨fun _ h => (nomatch h), fun _ h => by cases h; rfl⟩
  | json pt =>
      rw [run_readConfigurationFile_json]
      split
      · exact ⟨fun _ h => by cases h; rfl, fun _ h => nomatch h⟩
      · exact ⟨fun _ h => (nomatch h), fun _ h => nomatch h⟩

/-- A caller that loads one file after another, and goes on after an exception. -/
def readAll (properties : Store) : List ConfFile → Option Store
  | [] => some properties
  | file :: files =>
      match (readConfigurationFile file).run properties with
      | .returns _ properties => readAll properties files
      | .throws _ properties => readAll properties files
      | .aborts => none
      | .faults => none

/-- No sequence of loads changes the store either. -/
theorem readAll_unchanged {files : List ConfFile} {before after : Store}
    (h : readAll before files = some after) : after = before := by
  induction files generalizing before with
  | nil =>
      cases h
      rfl
  | cons file files ih =>
      rw [readAll] at h
      cases hrun : (readConfigurationFile file).run before with
      | returns value properties =>
          rw [hrun] at h
          rw [ih h, (readConfigurationFile_unchanged file).1 value hrun]
      | throws what properties =>
          rw [hrun] at h
          rw [ih h, (readConfigurationFile_unchanged file).2 what hrun]
      | aborts =>
          rw [hrun] at h
          cases h
      | faults =>
          rw [hrun] at h
          cases h

/-! ## When a document is loaded -/

/-- **A document is loaded exactly when it was there before.** A missing file and a file that
does not parse leave the store alone as well, as they should. -/
theorem loaded_iff {doc : Document} {before after : Store}
    (h : (readConfigurationFile (.json doc.toTree)).run before = .returns 0 after) :
    (Loaded before after doc ↔ Holds before doc) ∧
      (readConfigurationFile .missing).run before = .returns enoent before ∧
      ∀ what, (readConfigurationFile (.malformed what)).run before = .throws what before := by
  refine ⟨?_, rfl, fun _ => rfl⟩
  rw [(readConfigurationFile_unchanged _).1 0 h]
  exact ⟨fun hloaded => hloaded.holds, fun hholds => ⟨hholds, fun _ _ => rfl⟩⟩

/-- `{"a": {"b": "x"}}` -/
def nestedScalar : Document :=
  .object (.object ⟨"a", a_ne_empty⟩ (.scalar ⟨"b", b_ne_empty⟩ ⟨"x", x_ne_empty⟩ .nil) .nil)

theorem run_nestedScalar (properties : Store) :
    (readConfigurationFile (.json nestedScalar.toTree)).run properties =
      .returns 0 properties := by
  rw [run_readConfigurationFile_json]
  exact if_pos (by decide)

theorem loaded_iff_nestedScalar :
    Loaded Store.empty Store.empty nestedScalar ↔ Holds Store.empty nestedScalar :=
  (loaded_iff (run_nestedScalar Store.empty)).1

/-- Loading it into an empty store returns zero, and `a.b` does not exist afterwards. -/
theorem not_loaded_nestedScalar :
    (readConfigurationFile (.json nestedScalar.toTree)).run Store.empty =
        .returns 0 Store.empty ∧
      propertyExists Store.empty "a.b" = false ∧
      ¬ Loaded Store.empty Store.empty nestedScalar := by
  refine ⟨run_nestedScalar Store.empty, rfl, fun h => ?_⟩
  have hkey : joinKey ["a", "b"] = "a.b" := by decide
  obtain ⟨hexists, -⟩ := h.holds.scalars ["a", "b"] "x" (by decide)
  rw [hkey] at hexists
  cases hexists

end Configuration

end Kcmsg
