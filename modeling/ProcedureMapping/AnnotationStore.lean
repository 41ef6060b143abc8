import ProcedureMapping.Json.Value
import ProcedureMapping.SortedMap
import ProcedureMapping.Source
import ProcedureMapping.Text.Lines

/-!
# Annotations

An **annotation** is a JSON value under a name, together with the source that set it.  A store
holds annotations by ascending name and negotiates every change:

* a write is accepted when nothing stands under the name, when its source overrides the recorded
  one, or when it repeats the value that is there; it leaves its own value and the stronger
  source;
* a removal is accepted when nothing stands under the name or its source overrides the recorded
  one.

Main statements:

* `get?_put`, `get?_discard` — what a change does to each name;
* `write?_eq_none_iff` — a write backs off exactly when it is weaker and brings another value;
* `remove?_eq_none_iff` — a removal backs off exactly before a stronger record.
-/

namespace ProcedureMapping

open Text (spaces block)

/-- A value and the source that set it. -/
structure AnnotationEntry where
  value : Json.Value
  source : Source

/-- Annotations by name. -/
structure AnnotationStore where
  entries : SortedMap String AnnotationEntry

namespace AnnotationStore

/-- The store without annotations. -/
def empty : AnnotationStore := ⟨.empty⟩

/-- The annotation under a name. -/
def get? (store : AnnotationStore) (name : String) : Option AnnotationEntry :=
  store.entries.get? name

/-- The value under a name. -/
def value? (store : AnnotationStore) (name : String) : Option Json.Value :=
  (store.get? name).map AnnotationEntry.value

/-- The recorded source under a name. -/
def source? (store : AnnotationStore) (name : String) : Option Source :=
  (store.get? name).map AnnotationEntry.source

/-- The annotations with their names, by ascending name. -/
def toList (store : AnnotationStore) : List (String × AnnotationEntry) := store.entries.toList

/-- The number of annotations. -/
def size (store : AnnotationStore) : Nat := store.entries.size

/-- Whether there are no annotations. -/
def isEmpty (store : AnnotationStore) : Bool := store.entries.isEmpty

/-- Whether a write of `value` under `name` at source `s` is accepted. -/
def accepts (store : AnnotationStore) (name : String) (value : Json.Value) (s : Source) : Bool :=
  match store.get? name with
  | some existing => s.overrides (some existing.source) || existing.value.same value
  | none => true

/-- Record `value` under `name` without asking.  The recorded source never goes down. -/
def put (store : AnnotationStore) (name : String) (value : Json.Value) (s : Source) :
    AnnotationStore :=
  ⟨store.entries.insert name ⟨value, s.max (store.source? name)⟩⟩

/-- Write `value` under `name` at source `s`; `none` when the write backs off. -/
def write? (store : AnnotationStore) (name : String) (value : Json.Value) (s : Source) :
    Option AnnotationStore :=
  if store.accepts name value s then some (store.put name value s) else none

/-- Whether a removal at source `s` is accepted. -/
def releases (store : AnnotationStore) (name : String) (s : Source) : Bool :=
  match store.get? name with
  | some existing => s.overrides (some existing.source)
  | none => true

/-- Drop what stands under `name` without asking. -/
def discard (store : AnnotationStore) (name : String) : AnnotationStore :=
  ⟨store.entries.erase name⟩

/-- Remove what stands under `name` at source `s`; `none` when the removal backs off. -/
def remove? (store : AnnotationStore) (name : String) (s : Source) : Option AnnotationStore :=
  if store.releases name s then some (store.discard name) else none

/-- The annotation that a removal takes out, if it takes out any. -/
def removed? (store : AnnotationStore) (name : String) (s : Source) : Option AnnotationEntry :=
  if store.releases name s then store.get? name else none

/-- The debug text of a value: strings stand bare, everything else as compact JSON. -/
def valueText : Json.Value → String
  | .string s => s
  | v => v.text

/-- The lines of the debug text: none for an empty store, else a heading and one line for each
annotation. -/
def debugLines (store : AnnotationStore) (indent : Nat) : List String :=
  if store.isEmpty then []
  else
    (spaces indent ++ "Annotations:") :: store.toList.map fun (name, entry) =>
      spaces indent ++ "  " ++ name ++ ": " ++ valueText entry.value

/-- The debug text, each line after a line feed. -/
def debugText (store : AnnotationStore) (indent : Nat) : String := block (store.debugLines indent)

@[simp] theorem get?_empty (name : String) : empty.get? name = none := rfl

theorem get?_put (store : AnnotationStore) (name other : String) (value : Json.Value)
    (s : Source) :
    (store.put name value s).get? other =
      if other = name then some ⟨value, s.max (store.source? name)⟩ else store.get? other :=
  SortedMap.get?_insert store.entries name other _

theorem get?_discard (store : AnnotationStore) (name other : String) :
    (store.discard name).get? other = if other = name then none else store.get? other :=
  SortedMap.get?_erase store.entries name other

/-- Two stores with the same look-ups are equal. -/
theorem ext_get? {store store' : AnnotationStore} (h : ∀ name, store.get? name = store'.get? name) :
    store = store' :=
  congrArg mk (SortedMap.ext_get? h)

/-- **A write backs off** exactly when a stronger source holds another value. -/
theorem write?_eq_none_iff {store : AnnotationStore} {name : String} {value : Json.Value}
    {s : Source} :
    store.write? name value s = none ↔
      ∃ a, store.get? name = some a ∧ s < a.source ∧ a.value.same value = false := by
  cases h : store.get? name with
  | none => simp [write?, accepts, h]
  | some a => simp [write?, accepts, h, Source.overrides, Source.lt_iff, Source.le_iff]

/-- **A removal backs off** exactly before a stronger record. -/
theorem remove?_eq_none_iff {store : AnnotationStore} {name : String} {s : Source} :
    store.remove? name s = none ↔ ∃ a, store.get? name = some a ∧ s < a.source := by
  cases h : store.get? name with
  | none => simp [remove?, releases, h]
  | some a => simp [remove?, releases, h, Source.overrides, Source.lt_iff, Source.le_iff]

end AnnotationStore

end ProcedureMapping
