import ProcedureMapping.Procedure.Rendering

/-!
# The layout of debug texts

A debug text is laid out by an **outline**: what each line says, and how far it stands in.  The
heading of a procedure stands at the margin, the heading of its parameters two spaces in and each
parameter four; a block of annotations stands two spaces in from what it belongs to, and its entries
two more.  The outline does not know of the indent: to indent a text by `n` moves every line by `n`.

The lines can be told apart in the text as long as nothing that is shown brings a line feed of its
own.

Main statements:

* `Text.lines_unlines` — lines without line feeds are read back from their text;
* `AnnotationStore.debugLines_eq`, `Parameter.debugLines_eq`, `Procedure.debugLines_eq` — each of
  the three texts follows its outline, at every indent;
* `Procedure.debugText_laid_out` — how the debug text of a procedure is laid out.
-/

namespace ProcedureMapping

/-! ## Lines -/

namespace Text

variable {s t : String}

/-- Whether there is no line feed in a text. -/
def OneLine (s : String) : Prop := '\n' ∉ s.toList

instance (s : String) : Decidable (OneLine s) := inferInstanceAs (Decidable ('\n' ∉ s.toList))

/-- The parts of a text between its line feeds. -/
def lines (s : String) : List String := (s.toList.splitOn '\n').map String.ofList

/-- A text with `n` spaces in front of each of its lines. -/
def indent (n : Nat) (s : String) : String := unlines ((lines s).map fun line => spaces n ++ line)

theorem oneLine_append : OneLine (s ++ t) ↔ OneLine s ∧ OneLine t := by
  simp [OneLine]

theorem oneLine_spaces (n : Nat) : OneLine (spaces n) := by
  simp [OneLine, toList_spaces]

/-- **Lines without line feeds** are read back from their text. -/
theorem lines_unlines {ls : List String} (hne : ls ≠ []) (h : ∀ line ∈ ls, OneLine line) :
    lines (unlines ls) = ls := by
  have hparts : ∀ part ∈ ls.map String.toList, '\n' ∉ part := by
    intro part hpart
    obtain ⟨line, hline, rfl⟩ := List.mem_map.1 hpart
    exact h line hline
  have hsplit : ((unlines ls).toList.splitOn '\n') = ls.map String.toList := by
    rw [unlines, String.toList_intercalate]
    exact List.splitOn_intercalate '\n' hparts (by simpa using hne)
  rw [lines, hsplit, List.map_map]
  simp

/-- A line of an outline: how far it stands in, and what it says. -/
structure Line where
  depth : Nat
  text : String

/-- The line in a text that is indented by `n`. -/
def Line.render (n : Nat) (line : Line) : String := spaces (n + line.depth) ++ line.text

/-- An indent goes in front of the line as it stands without. -/
theorem Line.render_eq (n : Nat) (line : Line) : line.render n = spaces n ++ line.render 0 := by
  rw [render, render, spaces_add, String.append_assoc, Nat.zero_add]

end Text

open Text (Line OneLine oneLine_append oneLine_spaces lines spaces spaces_add unlines)

/-! ## Outlines -/

namespace AnnotationStore

variable {store : AnnotationStore}

/-- The outline of a block of annotations: nothing for an empty store, else a heading and below it
the annotations by ascending name. -/
def outline (store : AnnotationStore) (depth : Nat) : List Line :=
  if store.isEmpty then []
  else
    ⟨depth, "Annotations:"⟩ :: store.toList.map fun e =>
      ⟨depth + 2, e.1 ++ ": " ++ valueText e.2.value⟩

/-- Whether no name and no value of a store is shown with a line feed. -/
def OneLined (store : AnnotationStore) : Prop :=
  ∀ e ∈ store.toList, OneLine e.1 ∧ OneLine (valueText e.2.value)

instance (store : AnnotationStore) : Decidable store.OneLined :=
  inferInstanceAs (Decidable (∀ e ∈ store.toList, OneLine e.1 ∧ OneLine (valueText e.2.value)))

theorem debugLines_eq (store : AnnotationStore) (n depth : Nat) :
    store.debugLines (n + depth) = (store.outline depth).map (Line.render n) := by
  have hentry : ∀ e : String × AnnotationEntry,
      spaces (n + depth) ++ "  " ++ e.1 ++ ": " ++ valueText e.2.value =
        (Line.mk (depth + 2) (e.1 ++ ": " ++ valueText e.2.value)).render n := by
    intro e
    have htwo : spaces 2 = "  " := rfl
    rw [Line.render, ← Nat.add_assoc, spaces_add (n + depth) 2, htwo]
    simp only [String.append_assoc]
  unfold debugLines outline
  split
  · rfl
  · rw [List.map_cons, List.map_map]
    exact congrArg _ (List.map_congr_left fun e _ => hentry e)

theorem OneLined.outline (h : store.OneLined) (depth : Nat) :
    ∀ line ∈ store.outline depth, OneLine line.text := by
  intro line hline
  unfold AnnotationStore.outline at hline
  split at hline
  · cases hline
  · have hheading : OneLine "Annotations:" := by decide
    rcases List.mem_cons.1 hline with rfl | hentry
    · exact hheading
    · obtain ⟨e, he, rfl⟩ := List.mem_map.1 hentry
      obtain ⟨hname, hvalue⟩ := h e he
      exact oneLine_append.2 ⟨oneLine_append.2 ⟨hname, by decide⟩, hvalue⟩

/-- A block lists the annotations by ascending name. -/
theorem toList_ascending (store : AnnotationStore) :
    store.toList.Pairwise fun a b => a.1 < b.1 :=
  store.entries.sorted.imp fun {_ _} => compareOfLessAndEq_eq_lt.1

end AnnotationStore

namespace Parameter

variable {q : Parameter} {options : DebugOptions}

/-- What the line of a parameter says: its name, and the store type that applies if there is one. -/
def caption (q : Parameter) : String :=
  match q.effectiveStoreType with
  | some storeType => q.name ++ " " ++ storeType
  | none => q.name

/-- The outline of a parameter below the heading of the parameters. -/
def outline (q : Parameter) (options : DebugOptions) : List Line :=
  ⟨4, q.caption⟩ :: if options.includeAnnotations then q.annotations.outline 6 else []

/-- Whether nothing of a parameter is shown with a line feed. -/
structure OneLined (q : Parameter) : Prop where
  name : OneLine q.name
  storeType : ∀ t ∈ q.effectiveStoreType, OneLine t
  annotations : q.annotations.OneLined

instance (q : Parameter) : Decidable q.OneLined :=
  decidable_of_iff
    (OneLine q.name ∧ (∀ t ∈ q.effectiveStoreType, OneLine t) ∧ q.annotations.OneLined)
    ⟨fun h => ⟨h.1, h.2.1, h.2.2⟩, fun h => ⟨h.name, h.storeType, h.annotations⟩⟩

theorem debugLines_eq (q : Parameter) (n : Nat) (h : options.singleLine = false) :
    q.debugLines options (n + 4) = (q.outline options).map (Line.render n) := by
  rw [debugLines, outline, List.map_cons, h]
  refine List.cons_eq_cons.2 ⟨?_, ?_⟩
  · rw [Line.render, caption]
    cases q.effectiveStoreType <;> simp only [String.append_assoc]
  · cases options.includeAnnotations with
    | false => rfl
    | true => exact q.annotations.debugLines_eq n 6

theorem OneLined.caption (h : q.OneLined) : OneLine q.caption := by
  unfold Parameter.caption
  split
  · rename_i storeType hstore
    exact oneLine_append.2 ⟨oneLine_append.2 ⟨h.name, by decide⟩, h.storeType _ hstore⟩
  · exact h.name

theorem OneLined.outline (h : q.OneLined) : ∀ line ∈ q.outline options, OneLine line.text := by
  intro line hline
  rcases List.mem_cons.1 hline with rfl | hblock
  · exact h.caption
  · split at hblock
    · exact h.annotations.outline 6 line hblock
    · cases hblock

end Parameter

namespace Procedure

variable {settings : ModelSettings} {p : Procedure} {options : DebugOptions}

/-- The outline of the parameters: nothing without parameters. -/
def parameterOutline (p : Procedure) (options : DebugOptions) : List Line :=
  if p.parameters.isEmpty then []
  else ⟨2, "Parameters:"⟩ :: p.parameters.flatMap fun q => q.outline options

/-- The outline of a procedure: the heading, and unless that is all, the parameters and, if they are
wanted, the annotations. -/
def outline (p : Procedure) (settings : ModelSettings) (options : DebugOptions) : List Line :=
  ⟨0, "StoredProcedure: " ++ p.displayName settings⟩ ::
    if options.singleLine then []
    else p.parameterOutline options
      ++ if options.includeAnnotations then p.annotations.outline 2 else []

/-- Whether nothing of a procedure is shown with a line feed. -/
structure OneLined (p : Procedure) (settings : ModelSettings) : Prop where
  name : OneLine (p.effectiveName settings)
  schema : ∀ s ∈ p.effectiveSchema settings, OneLine s
  parameters : ∀ q ∈ p.parameters, q.OneLined
  annotations : p.annotations.OneLined

instance (p : Procedure) (settings : ModelSettings) : Decidable (p.OneLined settings) :=
  decidable_of_iff
    (OneLine (p.effectiveName settings) ∧ (∀ s ∈ p.effectiveSchema settings, OneLine s) ∧
      (∀ q ∈ p.parameters, q.OneLined) ∧ p.annotations.OneLined)
    ⟨fun h => ⟨h.1, h.2.1, h.2.2.1, h.2.2.2⟩,
      fun h => ⟨h.name, h.schema, h.parameters, h.annotations⟩⟩

theorem parameterLines_eq (n : Nat) (h : options.singleLine = false) :
    p.parameterLines options n = (p.parameterOutline options).map (Line.render n) := by
  have hheading : spaces n ++ "  Parameters:" = (Line.mk 2 "Parameters:").render n := by
    have htwo : spaces 2 ++ "Parameters:" = "  Parameters:" := rfl
    rw [Line.render, spaces_add, String.append_assoc, htwo]
  unfold parameterLines parameterOutline
  cases p.parameters.isEmpty with
  | true => rfl
  | false =>
      have hparameter : (fun q : Parameter => q.debugLines options (n + 4)) =
          fun q => (q.outline options).map (Line.render n) := funext fun q => q.debugLines_eq n h
      refine List.cons_eq_cons.2 ⟨hheading, ?_⟩
      rw [List.map_flatMap, hparameter]

/-- **The lines of the debug text follow the outline**, at every indent. -/
theorem debugLines_eq (n : Nat) :
    p.debugLines settings options n = (p.outline settings options).map (Line.render n) := by
  rw [debugLines, outline, List.map_cons]
  refine List.cons_eq_cons.2 ⟨?_, ?_⟩
  · rw [heading, Line.render, Nat.add_zero, String.append_assoc]
  · cases hsingle : options.singleLine with
    | true => rfl
    | false =>
        rw [if_neg Bool.false_ne_true, if_neg Bool.false_ne_true, List.map_append,
          parameterLines_eq n hsingle]
        cases options.includeAnnotations with
        | false => rfl
        | true => rw [if_pos rfl, if_pos rfl, p.annotations.debugLines_eq n 2]

theorem OneLined.displayName (h : p.OneLined settings) : OneLine (p.displayName settings) := by
  unfold Procedure.displayName
  split
  · rename_i schema hschema
    exact oneLine_append.2 ⟨oneLine_append.2 ⟨h.schema _ hschema, by decide⟩, h.name⟩
  · exact h.name

theorem OneLined.parameterOutline (h : p.OneLined settings) :
    ∀ line ∈ p.parameterOutline options, OneLine line.text := by
  have hheading : OneLine "Parameters:" := by decide
  intro line hline
  unfold Procedure.parameterOutline at hline
  split at hline
  · cases hline
  · rcases List.mem_cons.1 hline with rfl | hparameter
    · exact hheading
    · obtain ⟨q, hq, hshown⟩ := List.mem_flatMap.1 hparameter
      exact (h.parameters q hq).outline line hshown

/-- No line of the outline breaks. -/
theorem OneLined.outline (h : p.OneLined settings) :
    ∀ line ∈ p.outline settings options, OneLine line.text := by
  intro line hline
  rcases List.mem_cons.1 hline with rfl | hbelow
  · exact oneLine_append.2 ⟨by decide, h.displayName⟩
  · split at hbelow
    · cases hbelow
    · rcases List.mem_append.1 hbelow with hparameter | hblock
      · exact h.parameterOutline line hparameter
      · split at hblock
        · exact h.annotations.outline 2 line hblock
        · cases hblock

/-! ## Texts -/

/-- **The lines of the debug text** are told apart at every indent. -/
theorem lines_debugText (h : p.OneLined settings) (n : Nat) :
    lines (p.debugText settings options n) = (p.outline settings options).map (Line.render n) := by
  have hne : (p.outline settings options).map (Line.render n) ≠ [] := by simp [Procedure.outline]
  rw [debugText, debugLines_eq, Text.lines_unlines hne]
  intro line hline
  obtain ⟨entry, hentry, rfl⟩ := List.mem_map.1 hline
  exact oneLine_append.2 ⟨oneLine_spaces _, h.outline entry hentry⟩

/-- How the debug text of a procedure is laid out: line by line as its outline says, each line as
far in as the indent says, blocks of annotations by ascending name, and the heading alone where a
single line is wanted, whether or not annotations are. -/
structure LaidOut (p : Procedure) (settings : ModelSettings) (options : DebugOptions) : Prop where
  lines : ∀ n, lines (p.debugText settings options n) =
    (p.outline settings options).map (Line.render n)
  indented : ∀ n, p.debugText settings options n = Text.indent n (p.debugText settings options 0)
  single : options.singleLine = true → ∀ n,
    p.debugText settings options n = spaces n ++ "StoredProcedure: " ++ p.displayName settings
  display : p.display settings = "StoredProcedure: " ++ p.displayName settings
  ascending : p.annotations.toList.Pairwise fun a b => a.1 < b.1
  parameters : ∀ q ∈ p.parameters, q.annotations.toList.Pairwise fun a b => a.1 < b.1

theorem debugText_oneLine (h : options.singleLine = true) (n : Nat) :
    p.debugText settings options n = spaces n ++ "StoredProcedure: " ++ p.displayName settings := by
  rw [debugText, debugLines_oneLine settings p n h, unlines, String.intercalate_singleton, heading]

/-- **The debug text of a procedure follows its outline**, whatever the options and the indent are,
as long as nothing that is shown brings a line feed of its own. -/
theorem debugText_laid_out (h : p.OneLined settings) (options : DebugOptions) :
    LaidOut p settings options where
  lines := lines_debugText h
  indented n := by
    have hrender : (fun line => spaces n ++ line) ∘ Line.render 0 = Line.render n :=
      funext fun line => (line.render_eq n).symm
    rw [Text.indent, lines_debugText h 0, List.map_map, hrender, debugText, debugLines_eq]
  single hsingle n := debugText_oneLine hsingle n
  display := debugText_oneLine rfl 0
  ascending := p.annotations.toList_ascending
  parameters q _ := q.annotations.toList_ascending

/-- A procedure with two annotations, one of them with a line feed that is shown escaped, and with
two parameters, of which the first has a store type and an annotation. -/
def annotated : Procedure :=
  { fresh ⟨0, 0, "Blog"⟩ .insert .explicit with
    schema := .configured (some "dbo") .explicit
    parameters :=
      [{ Parameter.declared "id" .explicit with
          storeType := .configured (some "int") .explicit
          annotations := AnnotationStore.empty.put "Key" (.bool true) .convention },
        .declared "title" .explicit]
    signatureBound := true
    unbound := nofun
    annotations :=
      (AnnotationStore.empty.put "Timeout" (.number (.integer 30)) .explicit).put "Comment"
        (.array [.string "soft\ndelete"]) .explicit }

theorem debugText_laid_out_annotated :
    annotated.OneLined (.ofConfig .standard) ∧
      LaidOut annotated (.ofConfig .standard) .long ∧
      annotated.debugText (.ofConfig .standard) .long 2 =
        "  StoredProcedure: dbo.Blog_Insert\n    Parameters:\n      id int\n        Annotations:\n"
          ++ "          Key: true\n      title\n    Annotations:\n"
          ++ "      Comment: [\"soft\\ndelete\"]\n      Timeout: 30" := by
  have hlined : annotated.OneLined (.ofConfig .standard) := by decide +kernel
  exact ⟨hlined, debugText_laid_out hlined .long, by decide +kernel⟩

end Procedure

end ProcedureMapping
