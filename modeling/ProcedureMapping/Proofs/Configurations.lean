import Mathlib.Data.List.Nodup
import ProcedureMapping.Proofs.Serialization

/-!
# Configuration objects

A configuration object gives settings under their keys, in any order and among other members, whose
keys are those of no setting.  It is read as the standard configuration **overlaid** by the
settings: what is given replaces the standard value, and what is not given keeps it.  The schema may
be given as `null`, and this counts as given.

Each setting is looked for under its key, and writing another setting does not change what is found
there; so neither the order of the members nor the other members among them matter.  A setting may
be given once only.

Main statements:

* `Document.fields?_repeated` — an object that repeats a known key has no fields;
* `Sets.defaulted?_eq` — a field of an object is the field of the overlay;
* `overlay_perm`, `overlay_settings` — what an overlay does not depend on;
* `standard_overlaid` — how configuration objects are read.
-/

namespace ProcedureMapping

open Json (Document)

namespace Json.Document

/-- An object has fields exactly when no known key repeats among its keys. -/
theorem fields?_eq (names : List String) (members : List (String × Document)) :
    fields? names (ofMembers members) =
      if ((members.map Prod.fst).filter names.contains).Nodup then
        some (members.filter fun m => names.contains m.1)
      else none := by
  rw [List.filter_map]
  exact fields?_ofMembers names members

/-- A known key that an object has already makes it unreadable as a record, wherever it is repeated
and whatever stands under it. -/
theorem fields?_repeated {names : List String} {key : String}
    {before after : List (String × Document)} (hkey : key ∈ names)
    (hagain : key ∈ (before ++ after).map Prod.fst) (value : Document) :
    fields? names (ofMembers (before ++ (key, value) :: after)) = none := by
  have hknown : names.contains key = true := by simpa using hkey
  have hperm : ((before ++ (key, value) :: after).map Prod.fst).Perm
      (key :: (before ++ after).map Prod.fst) := List.perm_middle.map Prod.fst
  rw [fields?_eq, if_neg]
  intro hnodup
  rw [(hperm.filter _).nodup_iff, List.filter_cons_of_pos hknown, List.nodup_cons] at hnodup
  exact hnodup.1 (List.mem_filter.2 ⟨hagain, hknown⟩)

end Json.Document

namespace Config

/-- A member of a configuration object: one of the settings, or any document under a key that is the
key of none of them. -/
inductive Member where
  | defaultSchema (schema : Option String)
  | nameSeparator (separator : String)
  | maxIdentifierLength (limit : UInt64) (positive : limit ≠ 0)
  | other (key : String) (value : Document) (unknown : key ∉ fieldNames)

namespace Member

/-- The key of a member, and the document under it. -/
def entry : Member → String × Document
  | defaultSchema schema => ("default_schema", .ofOption .ofString schema)
  | nameSeparator separator => ("name_separator", .ofString separator)
  | maxIdentifierLength limit _ => ("max_identifier_len", .ofNat limit.toNat)
  | other key value _ => (key, value)

/-- The key of a member. -/
def key (m : Member) : String := m.entry.1

/-- Whether a member is one of the settings. -/
def isSetting (m : Member) : Bool := fieldNames.contains m.key

/-- A configuration with the setting of a member in the place of its own. -/
def put (m : Member) (c : Config) : Config :=
  match m with
  | defaultSchema schema => { c with defaultSchema := schema }
  | nameSeparator separator => { c with nameSeparator := separator }
  | maxIdentifierLength limit _ => { c with maxIdentifierLength := limit }
  | other _ _ _ => c

theorem key_other_ne {key name : String} {value : Document} (unknown : key ∉ fieldNames)
    (hname : name ∈ fieldNames) : (other key value unknown).key ≠ name := by
  rintro rfl
  exact unknown hname

/-- Different settings are put in any order. -/
theorem put_comm {m m' : Member} (h : m.key ≠ m'.key) (c : Config) :
    m.put (m'.put c) = m'.put (m.put c) := by
  cases m with
  | defaultSchema =>
      cases m' with
      | defaultSchema => exact absurd rfl h
      | _ => rfl
  | nameSeparator =>
      cases m' with
      | nameSeparator => exact absurd rfl h
      | _ => rfl
  | maxIdentifierLength =>
      cases m' with
      | maxIdentifierLength => exact absurd rfl h
      | _ => rfl
  | other => rfl

/-- What is no setting puts nothing in. -/
theorem put_of_not_isSetting {m : Member} (h : m.isSetting = false) (c : Config) :
    m.put c = c := by
  cases m with
  | other => rfl
  | _ => cases h

end Member

/-- The settings among members. -/
def settings (members : List Member) : List Member := members.filter Member.isSetting

/-- The standard configuration overlaid by the settings among members. -/
def overlay (members : List Member) : Config := members.foldr Member.put standard

/-- The compact text of the object with the given members. -/
def objectText (members : List Member) : String :=
  (Document.ofMembers (members.map Member.entry)).text

variable {members : List Member}

/-! ## Overlays -/

theorem overlay_cons (m : Member) (members : List Member) :
    overlay (m :: members) = m.put (overlay members) := rfl

/-- An overlay does not depend on what is no setting. -/
theorem overlay_settings (members : List Member) :
    overlay (settings members) = overlay members := by
  induction members with
  | nil => rfl
  | cons m members ih =>
      by_cases hm : m.isSetting = true
      · rw [settings, List.filter_cons_of_pos hm, overlay_cons, overlay_cons, ← ih, settings]
      · rw [settings, List.filter_cons_of_neg hm, overlay_cons,
          Member.put_of_not_isSetting (Bool.eq_false_iff.2 hm), ← ih, settings]

/-- An overlay does not depend on the order of settings that are given once each. -/
theorem overlay_perm {others : List Member} (h : members.Perm others)
    (honce : (members.map Member.key).Nodup) : overlay members = overlay others := by
  refine h.foldr_eq' ?_ standard
  intro m hm m' hm' c
  by_cases hkey : m.key = m'.key
  · obtain rfl : m = m' := List.inj_on_of_nodup_map honce hm hm' hkey
    rfl
  · exact (Member.put_comm hkey c).symm

/-- Every overlay is valid. -/
theorem validate_overlay (members : List Member) : (overlay members).validate = .ok () := by
  rw [validate_eq_ok_iff]
  induction members with
  | nil => decide
  | cons m members ih =>
      cases m with
      | maxIdentifierLength limit positive => exact positive
      | _ => exact ih

/-! ## Reading -/

/-- What is read under the key `name` is what a member under it puts into a field, and the other
members leave this field alone. -/
structure Sets {α : Type} (name : String) (read : Document → Option α) (field : Config → α) :
    Prop where
  given : ∀ m : Member, m.key = name → ∀ c, read m.entry.2 = some (field (m.put c))
  kept : ∀ m : Member, m.key ≠ name → ∀ c, field (m.put c) = field c

theorem sets_defaultSchema :
    Sets "default_schema" (Document.nullable? Document.string?) defaultSchema where
  given m hm c := by
    cases m with
    | defaultSchema schema =>
        exact Document.nullable?_ofOption Document.string?_ofString (by simp [Document.ofString]) _
    | other key value unknown => exact absurd hm (Member.key_other_ne unknown (by decide))
    | _ => simp [Member.key, Member.entry] at hm
  kept m hm c := by
    cases m with
    | defaultSchema => exact absurd rfl hm
    | _ => rfl

theorem sets_nameSeparator : Sets "name_separator" Document.string? nameSeparator where
  given m hm c := by
    cases m with
    | nameSeparator separator => exact Document.string?_ofString separator
    | other key value unknown => exact absurd hm (Member.key_other_ne unknown (by decide))
    | _ => simp [Member.key, Member.entry] at hm
  kept m hm c := by
    cases m with
    | nameSeparator => exact absurd rfl hm
    | _ => rfl

theorem sets_maxIdentifierLength :
    Sets "max_identifier_len" (Document.nat? UInt64.size) (·.maxIdentifierLength.toNat) where
  given m hm c := by
    cases m with
    | maxIdentifierLength limit => exact Document.nat?_ofNat limit.toNat_lt_size
    | other key value unknown => exact absurd hm (Member.key_other_ne unknown (by decide))
    | _ => simp [Member.key, Member.entry] at hm
  kept m hm c := by
    cases m with
    | maxIdentifierLength => exact absurd rfl hm
    | _ => rfl

/-- **A field of an object is that of the overlay.** -/
theorem Sets.defaulted?_eq {α : Type} {name : String} {read : Document → Option α}
    {field : Config → α} (h : Sets name read field) (members : List Member) :
    Document.defaulted? (members.map Member.entry) name (field standard) read =
      some (field (overlay members)) := by
  induction members with
  | nil => rfl
  | cons m members ih =>
      -- Of two members under one key the first is found, and it is also the last to be put in.
      by_cases hkey : m.key = name
      · have hlookup : ((m :: members).map Member.entry).lookup name = some m.entry.2 := by
          subst hkey
          exact List.lookup_cons_self
        rw [Document.defaulted?_of_lookup hlookup, overlay_cons, h.given m hkey]
      · have hskip : (name == m.entry.1) = false := by
          rw [beq_eq_false_iff_ne]
          exact fun heq => hkey heq.symm
        rw [overlay_cons, h.kept m hkey, ← ih, List.map_cons, Document.defaulted?, List.lookup_cons,
          hskip]
        rfl

/-- The fields of an object are its settings, if each is given once. -/
theorem fields?_members (honce : ((settings members).map Member.key).Nodup) :
    (Document.ofMembers (members.map Member.entry)).fields? fieldNames =
      some ((settings members).map Member.entry) := by
  have hknown : (members.map Member.entry).filter (fun m => fieldNames.contains m.1) =
      (settings members).map Member.entry := List.filter_map
  have hkeys : ((members.map Member.entry).map Prod.fst).filter fieldNames.contains =
      (settings members).map Member.key := by
    rw [List.map_map, List.filter_map]
    rfl
  rw [Document.fields?_eq, hknown, hkeys, if_pos honce]

/-- An object that gives each setting once is read as the overlay. -/
theorem ofDocument?_members (honce : ((settings members).map Member.key).Nodup) :
    ofDocument? (Document.ofMembers (members.map Member.entry)) = some (overlay members) := by
  have hschema := sets_defaultSchema.defaulted?_eq (settings members)
  have hseparator := sets_nameSeparator.defaulted?_eq (settings members)
  have hlimit := sets_maxIdentifierLength.defaulted?_eq (settings members)
  simp only [ofDocument?, Option.bind_eq_bind, fields?_members honce, Option.bind_some, hschema,
    hseparator, hlimit, overlay_settings, UInt64.ofNat_toNat]

/-- How the object with the given members is read: as the overlay; as any other object with the same
settings is, whatever their order and whatever stands beside them; and as no configuration once one
of its settings is repeated. -/
structure Overlaid (members : List Member) : Prop where
  read : ofText (objectText members) = .ok (overlay members)
  same : ∀ others, (settings others).Perm (settings members) →
    ofText (objectText others) = ofText (objectText members)
  repeated : ∀ m ∈ settings members, ∀ value before after,
    members.map Member.entry = before ++ after →
      ofText (Document.ofMembers (before ++ (m.key, value) :: after)).text =
        .error (.invalidConfiguration .unreadable)

theorem ofText_objectText (honce : ((settings members).map Member.key).Nodup) :
    ofText (objectText members) = .ok (overlay members) := by
  rw [ofText, objectText, Document.read?_text, Option.bind_some, ofDocument?_members honce]
  simp only [validate_overlay, Except.map]

/-- **A configuration object overlays the standard configuration**, whatever its members are and
however they are ordered, as long as no setting is given twice. -/
theorem standard_overlaid (honce : ((settings members).map Member.key).Nodup) :
    Overlaid members where
  read := ofText_objectText honce
  same := by
    intro others hperm
    have honce' : ((settings others).map Member.key).Nodup := (hperm.map _).nodup_iff.2 honce
    rw [ofText_objectText honce, ofText_objectText honce', ← overlay_settings others,
      overlay_perm hperm honce', overlay_settings]
  repeated := by
    intro m hm value before after hsplit
    obtain ⟨hmem, hsetting⟩ := List.mem_filter.1 hm
    have hkey : m.key ∈ fieldNames := by simpa [Member.isSetting] using hsetting
    have hagain : m.key ∈ (before ++ after).map Prod.fst := by
      rw [← hsplit]
      exact List.mem_map.2 ⟨m.entry, List.mem_map.2 ⟨m, hmem, rfl⟩, rfl⟩
    rw [ofText, Document.read?_text, Option.bind_some, ofDocument?, Option.bind_eq_bind,
      Document.fields?_repeated hkey hagain, Option.bind_none]

/-- Two settings among members that are none, the last under a key that differs from that of a
setting only in case. -/
def mixed : List Member :=
  [.other "note" (.array [.object [], .null]) (by decide), .maxIdentifierLength 64 (by decide),
    .other "Name_Separator" .null (by decide), .defaultSchema (some "sales")]

theorem standard_overlaid_mixed :
    ((settings mixed).map Member.key).Nodup ∧ Overlaid mixed ∧
      overlay mixed = ⟨some "sales", "_", 64⟩ := by
  have honce : ((settings mixed).map Member.key).Nodup := by decide
  exact ⟨honce, standard_overlaid honce, rfl⟩

end Config

end ProcedureMapping
