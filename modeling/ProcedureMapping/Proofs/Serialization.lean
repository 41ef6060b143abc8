import ProcedureMapping.Config
import ProcedureMapping.Proofs.Documents
import ProcedureMapping.Signature
import ProcedureMapping.TypeMapping

/-!
# Settings and their texts

A configuration, a type mapping and a signature are read back from the texts that they are written
as.  What is not given is written as `null` in a configuration and left out of a type mapping, and
either is read as not given; a number fits the type that it was written from.  A configuration that
allows no identifiers is written and read like the others, and refused as invalid.

Main statements:

* `Document.fields?_ofMembers` — which fields an object has;
* `Config.ofDocument?_document`, `TypeMapping.ofDocument?_document`,
  `Signature.ofDocument?_document` — each is read back from its document;
* `settings_readBack` — and from its text.
-/

namespace ProcedureMapping

open Json (Document Piece)

/-! ## Parts of records -/

namespace Json.Document

/-- The object with members under texts. -/
def ofMembers (members : List (String × Document)) : Document :=
  object (members.map fun (k, d) => (Piece.ofString k, d))

theorem keyed?_ofString (members : List (String × Document)) :
    keyed? (members.map fun (k, d) => (Piece.ofString k, d)) = some members := by
  induction members with
  | nil => rfl
  | cons m members ih =>
      simp only [List.map_cons, keyed?, Piece.text?_ofString, ih]
      rfl

/-- **The fields of an object** are its known members, as long as no known key repeats. -/
theorem fields?_ofMembers (names : List String) (members : List (String × Document)) :
    fields? names (ofMembers members) =
      if ((members.filter fun (k, _) => names.contains k).map Prod.fst).Nodup then
        some (members.filter fun (k, _) => names.contains k)
      else none := by
  simp only [ofMembers, fields?, keyed?_ofString]

/-- A part that may be missing is read back where every part is, unless a part looks like one that
is missing. -/
theorem nullable?_ofOption {α : Type} {read : Document → Option α} {write : α → Document}
    (h : ∀ a, read (write a) = some a) (hnull : ∀ a, write a ≠ null) (o : Option α) :
    (ofOption write o).nullable? read = some o := by
  cases o with
  | none => rfl
  | some a =>
      have hpart : (write a).nullable? read = (read (write a)).map some := by
        unfold nullable?
        split
        · next hwrite => exact absurd hwrite (hnull a)
        · rfl
      rw [ofOption, hpart, h]
      rfl

theorem nullable?_ofNat {bound n : Nat} (h : n < bound) :
    (ofNat n).nullable? (nat? bound) = some (some n) := by
  simp [ofNat, nullable?, nat?, h]

theorem required?_of_lookup {α : Type} {fields : List (String × Document)} {name : String}
    {d : Document} (h : fields.lookup name = some d) (read : Document → Option α) :
    required? fields name read = read d := by
  rw [required?, h]

theorem defaulted?_of_lookup {α : Type} {fields : List (String × Document)} {name : String}
    {d : Document} (h : fields.lookup name = some d) (absent : α) (read : Document → Option α) :
    defaulted? fields name absent read = read d := by
  rw [defaulted?, h]

/-- A number that is left out where it is not given is read back. -/
theorem defaulted?_of_lookup_map {fields : List (String × Document)} {name : String}
    {n : Option Nat} {bound : Nat} (h : fields.lookup name = n.map .ofNat)
    (hbound : ∀ k, n = some k → k < bound) :
    defaulted? fields name none (nullable? (nat? bound)) = some n := by
  cases n with
  | none => rw [defaulted?, h, Option.map_none]
  | some k => rw [defaulted?_of_lookup h, nullable?_ofNat (hbound k rfl)]

/-- The members of a record that is written with known keys only, in their order, are its fields. -/
theorem fields?_of_sublist {names : List String} {members : List (String × Document)}
    (hnames : names.Nodup) (h : (members.map Prod.fst).Sublist names) :
    fields? names (ofMembers members) = some members := by
  have hknown : members.filter (fun (k, _) => names.contains k) = members := by
    rw [List.filter_eq_self]
    intro m hm
    have hmem : m.1 ∈ names := h.subset (List.mem_map.2 ⟨m, hm, rfl⟩)
    simpa using hmem
  rw [fields?_ofMembers, hknown, if_pos (hnames.sublist h)]

end Json.Document

/-! ## Records -/

namespace Config

/-- The members that a configuration is written with. -/
def members (c : Config) : List (String × Document) :=
  [("default_schema", .ofOption .ofString c.defaultSchema),
    ("name_separator", .ofString c.nameSeparator),
    ("max_identifier_len", .ofNat c.maxIdentifierLength.toNat)]

theorem document_eq (c : Config) : c.document = .ofMembers c.members := rfl

/-- A configuration is read back from its document. -/
theorem ofDocument?_document (c : Config) : ofDocument? c.document = some c := by
  have hfields : c.document.fields? fieldNames = some c.members := by
    rw [document_eq]
    exact Document.fields?_of_sublist (by decide) (List.Sublist.refl _)
  have hschema : (Document.ofOption Document.ofString c.defaultSchema).nullable?
      Document.string? = some c.defaultSchema :=
    Document.nullable?_ofOption Document.string?_ofString (by simp [Document.ofString]) _
  have hlimit : (Document.ofNat c.maxIdentifierLength.toNat).nat? UInt64.size =
      some c.maxIdentifierLength.toNat :=
    Document.nat?_ofNat c.maxIdentifierLength.toNat_lt_size
  have hfirst : c.members.lookup "default_schema" =
      some (.ofOption .ofString c.defaultSchema) := rfl
  have hsecond : c.members.lookup "name_separator" = some (.ofString c.nameSeparator) := rfl
  have hthird : c.members.lookup "max_identifier_len" =
      some (.ofNat c.maxIdentifierLength.toNat) := rfl
  simp only [ofDocument?, Option.bind_eq_bind, hfields, Option.bind_some,
    Document.defaulted?_of_lookup hfirst, Document.defaulted?_of_lookup hsecond,
    Document.defaulted?_of_lookup hthird, hschema, hlimit, Document.string?_ofString,
    UInt64.ofNat_toNat]

end Config

namespace TypeMapping

/-- The member of a facet, if it is given. -/
def facetMember (name : String) (n : Option Nat) : List (String × Document) :=
  n.toList.map fun n => (name, .ofNat n)

/-- The members that a type mapping is written with. -/
def members (m : TypeMapping) : List (String × Document) :=
  ("store_type", .ofString m.storeType) ::
    (facetMember "size" (m.size.map UInt32.toNat)
      ++ facetMember "precision" (m.precision.map UInt8.toNat)
      ++ facetMember "scale" (m.scale.map UInt8.toNat))

theorem document_eq (m : TypeMapping) : m.document = .ofMembers m.members := by
  have hfacet : ∀ name n, facet name n =
      (facetMember name n).map fun (k, d) => (Piece.ofString k, d) := by
    intro name n
    cases n <;> rfl
  simp only [document, Document.ofMembers, members, hfacet, List.map_cons, List.map_append]

/-- The keys of a type mapping are in order, some of them left out. -/
theorem keys_sublist (m : TypeMapping) : (m.members.map Prod.fst).Sublist fieldNames := by
  have hfacet : ∀ name n, ((facetMember name n).map Prod.fst).Sublist [name] := by
    intro name n
    cases n with
    | none => exact List.nil_sublist [name]
    | some n => exact List.Sublist.refl [name]
  simp only [members, List.map_cons, List.map_append]
  exact (((hfacet _ _).append (hfacet _ _)).append (hfacet _ _)).cons_cons "store_type"

/-- What stands under the keys of a type mapping. -/
theorem lookup_members (m : TypeMapping) :
    m.members.lookup "store_type" = some (.ofString m.storeType) ∧
      m.members.lookup "size" = (m.size.map UInt32.toNat).map .ofNat ∧
      m.members.lookup "precision" = (m.precision.map UInt8.toNat).map .ofNat ∧
      m.members.lookup "scale" = (m.scale.map UInt8.toNat).map .ofNat := by
  obtain ⟨storeType, size, precision, scale⟩ := m
  cases size <;> cases precision <;> cases scale <;> exact ⟨rfl, rfl, rfl, rfl⟩

/-- A type mapping is read back from its document, whichever facets it has. -/
theorem ofDocument?_document (m : TypeMapping) : ofDocument? m.document = some m := by
  have hfields : m.document.fields? fieldNames = some m.members := by
    rw [document_eq]
    exact Document.fields?_of_sublist fieldNames_nodup m.keys_sublist
  obtain ⟨hname, hsize, hprecision, hscale⟩ := m.lookup_members
  have hword : ∀ k, m.size.map UInt32.toNat = some k → k < UInt32.size := by
    intro k hk
    obtain ⟨n, _, rfl⟩ := Option.map_eq_some_iff.1 hk
    exact n.toNat_lt_size
  have hbyte : ∀ (facet : Option UInt8) (k : Nat), facet.map UInt8.toNat = some k →
      k < UInt8.size := by
    intro facet k hk
    obtain ⟨n, _, rfl⟩ := Option.map_eq_some_iff.1 hk
    exact n.toNat_lt_size
  simp only [ofDocument?, Option.bind_eq_bind, hfields, Option.bind_some,
    Document.required?_of_lookup hname, Document.string?_ofString,
    Document.defaulted?_of_lookup_map hsize hword,
    Document.defaulted?_of_lookup_map hprecision (hbyte m.precision),
    Document.defaulted?_of_lookup_map hscale (hbyte m.scale), Option.map_map, Function.comp_def,
    UInt32.ofNat_toNat, UInt8.ofNat_toNat, Option.map_id_fun', id]

end TypeMapping

namespace Signature

/-- The members that a signature is written with. -/
def members (s : Signature) : List (String × Document) :=
  [("parameters", .array (s.parameters.map .ofString))]

theorem document_eq (s : Signature) : s.document = .ofMembers s.members := rfl

/-- A signature is read back from its document, repeated names included. -/
theorem ofDocument?_document (s : Signature) : ofDocument? s.document = some s := by
  have hfields : s.document.fields? fieldNames = some s.members := by
    rw [document_eq]
    exact Document.fields?_of_sublist (by decide) (List.Sublist.refl _)
  have hitems : (Document.array (s.parameters.map Document.ofString)).items? Document.string? =
      some s.parameters :=
    Document.items?_array_map Document.string?_ofString _
  have hlookup : s.members.lookup "parameters" =
      some (.array (s.parameters.map Document.ofString)) := rfl
  simp only [ofDocument?, Option.bind_eq_bind, hfields, Option.bind_some,
    Document.required?_of_lookup hlookup, hitems]

end Signature

/-! ## Texts -/

/-- **Settings are read back from their texts**: a type mapping and a signature are as they were,
and so is a configuration, unless it is refused because it allows no identifiers. -/
theorem settings_readBack (c : Config) (m : TypeMapping) (s : Signature) :
    Config.ofText c.text =
        (if c.maxIdentifierLength = 0 then .error (.invalidConfiguration .zeroIdentifierLength)
          else .ok c) ∧
      (Document.read? m.text).bind TypeMapping.ofDocument? = some m ∧
      (Document.read? s.text).bind Signature.ofDocument? = some s := by
  refine ⟨?_, ?_, ?_⟩
  · have hread : (Document.read? c.text).bind Config.ofDocument? = some c := by
      rw [Config.text, Document.read?_text, Option.bind_some, Config.ofDocument?_document]
    rw [Config.ofText, hread]
    by_cases hlimit : c.maxIdentifierLength = 0 <;> simp [Config.validate, hlimit, Except.map]
  · rw [TypeMapping.text, Document.read?_text, Option.bind_some, TypeMapping.ofDocument?_document]
  · rw [Signature.text, Document.read?_text, Option.bind_some, Signature.ofDocument?_document]

end ProcedureMapping
