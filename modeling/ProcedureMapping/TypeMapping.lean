import ProcedureMapping.Json.Record

/-!
# Type mappings

How a parameter is mapped to a type of the store: the name of the type, and a size, a precision
and a scale where the type has them.  A mapping is written as a JSON record; facets that are not
given are left out of it.

Main statement: `fieldNames_nodup` — the fields have different names.
-/

namespace ProcedureMapping

/-- A type of the store with its facets. -/
structure TypeMapping where
  storeType : String
  size : Option UInt32
  precision : Option UInt8
  scale : Option UInt8
  deriving DecidableEq

namespace TypeMapping

/-- A type without facets. -/
def ofStoreType (storeType : String) : TypeMapping := ⟨storeType, none, none, none⟩

/-- The mapping with a size. -/
def withSize (m : TypeMapping) (size : UInt32) : TypeMapping := { m with size := some size }

/-- The mapping with a precision and a scale. -/
def withPrecision (m : TypeMapping) (precision scale : UInt8) : TypeMapping :=
  { m with precision := some precision, scale := some scale }

/-- The names of the fields in their order. -/
def fieldNames : List String := ["store_type", "size", "precision", "scale"]

open Json (Document Piece)

/-- The member of a facet, if it is given. -/
def facet (name : String) : Option Nat → List (List Piece × Document)
  | none => []
  | some n => [(Piece.ofString name, Document.ofNat n)]

/-- The JSON document of a mapping. -/
def document (m : TypeMapping) : Document :=
  .object <|
    (Piece.ofString "store_type", Document.ofString m.storeType) ::
      (facet "size" (m.size.map UInt32.toNat) ++ facet "precision" (m.precision.map UInt8.toNat)
        ++ facet "scale" (m.scale.map UInt8.toNat))

/-- The mapping that a document describes. -/
def ofDocument? (d : Document) : Option TypeMapping := do
  let fields ← d.fields? fieldNames
  let storeType ← Document.required? fields "store_type" Document.string?
  let size ← Document.defaulted? fields "size" none
    (Document.nullable? (Document.nat? UInt32.size))
  let precision ← Document.defaulted? fields "precision" none
    (Document.nullable? (Document.nat? UInt8.size))
  let scale ← Document.defaulted? fields "scale" none
    (Document.nullable? (Document.nat? UInt8.size))
  some ⟨storeType, size.map UInt32.ofNat, precision.map UInt8.ofNat, scale.map UInt8.ofNat⟩

/-- The JSON text of a mapping. -/
def text (m : TypeMapping) : String := m.document.text

theorem fieldNames_nodup : fieldNames.Nodup := by decide

end TypeMapping

end ProcedureMapping
