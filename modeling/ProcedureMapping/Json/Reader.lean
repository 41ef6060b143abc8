import ProcedureMapping.Json.Document

/-!
# Reading JSON documents

The grammar of JSON texts, as functions that take what they recognise off the front of a list of
characters and hand back the rest.  Only the four blanks of the grammar separate tokens; a
number has no leading zero and no bare point; every escape is a known letter or four hexadecimal
digits; a string holds no bare control character.  What a document means (whether a number fits,
whether surrogates pair up, how deep it may nest) is decided later.

`readValue` and its companions spend one unit of fuel per call; a text has at least one character
for each call, so `read?` gives them its length.

Main statements:

* `hexValue?_hexDigit` — a hexadecimal digit is read back;
* `readUnit?_unitEscape` — an escaped code unit is read back.
-/

namespace ProcedureMapping.Json

open Text (Digit ofDigits takeDigits)

/-- The blanks between tokens. -/
def isSpace (c : Char) : Bool := c = ' ' || c = '\t' || c = '\n' || c = '\r'

/-- Drop the blanks in front. -/
def skipSpace (cs : List Char) : List Char := cs.dropWhile isSpace

/-! ## Numbers -/

/-- Read the fraction part, if a point follows. -/
def readFraction : List Char → Option (List Digit × List Char)
  | '.' :: cs =>
      match takeDigits cs with
      | ([], _) => none
      | (ds, rest) => some (ds, rest)
  | cs => some ([], cs)

/-- Read the sign of an exponent, `true` for minus. -/
def readSign : List Char → Bool × List Char
  | '-' :: cs => (true, cs)
  | '+' :: cs => (false, cs)
  | cs => (false, cs)

/-- Read the signed digits of an exponent. -/
def readExponentDigits (cs : List Char) : Option (Option Int × List Char) :=
  match takeDigits (readSign cs).2 with
  | ([], _) => none
  | (ds, rest) =>
      let e : Int := ofDigits ds
      some (some (if (readSign cs).1 then -e else e), rest)

/-- Read the exponent part, if its mark follows. -/
def readExponent : List Char → Option (Option Int × List Char)
  | 'e' :: cs => readExponentDigits cs
  | 'E' :: cs => readExponentDigits cs
  | cs => some (none, cs)

/-- Read a number whose sign has been read. -/
def readUnsigned (negative : Bool) (cs : List Char) : Option (Numeral × List Char) :=
  let (ds, cs) := takeDigits cs
  if ds.isEmpty || (ds.head? == some Digit.zero && ds.length != 1) then none
  else
    match readFraction cs with
    | none => none
    | some (fraction, cs) =>
        (readExponent cs).map fun (exponent, cs) =>
          (⟨negative, ofDigits ds, fraction, exponent⟩, cs)

/-- Read a number. -/
def readNumeral : List Char → Option (Numeral × List Char)
  | '-' :: cs => readUnsigned true cs
  | cs => readUnsigned false cs

/-! ## Strings -/

/-- The number of a hexadecimal digit. -/
def hexValue? (c : Char) : Option Nat :=
  let n := c.toNat
  if 48 ≤ n && n ≤ 57 then some (n - 48)
  else if 97 ≤ n && n ≤ 102 then some (n - 87)
  else if 65 ≤ n && n ≤ 70 then some (n - 55)
  else none

/-- The number of four hexadecimal digits. -/
def readUnit? (a b c d : Char) : Option Nat := do
  let a ← hexValue? a
  let b ← hexValue? b
  let c ← hexValue? c
  let d ← hexValue? d
  some (a * 4096 + b * 256 + c * 16 + d)

/-- The piece of a code unit. -/
def Piece.ofUnit (unit : Nat) : Piece :=
  if 0xD800 ≤ unit && unit < 0xDC00 then high (Fin.ofNat 1024 (unit - 0xD800))
  else if 0xDC00 ≤ unit && unit < 0xE000 then low (Fin.ofNat 1024 (unit - 0xDC00))
  else char (Char.ofNat unit)

/-- The character that a letter after a backslash stands for. -/
def unescape? : Char → Option Char
  | '"' => some '"'
  | '\\' => some '\\'
  | '/' => some '/'
  | 'b' => some '\x08'
  | 'f' => some '\x0c'
  | 'n' => some '\n'
  | 'r' => some '\r'
  | 't' => some '\t'
  | _ => none

/-- Put a piece in front of what was read after it. -/
def consPiece (p : Piece) : Option (List Piece × List Char) → Option (List Piece × List Char)
  | some (s, rest) => some (p :: s, rest)
  | none => none

/-- Read a string whose opening quote has been read. -/
def readString : List Char → Option (List Piece × List Char)
  | [] => none
  | '"' :: cs => some ([], cs)
  | '\\' :: 'u' :: a :: b :: c :: d :: cs =>
      match readUnit? a b c d with
      | some unit => consPiece (.ofUnit unit) (readString cs)
      | none => none
  | '\\' :: c :: cs =>
      match unescape? c with
      | some c => consPiece (.char c) (readString cs)
      | none => none
  | c :: cs => if c.toNat < 0x20 then none else consPiece (.char c) (readString cs)

/-! ## Values -/

mutual

/-- Read a value; no blanks may stand in front of it. -/
def readValue : Nat → List Char → Option (Document × List Char)
  | 0, _ => none
  | _ + 1, 'n' :: 'u' :: 'l' :: 'l' :: cs => some (.null, cs)
  | _ + 1, 't' :: 'r' :: 'u' :: 'e' :: cs => some (.bool true, cs)
  | _ + 1, 'f' :: 'a' :: 'l' :: 's' :: 'e' :: cs => some (.bool false, cs)
  | _ + 1, '"' :: cs => (readString cs).map fun (s, rest) => (.string s, rest)
  | fuel + 1, '[' :: cs =>
      match skipSpace cs with
      | ']' :: rest => some (.array [], rest)
      | cs => (readItems fuel cs).map fun (items, rest) => (.array items, rest)
  | fuel + 1, '\x7b' :: cs =>
      match skipSpace cs with
      | '\x7d' :: rest => some (.object [], rest)
      | cs => (readMembers fuel cs).map fun (members, rest) => (.object members, rest)
  | _ + 1, cs => (readNumeral cs).map fun (n, rest) => (.number n, rest)

/-- Read the items of an array up to its closing bracket. -/
def readItems : Nat → List Char → Option (List Document × List Char)
  | 0, _ => none
  | fuel + 1, cs =>
      match readValue fuel cs with
      | none => none
      | some (d, cs) =>
          match skipSpace cs with
          | ',' :: cs =>
              (readItems fuel (skipSpace cs)).map fun (items, rest) => (d :: items, rest)
          | ']' :: cs => some ([d], cs)
          | _ => none

/-- Read the members of an object up to its closing brace. -/
def readMembers : Nat → List Char → Option (List (List Piece × Document) × List Char)
  | 0, _ => none
  | fuel + 1, '"' :: cs =>
      match readString cs with
      | none => none
      | some (k, cs) =>
          match skipSpace cs with
          | ':' :: cs =>
              match readValue fuel (skipSpace cs) with
              | none => none
              | some (d, cs) =>
                  match skipSpace cs with
                  | ',' :: cs =>
                      (readMembers fuel (skipSpace cs)).map fun (members, rest) =>
                        ((k, d) :: members, rest)
                  | '\x7d' :: cs => some ([(k, d)], cs)
                  | _ => none
          | _ => none
  | _ + 1, _ => none

end

/-- Read a text that holds one value and nothing else but blanks. -/
def Document.read? (s : String) : Option Document :=
  let cs := skipSpace s.toList
  match readValue (cs.length + 1) cs with
  | some (d, rest) => if (skipSpace rest).isEmpty then some d else none
  | none => none

/-! ## Reading back -/

theorem hexValue?_hexDigit {n : Nat} (h : n < 16) : hexValue? (hexDigit n) = some n := by
  have : ∀ k : Fin 16, hexValue? (hexDigit k.val) = some k.val := by decide
  exact this ⟨n, h⟩

/-- **An escaped code unit is read back.** -/
theorem readUnit?_unitEscape {unit : Nat} (h : unit < 65536) :
    ∃ a b c d, unitEscape unit = ['\\', 'u', a, b, c, d] ∧ readUnit? a b c d = some unit := by
  refine ⟨_, _, _, _, rfl, ?_⟩
  simp only [readUnit?, hexValue?_hexDigit (Nat.mod_lt _ (by decide : 0 < 16)), Option.bind_eq_bind,
    Option.bind_some, Option.some.injEq]
  omega

end ProcedureMapping.Json
