import ProcedureMapping.Text.Digits

/-!
# JSON documents

A **document** is a JSON text taken apart but not yet interpreted: members stay in the order
written and may repeat a key, numbers stay numerals, and strings stay sequences of characters and
escaped surrogates, since not every sequence of surrogates is a text.

`Document.render` writes a document compactly: no spaces, and only those characters escaped that
have to be.

Main statements:

* `Piece.decode?_chars` — a sequence of characters stands for itself;
* `Piece.text?_ofString` — a text is read back from its pieces.
-/

namespace ProcedureMapping.Json

open Text (Digit digits)

/-- A number as written: sign, digits before and after the point, and the exponent, if any. -/
structure Numeral where
  negative : Bool
  whole : Nat
  fraction : List Digit
  exponent : Option Int
  deriving DecidableEq

/-- A piece of a string as written: a character, escaped or not, or one escaped half of a
surrogate pair. -/
inductive Piece where
  | char (c : Char)
  | high (bits : Fin 1024)
  | low (bits : Fin 1024)
  deriving DecidableEq

/-- A JSON text taken apart. -/
inductive Document where
  | null
  | bool (b : Bool)
  | number (n : Numeral)
  | string (s : List Piece)
  | array (items : List Document)
  | object (members : List (List Piece × Document))

namespace Numeral

/-- The exponent part of a numeral, with its sign always written. -/
def renderExponent : Option Int → List Char
  | none => []
  | some e =>
      'e' :: (if e < 0 then '-' else '+') :: (digits e.natAbs).map Digit.toChar

/-- The fraction part of a numeral; a point stands only before digits. -/
def renderFraction : List Digit → List Char
  | [] => []
  | d :: ds => '.' :: (d :: ds).map Digit.toChar

/-- The text of a numeral. -/
def render (n : Numeral) : List Char :=
  (if n.negative then ['-'] else []) ++ (digits n.whole).map Digit.toChar
    ++ renderFraction n.fraction ++ renderExponent n.exponent

end Numeral

/-- The lower-case hexadecimal digit of a number below sixteen. -/
def hexDigit (n : Nat) : Char := if n < 10 then Char.ofNat (48 + n) else Char.ofNat (87 + n)

/-- The escape of a code unit by its number. -/
def unitEscape (unit : Nat) : List Char :=
  ['\\', 'u', hexDigit (unit / 4096 % 16), hexDigit (unit / 256 % 16), hexDigit (unit / 16 % 16),
    hexDigit (unit % 16)]

namespace Piece

/-- The text of a piece.  Quotes, backslashes and control characters are escaped, the common ones
by a letter. -/
def render : Piece → List Char
  | char c =>
      if c = '"' then ['\\', '"']
      else if c = '\\' then ['\\', '\\']
      else if c = '\x08' then ['\\', 'b']
      else if c = '\x0c' then ['\\', 'f']
      else if c = '\n' then ['\\', 'n']
      else if c = '\r' then ['\\', 'r']
      else if c = '\t' then ['\\', 't']
      else if c.toNat < 0x20 then unitEscape c.toNat
      else [c]
  | high bits => unitEscape (0xD800 + bits.val)
  | low bits => unitEscape (0xDC00 + bits.val)

/-- The pieces of a text. -/
def ofString (s : String) : List Piece := s.toList.map char

/-- The characters that pieces stand for.  A high half has to be followed by a low half, and a low
half has to follow a high one. -/
def decode? : List Piece → Option (List Char)
  | [] => some []
  | char c :: rest => (decode? rest).map (c :: ·)
  | high h :: low l :: rest =>
      (decode? rest).map (Char.ofNat (0x10000 + 0x400 * h.val + l.val) :: ·)
  | _ => none

/-- The text that pieces stand for. -/
def text? (s : List Piece) : Option String := (decode? s).map String.ofList

/-- A sequence of characters stands for itself. -/
theorem decode?_chars (cs : List Char) : decode? (cs.map char) = some cs := by
  induction cs with
  | nil => rfl
  | cons c cs ih => simp [decode?, ih]

/-- A text is read back from its pieces. -/
@[simp] theorem text?_ofString (s : String) : text? (ofString s) = some s := by
  simp [text?, ofString, decode?_chars]

end Piece

/-- The text of a string. -/
def renderString (s : List Piece) : List Char := '"' :: s.flatMap Piece.render ++ ['"']

namespace Document

mutual

/-- The compact text of a document. -/
def render : Document → List Char
  | null => ['n', 'u', 'l', 'l']
  | bool true => ['t', 'r', 'u', 'e']
  | bool false => ['f', 'a', 'l', 's', 'e']
  | number n => n.render
  | string s => renderString s
  | array items => '[' :: renderItems items
  | object members => '\x7b' :: renderMembers members

/-- The rest of an array after its opening bracket. -/
def renderItems : List Document → List Char
  | [] => [']']
  | [d] => render d ++ [']']
  | d :: e :: rest => render d ++ ',' :: renderItems (e :: rest)

/-- The rest of an object after its opening brace. -/
def renderMembers : List (List Piece × Document) → List Char
  | [] => ['\x7d']
  | [(k, d)] => renderString k ++ ':' :: (render d ++ ['\x7d'])
  | (k, d) :: m :: rest => renderString k ++ ':' :: (render d ++ ',' :: renderMembers (m :: rest))

end

/-- The compact text of a document. -/
def text (d : Document) : String := String.ofList d.render

/-- The document of a text. -/
def ofString (s : String) : Document := string (Piece.ofString s)

/-- The document of a natural number. -/
def ofNat (n : Nat) : Document := number ⟨false, n, [], none⟩

/-- The document of an optional part. -/
def ofOption {α : Type} (f : α → Document) : Option α → Document
  | none => null
  | some a => f a

mutual

/-- How many arrays and objects a document nests. -/
def depth : Document → Nat
  | array items => itemsDepth items + 1
  | object members => membersDepth members + 1
  | _ => 0

/-- The depth of the deepest item. -/
def itemsDepth : List Document → Nat
  | [] => 0
  | d :: rest => max (depth d) (itemsDepth rest)

/-- The depth of the deepest member. -/
def membersDepth : List (List Piece × Document) → Nat
  | [] => 0
  | (_, d) :: rest => max (depth d) (membersDepth rest)

end

end Document

end ProcedureMapping.Json
