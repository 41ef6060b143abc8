/-!
# Lines

Debug texts are built as lists of lines and joined at the end.

Main statements:

* `toList_spaces`, `spaces_add` — an indent of `n` is `n` spaces, and indents add up;
* `block_replace_iff` — a block tells its lines apart.
-/

namespace ProcedureMapping.Text

/-- An indent of `n` spaces. -/
def spaces (n : Nat) : String := String.ofList (List.replicate n ' ')

/-- Lines with a line feed between them. -/
def unlines (lines : List String) : String := "\n".intercalate lines

/-- Lines with a line feed before each. -/
def block (lines : List String) : String := String.join (lines.map fun line => "\n" ++ line)

theorem toList_spaces (n : Nat) : (spaces n).toList = List.replicate n ' ' := by
  simp [spaces]

/-- Indents add up. -/
theorem spaces_add (m n : Nat) : spaces (m + n) = spaces m ++ spaces n := by
  rw [spaces, ← List.replicate_append_replicate, String.ofList_append, spaces, spaces]

/-- Replacing a line is seen in the block. -/
theorem block_replace_iff {before after : List String} {line line' : String} :
    block (before ++ line :: after) = block (before ++ line' :: after) ↔ line = line' := by
  simp [block, String.join_append, String.join_cons]

end ProcedureMapping.Text
