import ProcedureMapping.Json.Reader

/-!
# Documents and their texts

The compact text of a document tells the document.  The reader takes the text of a document off the
front of whatever follows it there: nothing, a comma or a closing bracket.  Digits are followed by
no digit, an escape is as long as its first letters say, and a value never starts like the end of a
list, so at each place there is one way to read on.

Main statements:

* `readNumeral_render`, `readString_render` — numbers and strings are read back;
* `readValue_render` — a document is read back, with more fuel than its text is long;
* `read?_text` — the text of a document is read back as the document.
-/

namespace ProcedureMapping.Json

open Text (Digit digits digits_ne_nil head?_digits_ne_zero ofDigits ofDigits_digits takeDigits
  takeDigits_append)

/-- Whether a text may follow a value: it is empty, or it starts with a comma or with a closing
bracket or brace. -/
def Delimited (rest : List Char) : Prop :=
  ∀ c, rest.head? = some c → c = ',' ∨ c = ']' ∨ c = '\x7d'

theorem delimited_nil : Delimited [] := by
  intro c hc
  cases hc

theorem delimited_cons {c : Char} (h : c = ',' ∨ c = ']' ∨ c = '\x7d') (cs : List Char) :
    Delimited (c :: cs) := by
  intro d hd
  obtain rfl : c = d := Option.some.inj hd
  exact h

variable {rest : List Char}

/-! ## Numbers -/

section Numbers

/-- Neither a digit nor a point follows the fraction. -/
theorem head?_exponent (h : Delimited rest) (e : Option Int) {c : Char}
    (hc : (Numeral.renderExponent e ++ rest).head? = some c) :
    Digit.ofChar? c = none ∧ c ≠ '.' := by
  cases e with
  | none => rcases h c hc with rfl | rfl | rfl <;> exact ⟨rfl, by decide⟩
  | some e =>
      obtain rfl : 'e' = c := Option.some.inj hc
      exact ⟨rfl, by decide⟩

/-- No digit follows the digits before the point. -/
theorem head?_fraction (h : Delimited rest) (ds : List Digit) (e : Option Int) {c : Char}
    (hc : (Numeral.renderFraction ds ++ (Numeral.renderExponent e ++ rest)).head? = some c) :
    Digit.ofChar? c = none := by
  cases ds with
  | nil => exact (head?_exponent h e hc).1
  | cons d ds =>
      obtain rfl : '.' = c := Option.some.inj hc
      rfl

theorem readExponentDigits_render (h : Delimited rest) (e : Int) :
    readExponentDigits
      ((if e < 0 then '-' else '+') :: ((digits e.natAbs).map Digit.toChar ++ rest)) =
        some (some e, rest) := by
  have hdigit : ∀ c, rest.head? = some c → Digit.ofChar? c = none := by
    intro c hc
    exact (head?_exponent h none hc).1
  have htake := takeDigits_append (digits e.natAbs) hdigit
  have hsplit : ∀ {ds : List Digit}, digits e.natAbs = ds → ds ≠ [] := by
    rintro ds rfl
    exact digits_ne_nil _
  by_cases hneg : e < 0
  · rw [if_pos hneg, readExponentDigits]
    simp only [readSign, htake]
    cases hds : digits e.natAbs with
    | nil => exact absurd rfl (hsplit hds)
    | cons d ds =>
        have hvalue : -(ofDigits (d :: ds) : Int) = e := by
          rw [← hds, ofDigits_digits]
          omega
        simp only [if_true, hvalue]
  · rw [if_neg hneg, readExponentDigits]
    simp only [readSign, htake]
    cases hds : digits e.natAbs with
    | nil => exact absurd rfl (hsplit hds)
    | cons d ds =>
        have hvalue : (ofDigits (d :: ds) : Int) = e := by
          rw [← hds, ofDigits_digits]
          omega
        simp [hvalue]

theorem readExponent_render (h : Delimited rest) (e : Option Int) :
    readExponent (Numeral.renderExponent e ++ rest) = some (e, rest) := by
  cases e with
  | some e => exact readExponentDigits_render h e
  | none =>
      cases rest with
      | nil => rfl
      | cons c cs => rcases h c rfl with rfl | rfl | rfl <;> rfl

theorem readFraction_render (h : Delimited rest) (ds : List Digit) (e : Option Int) :
    readFraction (Numeral.renderFraction ds ++ (Numeral.renderExponent e ++ rest)) =
      some (ds, Numeral.renderExponent e ++ rest) := by
  cases ds with
  | nil =>
      cases htail : Numeral.renderExponent e ++ rest with
      | nil => rfl
      | cons c cs =>
          have hpoint : c ≠ '.' := (head?_exponent h e (by rw [htail]; rfl)).2
          simp [Numeral.renderFraction, readFraction, hpoint]
  | cons d ds =>
      have htake := takeDigits_append (d :: ds) fun c hc => (head?_exponent h e hc).1
      simp only [Numeral.renderFraction, List.cons_append, readFraction, htake]

/-- The digits of a number start with a zero only where they are a single one. -/
theorem digits_leading (n : Nat) :
    ((digits n).isEmpty || ((digits n).head? == some Digit.zero && (digits n).length != 1)) =
      false := by
  have hnonempty : (digits n).isEmpty = false := by simpa using digits_ne_nil n
  rw [hnonempty, Bool.false_or]
  by_cases hn : n = 0
  · subst hn
    rw [digits]
    rfl
  · have hhead : ((digits n).head? == some Digit.zero) = false := by
      simpa using head?_digits_ne_zero (Nat.pos_of_ne_zero hn)
    rw [hhead, Bool.false_and]

theorem readUnsigned_render (h : Delimited rest) (n : Numeral) :
    readUnsigned n.negative ((digits n.whole).map Digit.toChar ++
      (Numeral.renderFraction n.fraction ++ (Numeral.renderExponent n.exponent ++ rest))) =
        some (n, rest) := by
  have htake := takeDigits_append (digits n.whole)
    fun c hc => head?_fraction h n.fraction n.exponent hc
  simp only [readUnsigned, htake, digits_leading, readFraction_render h, readExponent_render h,
    ofDigits_digits, Option.map_some, Bool.false_eq_true, if_false]

/-- A digit is none of the characters that start another value. -/
theorem toChar_ne (d : Digit) {c : Char} (hc : Digit.ofChar? c = none) : d.toChar ≠ c := by
  rintro rfl
  rw [Digit.ofChar?_toChar] at hc
  cases hc

/-- **A number is read back.** -/
theorem readNumeral_render (h : Delimited rest) (n : Numeral) :
    readNumeral (n.render ++ rest) = some (n, rest) := by
  have hread := readUnsigned_render h n
  cases hneg : n.negative with
  | true =>
      rw [hneg] at hread
      simpa [Numeral.render, hneg, readNumeral] using hread
  | false =>
      rw [hneg] at hread
      cases hds : digits n.whole with
      | nil => exact absurd hds (digits_ne_nil _)
      | cons d ds =>
          have hminus : d.toChar ≠ '-' := toChar_ne d rfl
          rw [hds] at hread
          simpa [Numeral.render, hneg, hds, readNumeral, hminus] using hread

/-- A number starts with a digit or a minus sign. -/
theorem exists_head_numeral (n : Numeral) : ∃ c cs, n.render = c :: cs ∧
    (c = '-' ∨ ∃ d : Digit, c = d.toChar) := by
  cases hds : digits n.whole with
  | nil => exact absurd hds (digits_ne_nil _)
  | cons d ds =>
      by_cases hneg : n.negative = true
      · exact ⟨'-', _, by simp [Numeral.render, hneg]; rfl, .inl rfl⟩
      · exact ⟨d.toChar, _, by simp [Numeral.render, hneg, hds]; rfl, .inr ⟨d, rfl⟩⟩

end Numbers

/-! ## Strings -/

theorem ofUnit_high (bits : Fin 1024) : Piece.ofUnit (0xD800 + bits.val) = .high bits := by
  have hrange : (decide (0xD800 ≤ 0xD800 + bits.val) && decide (0xD800 + bits.val < 0xDC00)) =
      true := by
    simp only [Bool.and_eq_true, decide_eq_true_eq]
    omega
  rw [Piece.ofUnit, if_pos hrange, Nat.add_sub_cancel_left]
  exact congrArg Piece.high (Fin.ext (Nat.mod_eq_of_lt bits.isLt))

theorem ofUnit_low (bits : Fin 1024) : Piece.ofUnit (0xDC00 + bits.val) = .low bits := by
  have hhigh : ¬ (decide (0xD800 ≤ 0xDC00 + bits.val) && decide (0xDC00 + bits.val < 0xDC00)) =
      true := by
    simp only [Bool.and_eq_true, decide_eq_true_eq]
    omega
  have hrange : (decide (0xDC00 ≤ 0xDC00 + bits.val) && decide (0xDC00 + bits.val < 0xE000)) =
      true := by
    simp only [Bool.and_eq_true, decide_eq_true_eq]
    omega
  rw [Piece.ofUnit, if_neg hhigh, if_pos hrange, Nat.add_sub_cancel_left]
  exact congrArg Piece.low (Fin.ext (Nat.mod_eq_of_lt bits.isLt))

/-- A piece is taken off the front. -/
theorem readString_piece (p : Piece) (cs : List Char) :
    readString (p.render ++ cs) = consPiece p (readString cs) := by
  have hunit : ∀ unit < 65536, readString (unitEscape unit ++ cs) =
      consPiece (.ofUnit unit) (readString cs) := by
    intro unit hlt
    obtain ⟨a, b, c, d, hescape, hvalue⟩ := readUnit?_unitEscape hlt
    simp only [hescape, List.cons_append, List.nil_append, readString, hvalue]
  cases p with
  | high bits => rw [Piece.render, hunit _ (by omega), ofUnit_high]
  | low bits => rw [Piece.render, hunit _ (by omega), ofUnit_low]
  | char c =>
      by_cases hletter : c = '"' ∨ c = '\\' ∨ c = '\x08' ∨ c = '\x0c' ∨ c = '\n' ∨ c = '\r' ∨
          c = '\t'
      · rcases hletter with rfl | rfl | rfl | rfl | rfl | rfl | rfl <;> rfl
      · simp only [not_or] at hletter
        obtain ⟨hquote, hslash, h₁, h₂, h₃, h₄, h₅⟩ := hletter
        simp only [Piece.render, hquote, hslash, h₁, h₂, h₃, h₄, h₅, if_false]
        by_cases hcontrol : c.toNat < 0x20
        · have hof : Piece.ofUnit c.toNat = .char c := by
            have hlow : ¬ 0xD800 ≤ c.toNat := by omega
            have hhigh : ¬ 0xDC00 ≤ c.toNat := by omega
            simp [Piece.ofUnit, hlow, hhigh, Char.ofNat_toNat]
          rw [if_pos hcontrol, hunit _ (by omega), hof]
        · rw [if_neg hcontrol, List.singleton_append]
          simp [readString, hslash, hcontrol]

/-- **A string is read back.** -/
theorem readString_render (s : List Piece) (rest : List Char) :
    readString (s.flatMap Piece.render ++ '"' :: rest) = some (s, rest) := by
  induction s with
  | nil => rfl
  | cons p s ih =>
      rw [List.flatMap_cons, List.append_assoc, readString_piece, ih]
      rfl

/-! ## Documents -/

namespace Document

/-- A value starts neither with a blank nor with a closing bracket. -/
theorem exists_head (d : Document) :
    ∃ c cs, d.render = c :: cs ∧ isSpace c = false ∧ c ≠ ']' := by
  cases d with
  | number n =>
      obtain ⟨c, cs, hrender, rfl | ⟨d, rfl⟩⟩ := exists_head_numeral n
      · exact ⟨'-', cs, hrender, rfl, by decide⟩
      · refine ⟨d.toChar, cs, hrender, ?_, toChar_ne d rfl⟩
        simp [isSpace, toChar_ne d (c := ' ') rfl, toChar_ne d (c := '\t') rfl,
          toChar_ne d (c := '\n') rfl, toChar_ne d (c := '\r') rfl]
  | bool b => cases b <;> exact ⟨_, _, rfl, rfl, by decide⟩
  | _ => exact ⟨_, _, rfl, rfl, by decide⟩

end Document

theorem skipSpace_cons {c : Char} (h : isSpace c = false) (cs : List Char) :
    skipSpace (c :: cs) = c :: cs := by
  simp [skipSpace, h]

/-- No blanks stand in front of a value. -/
theorem skipSpace_render (d : Document) (rest : List Char) :
    skipSpace (d.render ++ rest) = d.render ++ rest := by
  obtain ⟨c, cs, hrender, hspace, _⟩ := d.exists_head
  rw [hrender, List.cons_append, skipSpace_cons hspace]

/-- What starts like a number is read as one. -/
theorem readValue_numeral (fuel : Nat) (n : Numeral) (rest : List Char) :
    readValue (fuel + 1) (n.render ++ rest) =
      (readNumeral (n.render ++ rest)).map fun (n, rest) => (.number n, rest) := by
  obtain ⟨c, cs, hrender, hc⟩ := exists_head_numeral n
  have hother : ∀ k, Digit.ofChar? k = none → k ≠ '-' → c ≠ k := by
    intro k hk hminus
    rcases hc with rfl | ⟨d, rfl⟩
    · exact hminus.symm
    · exact toChar_ne d hk
  rw [hrender, List.cons_append, readValue]
  all_goals
    intro cs heq
    exact hother _ rfl (by decide) (List.cons.inj heq).1

namespace Document

/-- A list of items starts like its first item. -/
theorem exists_head_items (d : Document) (ds : List Document) :
    ∃ c cs, renderItems (d :: ds) = c :: cs ∧ isSpace c = false ∧ c ≠ ']' := by
  obtain ⟨c, cs, hrender, hhead⟩ := d.exists_head
  cases ds with
  | nil => exact ⟨c, cs ++ [']'], by rw [renderItems, hrender]; rfl, hhead⟩
  | cons e ds =>
      exact ⟨c, cs ++ ',' :: renderItems (e :: ds), by rw [renderItems, hrender]; rfl, hhead⟩

/-- A list of members starts with the quote of its first key. -/
theorem exists_head_members (m : List Piece × Document) (ms : List (List Piece × Document)) :
    ∃ cs, renderMembers (m :: ms) = '"' :: cs := by
  cases ms with
  | nil => exact ⟨_, rfl⟩
  | cons m' ms => exact ⟨_, rfl⟩

/-- The key of a member is taken off the front, with its colon. -/
theorem readMembers_key (fuel : Nat) (k : List Piece) (cs rest : List Char) :
    readMembers (fuel + 1) (renderString k ++ ':' :: cs ++ rest) =
      match readValue fuel (skipSpace (cs ++ rest)) with
      | none => none
      | some (d, cs) =>
          match skipSpace cs with
          | ',' :: cs =>
              (readMembers fuel (skipSpace cs)).map fun (members, rest) => ((k, d) :: members, rest)
          | '\x7d' :: cs => some ([(k, d)], cs)
          | _ => none := by
  have hkey : renderString k ++ ':' :: cs ++ rest =
      '"' :: (k.flatMap Piece.render ++ '"' :: ':' :: (cs ++ rest)) := by
    simp [renderString]
  rw [hkey, readMembers, readString_render]
  rfl

mutual

/-- **A document is read back** off the front of what may follow it. -/
theorem readValue_render : (d : Document) → ∀ {fuel : Nat} {rest : List Char},
    d.render.length < fuel → Delimited rest → readValue fuel (d.render ++ rest) = some (d, rest)
  | null, fuel + 1, _, _, _ => rfl
  | bool true, fuel + 1, _, _, _ => rfl
  | bool false, fuel + 1, _, _, _ => rfl
  | string s, fuel + 1, rest, _, _ => by
      simp [render, renderString, readValue, readString_render]
  | number n, fuel + 1, rest, _, hrest => by
      rw [render, readValue_numeral, readNumeral_render hrest]
      rfl
  | array [], fuel + 1, _, _, _ => rfl
  | array (d :: ds), fuel + 1, rest, hfuel, _ => by
      have hlength : (renderItems (d :: ds)).length < fuel := by simpa [render] using hfuel
      have hread := readItems_render d ds hlength rest
      obtain ⟨c, cs, hrender, hspace, hclose⟩ := exists_head_items d ds
      rw [hrender, List.cons_append] at hread
      rw [render, hrender, List.cons_append, List.cons_append, readValue, skipSpace_cons hspace]
      simp [hclose, hread]
  | object [], fuel + 1, _, _, _ => rfl
  | object (m :: ms), fuel + 1, rest, hfuel, _ => by
      have hlength : (renderMembers (m :: ms)).length < fuel := by simpa [render] using hfuel
      have hread := readMembers_render m ms hlength rest
      obtain ⟨cs, hrender⟩ := exists_head_members m ms
      rw [hrender, List.cons_append] at hread
      rw [render, hrender, List.cons_append, List.cons_append, readValue, skipSpace_cons rfl]
      simp [hread]

/-- The items of an array are read back, up to its closing bracket. -/
theorem readItems_render : (d : Document) → (ds : List Document) → ∀ {fuel : Nat},
    (renderItems (d :: ds)).length < fuel → ∀ rest : List Char,
      readItems fuel (renderItems (d :: ds) ++ rest) = some (d :: ds, rest)
  | d, [], fuel + 1, hfuel, rest => by
      have hlength : d.render.length < fuel := by simpa [renderItems] using hfuel
      have hread := readValue_render d hlength (delimited_cons (.inr (.inl rfl)) rest)
      rw [renderItems, List.append_assoc, List.singleton_append, readItems, hread]
      rfl
  | d, e :: ds, fuel + 1, hfuel, rest => by
      have hlength : d.render.length < fuel ∧ (renderItems (e :: ds)).length < fuel := by
        simp [renderItems] at hfuel
        omega
      have hread := readValue_render d hlength.1
        (delimited_cons (.inl rfl) (renderItems (e :: ds) ++ rest))
      have hmore := readItems_render e ds hlength.2 rest
      obtain ⟨c, cs, hrender, hspace, _⟩ := exists_head_items e ds
      rw [renderItems, List.append_assoc, List.cons_append, readItems, hread]
      rw [hrender, List.cons_append] at hmore ⊢
      simp only [skipSpace_cons (c := ',') rfl, skipSpace_cons hspace, hmore, Option.map_some]

/-- The members of an object are read back, up to its closing brace. -/
theorem readMembers_render : (m : List Piece × Document) → (ms : List (List Piece × Document)) →
    ∀ {fuel : Nat}, (renderMembers (m :: ms)).length < fuel → ∀ rest : List Char,
      readMembers fuel (renderMembers (m :: ms) ++ rest) = some (m :: ms, rest)
  | (k, d), [], fuel + 1, hfuel, rest => by
      have hlength : d.render.length < fuel := by
        simp [renderMembers] at hfuel
        omega
      have hread := readValue_render d hlength (delimited_cons (.inr (.inr rfl)) rest)
      rw [renderMembers, readMembers_key, List.append_assoc, List.singleton_append,
        skipSpace_render, hread]
      rfl
  | (k, d), m :: ms, fuel + 1, hfuel, rest => by
      have hlength : d.render.length < fuel ∧ (renderMembers (m :: ms)).length < fuel := by
        simp [renderMembers] at hfuel
        omega
      have hread := readValue_render d hlength.1
        (delimited_cons (.inl rfl) (renderMembers (m :: ms) ++ rest))
      have hmore := readMembers_render m ms hlength.2 rest
      obtain ⟨cs, hrender⟩ := exists_head_members m ms
      rw [renderMembers, readMembers_key, List.append_assoc, List.cons_append, skipSpace_render,
        hread]
      rw [hrender, List.cons_append] at hmore ⊢
      simp [skipSpace_cons (c := ',') rfl, skipSpace_cons (c := '"') rfl, hmore]

end

/-- **The text of a document** is read back as the document. -/
theorem read?_text (d : Document) : read? d.text = some d := by
  have hread := readValue_render d (Nat.lt_succ_self d.render.length) delimited_nil
  have hskip := skipSpace_render d []
  rw [List.append_nil] at hread hskip
  simp only [read?, text, String.toList_ofList, hskip, hread]
  rfl

end Document

end ProcedureMapping.Json
