import ProcedureMapping.Proofs.AnnotationHistory
import ProcedureMapping.Proofs.Documents

/-!
# Signed zeros

A store accepts a write that is weaker than what stands under the name if it brings the same value,
and takes the value that it brings.  Two values are the same when they differ in nothing but the
signs of zeros, at whatever depth; and the sign of a zero is printed.  So a weaker write that is
accepted is seen exactly when it brings another sign of a zero: the text of the annotation and of
the store change, and the stronger source stays recorded for them.

Main statements:

* `Json.Value.same_iff` — when two values are the same;
* `Json.Value.text_eq_iff_of_same` — values that are the same are told apart by their texts;
* `AnnotationStore.weaker_write_seen` — what is seen of a weaker write;
* `AnnotationStore.zero_sign_displaced` — a weaker write that is seen.
-/

namespace ProcedureMapping

namespace Json

/-! ## Signs of zeros -/

/-- The number with a positive zero for a negative one. -/
def Number.unsigned : Number → Number
  | integer i => integer i
  | float x => if x.isZero then float (.zero false) else float x

theorem Number.same_iff {m n : Number} : m.same n = true ↔ m.unsigned = n.unsigned := by
  cases m with
  | integer i => cases n <;> grind [same, unsigned]
  | float x =>
      cases n with
      | integer j => grind [same, unsigned]
      | float y => grind [same, unsigned, Binary64.same, Binary64.isZero, Binary64.zero]

/-- The same number is written alike only if it has the same sign. -/
theorem Number.eq_of_same {m n : Number} (h : m.same n = true) (k : m.numeral = n.numeral) :
    m = n := by
  cases m with
  | integer i =>
      cases n with
      | integer j => exact congrArg integer (eq_of_beq h)
      | float y => cases h
  | float x =>
      cases n with
      | integer j => cases h
      | float y =>
          rcases Bool.or_eq_true_iff.1 h with hbits | hzeros
          · exact congrArg float (eq_of_beq hbits)
          · obtain ⟨hx, hy⟩ := Bool.and_eq_true_iff.1 hzeros
            simp only [numeral, floatNumeral, hx, hy, if_true, Numeral.mk.injEq, and_true] at k
            have hmagnitude : x.magnitude = y.magnitude :=
              (eq_of_beq hx).trans (eq_of_beq hy).symm
            cases x
            cases y
            rw [float.injEq, Binary64.mk.injEq]
            exact ⟨k, hmagnitude⟩

namespace Value

mutual

/-- The value with positive zeros for negative ones. -/
def unsigned : Value → Value
  | null => null
  | bool b => bool b
  | number n => number n.unsigned
  | string s => string s
  | array items => array (unsignedItems items)
  | object members => object (unsignedMembers members)

/-- The items of an array with positive zeros for negative ones. -/
def unsignedItems : List Value → List Value
  | [] => []
  | v :: rest => unsigned v :: unsignedItems rest

/-- The members of an object with positive zeros for negative ones. -/
def unsignedMembers : List (String × Value) → List (String × Value)
  | [] => []
  | (k, v) :: rest => (k, unsigned v) :: unsignedMembers rest

end

mutual

/-- **Two values are the same** when they differ in the signs of zeros only. -/
theorem same_iff : (v w : Value) → (v.same w = true ↔ v.unsigned = w.unsigned)
  | null, w => by cases w <;> simp [same, unsigned]
  | bool _, w => by cases w <;> simp [same, unsigned]
  | number _, w => by cases w <;> simp [same, unsigned, Number.same_iff]
  | string _, w => by cases w <;> simp [same, unsigned]
  | array xs, w => by cases w <;> simp [same, unsigned, sameItems_iff xs]
  | object xs, w => by cases w <;> simp [same, unsigned, sameMembers_iff xs]

theorem sameItems_iff : (xs ys : List Value) →
    (sameItems xs ys = true ↔ unsignedItems xs = unsignedItems ys)
  | [], ys => by cases ys <;> simp [sameItems, unsignedItems]
  | x :: xs, ys => by
      cases ys with
      | nil => simp [sameItems, unsignedItems]
      | cons y ys => simp [sameItems, unsignedItems, same_iff x y, sameItems_iff xs ys]

theorem sameMembers_iff : (xs ys : List (String × Value)) →
    (sameMembers xs ys = true ↔ unsignedMembers xs = unsignedMembers ys)
  | [], ys => by cases ys <;> simp [sameMembers, unsignedMembers]
  | (j, x) :: xs, ys => by
      cases ys with
      | nil => simp [sameMembers, unsignedMembers]
      | cons y ys =>
          simp [sameMembers, unsignedMembers, same_iff x y.2, sameMembers_iff xs ys]

end

/-! ## Texts -/

mutual

theorem eq_of_same : (v w : Value) → v.same w = true → v.document = w.document → v = w
  | null, w, h, _ => by
      cases w with
      | null => rfl
      | _ => cases h
  | bool b, w, h, _ => by
      cases w with
      | bool c => exact congrArg bool (eq_of_beq h)
      | _ => cases h
  | number m, w, h, k => by
      cases w with
      | number n => exact congrArg number (Number.eq_of_same h (Document.number.inj k))
      | _ => cases h
  | string s, w, h, _ => by
      cases w with
      | string t => exact congrArg string (eq_of_beq h)
      | _ => cases h
  | array xs, w, h, k => by
      cases w with
      | array ys => exact congrArg array (eq_of_sameItems xs ys h (Document.array.inj k))
      | _ => cases h
  | object xs, w, h, k => by
      cases w with
      | object ys => exact congrArg object (eq_of_sameMembers xs ys h (Document.object.inj k))
      | _ => cases h

theorem eq_of_sameItems : (xs ys : List Value) → sameItems xs ys = true →
    itemDocuments xs = itemDocuments ys → xs = ys
  | [], ys, h, _ => by
      cases ys with
      | nil => rfl
      | cons => cases h
  | x :: xs, ys, h, k => by
      cases ys with
      | nil => cases h
      | cons y ys =>
          obtain ⟨hx, hxs⟩ := Bool.and_eq_true_iff.1 h
          obtain ⟨kx, kxs⟩ := List.cons.inj k
          rw [eq_of_same x y hx kx, eq_of_sameItems xs ys hxs kxs]

theorem eq_of_sameMembers : (xs ys : List (String × Value)) → sameMembers xs ys = true →
    memberDocuments xs = memberDocuments ys → xs = ys
  | [], ys, h, _ => by
      cases ys with
      | nil => rfl
      | cons => cases h
  | (j, x) :: xs, ys, h, k => by
      cases ys with
      | nil => cases h
      | cons y ys =>
          obtain ⟨hhead, hxs⟩ := Bool.and_eq_true_iff.1 h
          obtain ⟨hkey, hx⟩ := Bool.and_eq_true_iff.1 hhead
          obtain ⟨kx, kxs⟩ := List.cons.inj k
          rw [eq_of_same x y.2 hx (Prod.mk.inj kx).2, eq_of_sameMembers xs ys hxs kxs,
            eq_of_beq hkey]

end

/-- **Values that are the same are told apart by their texts.** -/
theorem text_eq_iff_of_same {v w : Value} (h : v.same w = true) : w.text = v.text ↔ w = v := by
  constructor
  · intro htext
    have hread : Document.read? v.text = Document.read? w.text := by rw [htext]
    rw [text, text, Document.read?_text, Document.read?_text] at hread
    exact (eq_of_same v w h (Option.some.inj hread)).symm
  · rintro rfl
    rfl

end Value

end Json

namespace AnnotationStore

variable {store : AnnotationStore} {name : String} {a : AnnotationEntry} {value : Json.Value}
  {s : Source}

/-! ## Weaker writes -/

theorem valueText_eq_iff_of_same {v w : Json.Value} (h : v.same w = true) :
    valueText w = valueText v ↔ w = v := by
  cases v with
  | string t =>
      cases w with
      | string u => simp [valueText]
      | _ => cases h
  | _ =>
      cases w with
      | string u => cases h
      | _ => exact Json.Value.text_eq_iff_of_same h

/-- A value that is replaced by one that is the same is seen in the debug text if it is another. -/
theorem debugText_put_iff (hget : store.get? name = some a) (hsame : a.value.same value = true)
    (s : Source) (indent : Nat) :
    (store.put name value s).debugText indent = store.debugText indent ↔ value = a.value := by
  obtain ⟨before, after, hlist, hput⟩ :=
    SortedMap.toList_insert_of_get? hget ⟨value, s.max (store.source? name)⟩
  have hfull : store.isEmpty = false := by simp [isEmpty, SortedMap.isEmpty, hlist]
  have hfull' : (store.put name value s).isEmpty = false := by
    simp [isEmpty, SortedMap.isEmpty, put, hput]
  have hlist' : store.toList = before ++ (name, a) :: after := hlist
  have hput' : (store.put name value s).toList =
      before ++ (name, ⟨value, s.max (store.source? name)⟩) :: after := hput
  simp only [debugText, debugLines, hfull, hfull', hlist', hput', Bool.false_eq_true, if_false,
    List.map_append, List.map_cons, ← List.cons_append, Text.block_replace_iff]
  rw [String.append_right_inj, valueText_eq_iff_of_same hsame]

/-- What a write of `value` under `name` does that is weaker than the annotation `a` there: it is
accepted or not, the store is `store'` afterwards, and it is seen in the texts or not. -/
structure WeakerWrite (store : AnnotationStore) (name : String) (a : AnnotationEntry)
    (value : Json.Value) (accepted : Bool) (store' : AnnotationStore) : Prop where
  same : accepted = true ↔ value.unsigned = a.value.unsigned
  entry : store'.get? name = some ⟨if accepted then value else a.value, a.source⟩
  others : ∀ other, other ≠ name → store'.get? other = store.get? other
  rejected : accepted = false → store' = store
  printed : (store'.value? name).map Json.Value.text = (store.value? name).map Json.Value.text ↔
    (accepted = true → value = a.value)
  rendered : ∀ indent, store'.debugText indent = store.debugText indent ↔
    (accepted = true → value = a.value)

/-- **What is seen of a weaker write.**  It leaves the recorded source and every other annotation.
When it is rejected it leaves everything; when it is accepted, the texts stay the same exactly if it
brings the very value that is there, and not only one that differs in the signs of zeros. -/
theorem weaker_write_seen (hget : store.get? name = some a) (hs : s < a.source)
    (value : Json.Value) : WeakerWrite store name a value
      (store.take (.write name value s)).1 (store.take (.write name value s)).2 := by
  have hweak : s.overrides (some a.source) = false := by
    simp only [Source.overrides, decide_eq_false_iff_not]
    exact Nat.not_le_of_lt hs
  have haccepts : store.accepts name value s = a.value.same value := by
    simp only [accepts, hget, hweak, Bool.false_or]
  have hvalue : store.value? name = some a.value := by rw [value?, hget, Option.map_some]
  have hothers : ∀ other, other ≠ name →
      (store.take (.write name value s)).2.get? other = store.get? other := by
    intro other hother
    rw [get?_take, Edit.name, if_neg hother]
  rw [take_write, haccepts] at hothers ⊢
  cases hsame : a.value.same value with
  | false =>
      refine ⟨?_, by simpa using hget, fun _ _ => rfl, fun _ => rfl, by simp, by simp⟩
      rw [eq_comm (a := value.unsigned), ← Json.Value.same_iff, hsame]
  | true =>
      rw [hsame] at hothers
      have hput : (store.put name value s).get? name = some ⟨value, a.source⟩ := by
        rw [get?_put, if_pos rfl, source?, hget, Option.map_some,
          Source.max_of_not_overrides hweak]
      refine ⟨?_, hput, hothers, by simp, ?_, ?_⟩
      · rw [eq_comm (a := value.unsigned), ← Json.Value.same_iff, hsame]
      · have hvalue' : (store.put name value s).value? name = some value := by
          rw [value?, hput, Option.map_some]
        simp [hvalue, hvalue', Json.Value.text_eq_iff_of_same hsame]
      · intro indent
        simpa using debugText_put_iff hget hsame s indent

/-- The zero of a sign as a value. -/
def zero (negative : Bool) : Json.Value := .number (.float (.zero negative))

/-- A store with a positive zero that explicit code has written. -/
def positive : AnnotationStore := (empty.takeAll [.write "a" (zero false) .explicit]).2

/-- The same after a convention has written the negative zero. -/
def negative : AnnotationStore := (positive.take (.write "a" (zero true) .convention)).2

theorem weaker_write_seen_positive :
    positive.get? "a" = some ⟨zero false, .explicit⟩ ∧ Source.convention < .explicit ∧
      WeakerWrite positive "a" ⟨zero false, .explicit⟩ (zero true)
        (positive.take (.write "a" (zero true) .convention)).1 negative := by
  have hget : positive.get? "a" = some ⟨zero false, .explicit⟩ := rfl
  have hs : Source.convention < .explicit := by decide
  exact ⟨hget, hs, weaker_write_seen hget hs (zero true)⟩

/-- **A weaker write that is seen**: the texts show the zero of a convention, but explicit code
stays recorded for it. -/
theorem zero_sign_displaced :
    (∃ log, Follows log positive) ∧ positive.get? "a" = some ⟨zero false, .explicit⟩ ∧
      Source.convention < .explicit ∧
      positive.take (.write "a" (zero true) .convention) = (true, negative) ∧
      negative.get? "a" = some ⟨zero true, .explicit⟩ ∧
      (zero false).text = "0.0" ∧ (zero true).text = "-0.0" ∧
      positive.debugText 0 = "\nAnnotations:\n  a: 0.0" ∧
      negative.debugText 0 = "\nAnnotations:\n  a: -0.0" :=
  ⟨⟨_, Follows.empty.takeAll _⟩, rfl, by decide, rfl, rfl, by decide +kernel,
    by decide +kernel, by decide +kernel, by decide +kernel⟩

end AnnotationStore

end ProcedureMapping
