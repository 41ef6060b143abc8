import Mathlib.Data.List.DropRight
import ProcedureMapping.AnnotationStore

/-!
# The history of a store

An annotation store is called on again and again: values are written under names, and names are
removed, in any order and at any sources.  What stands under a name is told by its **notes**, the
writes under the name after the last removal that was accepted:

* there is an annotation exactly when there are notes;
* its source is the strongest source among the notes;
* its value is equal to that of the last note at this source.

Values are equal as JSON values are, which need not be the same text.  A write that repeats what a
stronger source has written replaces the value by an equal one, so equality has to carry over from
value to value.

Main statements:

* `get?_take` — what a call does to each name;
* `Kept.take` — what one more call does to the notes and to what stands there;
* `Follows.get?_eq` — calls under other names do not count;
* `Follows.lawful` — what holds of a store after any calls.
-/

namespace ProcedureMapping

namespace AnnotationStore

/-! ## Calls -/

/-- A call on a store. -/
inductive Edit where
  | write (name : String) (value : Json.Value) (s : Source)
  | remove (name : String) (s : Source)

/-- The name that a call is about. -/
def Edit.name : Edit → String
  | write name _ _ | remove name _ => name

/-- What a call leaves of what stands under its name. -/
def Edit.leaves : Edit → Option AnnotationEntry → Option AnnotationEntry
  | write _ value s, none => some ⟨value, s⟩
  | write _ value s, some a =>
      if s.overrides (some a.source) || a.value.same value then
        some ⟨value, s.max (some a.source)⟩
      else some a
  | remove .., none => none
  | remove _ s, some a => if s.overrides (some a.source) then none else some a

/-- What a store answers to a call, and what the call makes of the store. -/
def take (store : AnnotationStore) : Edit → Bool × AnnotationStore
  | .write name value s =>
      match store.write? name value s with
      | some written => (true, written)
      | none => (false, store)
  | .remove name s =>
      match store.removed? name s with
      | some _ => (true, store.discard name)
      | none => (false, store)

section Take

variable {store : AnnotationStore} {e : Edit} {name : String} {value : Json.Value} {s : Source}

/-- **Which writes are rejected**: those of another value than a stronger source has written. -/
theorem take_write_eq_false_iff : (store.take (.write name value s)).1 = false ↔
    ∃ a, store.get? name = some a ∧ s < a.source ∧ a.value.same value = false := by
  rw [← write?_eq_none_iff]
  cases h : store.write? name value s <;> simp [take, h]

/-- **Which removals take something out**: those of an annotation that is not stronger. -/
theorem take_remove_iff : (store.take (.remove name s)).1 = true ↔
    ∃ a, store.get? name = some a ∧ a.source ≤ s := by
  cases h : store.get? name with
  | none => simp [take, removed?, releases, h]
  | some a =>
      by_cases hover : s.overrides (some a.source) = true
      · simp [take, removed?, releases, h, hover, (Source.overrides_some _ _).1 hover]
      · have hle : ¬ a.source ≤ s := fun hle => hover ((Source.overrides_some _ _).2 hle)
        simp [take, removed?, releases, h, hover, hle]

theorem discard_eq_self (h : store.get? name = none) : store.discard name = store := by
  refine ext_get? fun other => ?_
  have hother := get?_discard store name other
  by_cases hname : other = name
  · subst hname
    rw [if_pos rfl, ← h] at hother
    exact hother
  · rw [if_neg hname] at hother
    exact hother

theorem take_write (store : AnnotationStore) (name : String) (value : Json.Value) (s : Source) :
    store.take (.write name value s) =
      (store.accepts name value s,
        if store.accepts name value s then store.put name value s else store) := by
  by_cases h : store.accepts name value s = true <;> simp [take, write?, h]

theorem take_remove_snd (store : AnnotationStore) (name : String) (s : Source) :
    (store.take (.remove name s)).2 =
      if store.releases name s then store.discard name else store := by
  by_cases h : store.releases name s = true
  · cases hget : store.get? name with
    | none => simp [take, removed?, h, hget, discard_eq_self hget]
    | some a => simp [take, removed?, h, hget]
  · simp [take, removed?, h]

/-- A call that is not accepted changes nothing. -/
theorem take_eq_self (h : (store.take e).1 = false) : (store.take e).2 = store := by
  cases e with
  | write name value s =>
      rw [take_write] at h ⊢
      exact if_neg (Bool.eq_false_iff.1 h)
  | remove name s =>
      cases hremoved : store.removed? name s with
      | none => simp [take, hremoved]
      | some a => simp [take, hremoved] at h

theorem leaves_write (store : AnnotationStore) (name : String) (value : Json.Value)
    (s : Source) : (Edit.write name value s).leaves (store.get? name) =
      if store.accepts name value s then some ⟨value, s.max (store.source? name)⟩
      else store.get? name := by
  unfold accepts source?
  cases store.get? name <;> rfl

theorem leaves_remove (store : AnnotationStore) (name : String) (s : Source) :
    (Edit.remove name s).leaves (store.get? name) =
      if store.releases name s then none else store.get? name := by
  unfold releases
  cases store.get? name <;> rfl

/-- **What a call does to each name**: it leaves all of them alone but its own. -/
theorem get?_take (store : AnnotationStore) (e : Edit) (name : String) :
    (store.take e).2.get? name =
      if name = e.name then e.leaves (store.get? name) else store.get? name := by
  cases e with
  | write other value s =>
      rw [take_write]
      by_cases hname : name = other
      · subst hname
        rw [leaves_write, Edit.name, if_pos rfl]
        by_cases haccepts : store.accepts name value s = true
        · simp [haccepts, get?_put]
        · simp [haccepts]
      · by_cases haccepts : store.accepts other value s = true
        · simp [haccepts, get?_put, hname, Edit.name]
        · simp [haccepts, hname, Edit.name]
  | remove other s =>
      rw [take_remove_snd]
      by_cases hname : name = other
      · subst hname
        rw [leaves_remove, Edit.name, if_pos rfl]
        by_cases hreleases : store.releases name s = true
        · simp [hreleases, get?_discard]
        · simp [hreleases]
      · by_cases hreleases : store.releases other s = true
        · simp [hreleases, get?_discard, hname, Edit.name]
        · simp [hreleases, hname, Edit.name]

end Take

/-! ## Notes -/

/-- A call on a store, and whether it was accepted. -/
structure Reply where
  edit : Edit
  accepted : Bool

/-- Whether a store may answer a call so.  It answers as it does; a removal that finds nothing may
count as accepted or not. -/
def Answers (store : AnnotationStore) (r : Reply) : Prop :=
  r.accepted = (store.take r.edit).1 ∨ ∃ name s, r.edit = .remove name s ∧ store.get? name = none

/-- A removal may count as accepted where the store would let go of what stands there. -/
theorem answers_remove (store : AnnotationStore) (name : String) (s : Source) :
    store.Answers ⟨.remove name s, store.releases name s⟩ := by
  cases hget : store.get? name with
  | none => exact .inr ⟨name, s, rfl, hget⟩
  | some a =>
      left
      by_cases h : store.releases name s = true <;> simp [take, removed?, h, hget]

/-- Whether a call is a removal of `name` that was accepted. -/
def Reply.clears (name : String) (r : Reply) : Bool :=
  match r.edit with
  | .write .. => false
  | .remove other _ => other == name && r.accepted

/-- What a call writes under `name`, accepted or not. -/
def Reply.note? (name : String) (r : Reply) : Option AnnotationEntry :=
  match r.edit with
  | .write other value s => if other = name then some ⟨value, s⟩ else none
  | .remove .. => none

/-- The notes under a name: what was written after the last removal that was accepted. -/
def notes (name : String) (log : List Reply) : List AnnotationEntry :=
  (log.rtakeWhile fun r => !r.clears name).filterMap (Reply.note? name)

theorem notes_append (name : String) (log : List Reply) (r : Reply) :
    notes name (log ++ [r]) =
      if r.clears name then [] else notes name log ++ (r.note? name).toList := by
  unfold notes
  rw [List.rtakeWhile_concat]
  by_cases h : r.clears name = true
  · simp [h]
  · rw [Bool.eq_false_iff.2 h, Bool.not_false, if_pos rfl, List.filterMap_append]
    cases hnote : r.note? name <;> simp [hnote]

/-- What stands under a name after some notes: something if there are any, and then no note is
stronger, and it is the last one of its source that decides the value. -/
structure Kept (notes : List AnnotationEntry) (entry : Option AnnotationEntry) : Prop where
  present : entry.isSome = true ↔ notes ≠ []
  strongest : ∀ a, entry = some a → ∀ note ∈ notes, note.source ≤ a.source
  decided : ∀ a, entry = some a → ∃ before last after, notes = before ++ last :: after ∧
    last.source = a.source ∧ (∀ note ∈ after, note.source < a.source) ∧
    last.value.same a.value = true

section Kept

variable {store : AnnotationStore} {log : List Reply} {r : Reply} {name : String}
  {notes : List AnnotationEntry} {entry : Option AnnotationEntry} {a note : AnnotationEntry}
  {value : Json.Value} {s : Source}

theorem Kept.nil : Kept [] none where
  present := by simp
  strongest _ h := by cases h
  decided _ h := by cases h

/-- A note that nothing is stronger than stands from now on. -/
theorem Kept.stronger (h : Kept notes entry)
    (hover : ∀ a, entry = some a → a.source ≤ note.source) :
    Kept (notes ++ [note]) (some note) where
  present := by simp
  strongest := by
    intro b hb other hother
    cases hb
    rcases List.mem_append.1 hother with hold | hlast
    · cases hentry : entry with
      | none =>
          have hsome : entry.isSome = true := h.present.2 (List.ne_nil_of_mem hold)
          rw [hentry] at hsome
          cases hsome
      | some a => exact Source.le_trans (h.strongest a hentry other hold) (hover a hentry)
    · rw [List.mem_singleton.1 hlast]
      exact Source.le_refl _
  decided := by
    intro b hb
    cases hb
    exact ⟨notes, note, [], rfl, rfl, by simp, Json.Value.same_refl _⟩

/-- A weaker note decides nothing. -/
theorem Kept.weaker (h : Kept notes (some a)) (hlt : note.source < a.source) :
    Kept (notes ++ [note]) (some a) where
  present := by simp
  strongest := by
    intro b hb other hother
    cases hb
    rcases List.mem_append.1 hother with hold | hlast
    · exact h.strongest a rfl other hold
    · rw [List.mem_singleton.1 hlast]
      exact Nat.le_of_lt hlt
  decided := by
    intro b hb
    cases hb
    obtain ⟨before, last, after, rfl, hlast, hafter, hsame⟩ := h.decided a rfl
    refine ⟨before, last, after ++ [note], by simp, hlast, ?_, hsame⟩
    intro other hother
    rcases List.mem_append.1 hother with hold | hnew
    · exact hafter other hold
    · rw [List.mem_singleton.1 hnew]
      exact hlt

/-- An equal value may stand for the value that was decided. -/
theorem Kept.equal (h : Kept notes (some a)) (hsame : a.value.same value = true) :
    Kept notes (some ⟨value, a.source⟩) where
  present := by simpa using h.present
  strongest b hb := by
    cases hb
    exact h.strongest a rfl
  decided b hb := by
    cases hb
    obtain ⟨before, last, after, hnotes, hlast, hafter, hlastSame⟩ := h.decided a rfl
    exact ⟨before, last, after, hnotes, hlast, hafter,
      Json.Value.same_trans _ _ _ hlastSame hsame⟩

/-- **What a write does**, accepted or not: it is one more note. -/
theorem Kept.write (h : Kept notes entry) (name : String) (value : Json.Value) (s : Source) :
    Kept (notes ++ [⟨value, s⟩]) ((Edit.write name value s).leaves entry) := by
  cases entry with
  | none =>
      refine h.stronger ?_
      intro a ha
      cases ha
  | some a =>
      by_cases hle : a.source ≤ s
      · have hover : s.overrides (some a.source) = true := (Source.overrides_some _ _).2 hle
        have hmax : s.max (some a.source) = s := Source.max_of_overrides hover
        rw [Edit.leaves, hover, Bool.true_or, if_pos rfl, hmax]
        refine h.stronger ?_
        intro b hb
        cases hb
        exact hle
      · have hlt : s < a.source := Source.lt_of_not_le hle
        have hweak : s.overrides (some a.source) = false := by
          rw [Bool.eq_false_iff]
          exact fun hover => hle ((Source.overrides_some _ _).1 hover)
        rw [Edit.leaves, hweak, Bool.false_or, Source.max_of_not_overrides hweak]
        by_cases hsame : a.value.same value = true
        · rw [if_pos hsame]
          exact (h.equal hsame).weaker hlt
        · rw [if_neg hsame]
          exact h.weaker hlt

/-- **What one more call does** to the notes under a name and to what stands there. -/
theorem Kept.take (h : Kept (AnnotationStore.notes name log) (store.get? name))
    (hanswer : store.Answers r) :
    Kept (AnnotationStore.notes name (log ++ [r])) ((store.take r.edit).2.get? name) := by
  obtain ⟨e, accepted⟩ := r
  rw [notes_append, get?_take]
  cases e with
  | write other value s =>
      by_cases hname : other = name
      · subst hname
        simpa [Reply.clears, Reply.note?, Edit.name] using h.write other value s
      · simpa [Reply.clears, Reply.note?, Edit.name, hname, Ne.symm hname] using h
  | remove other s =>
      by_cases hname : other = name
      · subst hname
        cases hget : store.get? other with
        | none =>
            -- Nothing stood there, so there were no notes, whatever the answer is.
            rw [hget] at h
            have hnone : AnnotationStore.notes other log = [] := by
              by_contra hne
              exact Bool.false_ne_true (h.present.2 hne)
            simpa [Edit.name, Edit.leaves, Reply.note?, hnone] using Kept.nil
        | some a =>
            rw [hget] at h
            have haccepted : accepted = (store.take (.remove other s)).1 := by
              rcases hanswer with hsame | ⟨_, _, heq, hnone⟩
              · exact hsame
              · cases heq
                rw [hget] at hnone
                cases hnone
            by_cases hle : a.source ≤ s
            · have htrue : accepted = true := haccepted ▸ take_remove_iff.2 ⟨a, hget, hle⟩
              have hover := (Source.overrides_some s a.source).2 hle
              simpa [Edit.name, Edit.leaves, Reply.clears, htrue, hover] using Kept.nil
            · have hfalse : accepted = false := by
                rw [haccepted, Bool.eq_false_iff]
                intro htrue
                obtain ⟨b, hb, hbs⟩ := take_remove_iff.1 htrue
                cases hget.symm.trans hb
                exact hle hbs
              have hover : ¬ s.overrides (some a.source) = true :=
                fun hover => hle ((Source.overrides_some _ _).1 hover)
              simpa [Edit.name, Edit.leaves, Reply.clears, Reply.note?, hfalse, hover] using h
      · simpa [Reply.clears, Reply.note?, Edit.name, hname, Ne.symm hname] using h

end Kept

/-! ## Histories -/

/-- Whether a store has come about by calls, answered so, from the empty one. -/
inductive Follows : List Reply → AnnotationStore → Prop
  | empty : Follows [] .empty
  | call {log : List Reply} {store : AnnotationStore} {r : Reply} (before : Follows log store)
      (answer : store.Answers r) : Follows (log ++ [r]) (store.take r.edit).2

/-- Some calls on a store, one after another: the answers, and what they make of it. -/
def takeAll (store : AnnotationStore) : List Edit → List Reply × AnnotationStore
  | [] => ([], store)
  | e :: rest =>
      let (accepted, next) := store.take e
      let (replies, last) := next.takeAll rest
      (⟨e, accepted⟩ :: replies, last)

/-- The calls under a name. -/
def callsOn (name : String) (log : List Reply) : List Edit :=
  (log.map Reply.edit).filter fun e => e.name == name

/-- The code points of a text. -/
def codePoints (text : String) : List Nat := text.toList.map Char.toNat

/-- What holds of a store after calls that were answered so. -/
structure Lawful (log : List Reply) (store : AnnotationStore) : Prop where
  kept : ∀ name, Kept (notes name log) (store.get? name)
  /-- A removal takes out what is there and not stronger. -/
  removes : ∀ name s, (store.take (.remove name s)).1 = true ↔
    ∃ a, store.get? name = some a ∧ a.source ≤ s
  removed : ∀ name s, (store.take (.remove name s)).1 = true →
    (store.take (.remove name s)).2.get? name = none
  /-- A write is rejected before another value of a stronger source. -/
  rejects : ∀ name value s, (store.take (.write name value s)).1 = false ↔
    ∃ a, store.get? name = some a ∧ s < a.source ∧ a.value.same value = false
  idle : ∀ e, (store.take e).1 = false → (store.take e).2 = store
  others : ∀ e name, name ≠ e.name → (store.take e).2.get? name = store.get? name
  /-- Only the calls under a name count for it. -/
  apart : ∀ name log' store', Follows log' store' → callsOn name log' = callsOn name log →
    store'.get? name = store.get? name
  listed : ∀ name a, (name, a) ∈ store.toList ↔ store.get? name = some a
  ascending : store.toList.Pairwise fun a b => codePoints a.1 < codePoints b.1

section Follows

variable {store : AnnotationStore} {log : List Reply} {name : String}

/-- Calls that are made one after another are answered so. -/
theorem Follows.takeAll (h : Follows log store) (edits : List Edit) :
    Follows (log ++ (store.takeAll edits).1) (store.takeAll edits).2 := by
  induction edits generalizing log store with
  | nil => simpa [AnnotationStore.takeAll] using h
  | cons e rest ih =>
      have hnext : Follows (log ++ [⟨e, (store.take e).1⟩]) (store.take e).2 := h.call (.inl rfl)
      simpa [AnnotationStore.takeAll] using ih hnext

/-- **Calls under other names do not count** for what stands under a name. -/
theorem Follows.get?_eq (h : Follows log store) (name : String) :
    store.get? name = (callsOn name log).foldl (fun entry e => e.leaves entry) none := by
  induction h with
  | empty => rfl
  | @call log store r _ _ ih =>
      rw [get?_take, callsOn, List.map_append, List.filter_append, List.foldl_append, ← callsOn,
        ← ih]
      by_cases hname : r.edit.name = name
      · simp [hname]
      · simp [hname, Ne.symm hname]

theorem Follows.kept (h : Follows log store) (name : String) :
    Kept (notes name log) (store.get? name) := by
  induction h with
  | empty => exact .nil
  | call _ answer ih => exact ih.take answer

theorem codePoints_lt {a b : String} (h : compare a b = .lt) : codePoints a < codePoints b := by
  have hlt : a < b := compareOfLessAndEq_eq_lt.1 h
  have hchars : a.toList < b.toList := hlt
  exact List.map_lt (fun _ _ hchar => hchar) hchars

/-- **What holds of a store after any calls.** -/
theorem Follows.lawful (h : Follows log store) : Lawful log store where
  kept := h.kept
  removes _ _ := take_remove_iff
  removed name s hremoved := by
    obtain ⟨a, hget, hle⟩ := take_remove_iff.1 hremoved
    rw [get?_take, Edit.name, if_pos rfl, hget, Edit.leaves,
      if_pos ((Source.overrides_some _ _).2 hle)]
  rejects _ _ _ := take_write_eq_false_iff
  idle _ := take_eq_self
  others e name hname := by rw [get?_take, if_neg hname]
  apart name log' store' h' hcalls := by rw [h.get?_eq, h'.get?_eq, hcalls]
  listed _ _ := SortedMap.mem_toList_iff
  ascending := store.entries.sorted.imp fun {_ _} => codePoints_lt

end Follows

end AnnotationStore

end ProcedureMapping
