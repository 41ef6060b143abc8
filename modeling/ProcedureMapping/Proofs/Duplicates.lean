import Mathlib.Data.List.Nodup
import ProcedureMapping.Signature

/-!
# Repeated parameter names

A place of a signature **repeats** when the name that stands there stands at an earlier place as
well.  Names are read from the first on and kept as seen, so the name that is reported is the one at
the first place that repeats.  This is the name whose second occurrence comes first, whichever name
occurs first: of `a`, `b`, `b`, `a` it is `b`.

Main statements:

* `nodup_take_iff` — what has been read is without repetition as long as no place repeats;
* `firstRepeats_iff`, `firstRepeats_iff_secondAt` — the first name to repeat, by the least place
  that repeats and by the least second occurrence;
* `duplicate_reported` — which name is reported, on its own and by the check.
-/

namespace ProcedureMapping.Signature

variable {signature : Signature} {name : String} {i : Nat}

/-- Whether the name at the place `i` stands at an earlier place as well. -/
def RepeatsAt (signature : Signature) (i : Nat) : Prop :=
  ∃ j < i, ∃ name, signature.parameters[j]? = some name ∧ signature.parameters[i]? = some name

/-- The place `i` is the least that repeats, and `name` stands there. -/
structure LeastRepeat (signature : Signature) (name : String) (i : Nat) : Prop where
  here : signature.parameters[i]? = some name
  again : signature.RepeatsAt i
  least : ∀ k < i, ¬ signature.RepeatsAt k

/-- The place `i` is where `name` occurs for the second time. -/
def SecondAt (signature : Signature) (name : String) (i : Nat) : Prop :=
  signature.parameters[i]? = some name ∧ (signature.parameters.take i).count name = 1

/-! ## What has been read -/

/-- The names before a place are those that stand at an earlier one. -/
theorem mem_take_iff :
    name ∈ signature.parameters.take i ↔ ∃ j < i, signature.parameters[j]? = some name := by
  rw [List.mem_take_iff_getElem]
  constructor
  · rintro ⟨j, hj, hname⟩
    exact ⟨j, by omega, List.getElem?_eq_some_iff.2 ⟨by omega, hname⟩⟩
  · rintro ⟨j, hj, hname⟩
    obtain ⟨hlength, hget⟩ := List.getElem?_eq_some_iff.1 hname
    exact ⟨j, by omega, hget⟩

/-- A place repeats exactly when its name has been read before. -/
theorem repeatsAt_iff (hname : signature.parameters[i]? = some name) :
    signature.RepeatsAt i ↔ name ∈ signature.parameters.take i := by
  rw [mem_take_iff]
  constructor
  · rintro ⟨j, hj, other, hother, hhere⟩
    obtain rfl : name = other := Option.some.inj (hname.symm.trans hhere)
    exact ⟨j, hj, hother⟩
  · rintro ⟨j, hj, hother⟩
    exact ⟨j, hj, name, hother, hname⟩

/-- **What has been read is without repetition** as long as no place repeats. -/
theorem nodup_take_iff (i : Nat) :
    (signature.parameters.take i).Nodup ↔ ∀ k < i, ¬ signature.RepeatsAt k := by
  induction i with
  | zero => simp
  | succ i ih =>
      rw [Nat.forall_lt_succ_right, ← ih, List.take_add_one]
      cases hget : signature.parameters[i]? with
      | none =>
          have hnot : ¬ signature.RepeatsAt i := by
            rintro ⟨j, _, name, _, hhere⟩
            rw [hget] at hhere
            cases hhere
          simp [hnot]
      | some name =>
          rw [repeatsAt_iff hget, Option.toList_some, ← List.concat_eq_append, List.nodup_concat,
            and_comm]

/-! ## The first name to repeat -/

/-- The first name to repeat stands at the least place that repeats. -/
theorem firstRepeats_iff : signature.FirstRepeats name ↔ ∃ i, signature.LeastRepeat name i := by
  constructor
  · rintro ⟨before, after, hparameters, hnodup, hmem⟩
    have htake : signature.parameters.take before.length = before := by
      rw [hparameters, List.take_left]
    have hhere : signature.parameters[before.length]? = some name := by simp [hparameters]
    refine ⟨before.length, hhere, ?_, ?_⟩
    · rwa [repeatsAt_iff hhere, htake]
    · rwa [← nodup_take_iff, htake]
  · rintro ⟨i, hhere, hagain, hleast⟩
    obtain ⟨hi, hget⟩ := List.getElem?_eq_some_iff.1 hhere
    refine ⟨signature.parameters.take i, signature.parameters.drop (i + 1), ?_, ?_, ?_⟩
    · rw [← hget, ← List.drop_eq_getElem_cons hi, List.take_append_drop]
    · exact (nodup_take_iff i).2 hleast
    · exact (repeatsAt_iff hhere).1 hagain

/-- A second occurrence repeats. -/
theorem SecondAt.repeatsAt (h : signature.SecondAt name i) : signature.RepeatsAt i := by
  rw [repeatsAt_iff h.1, ← List.count_pos_iff, h.2]
  decide

/-- The least place that repeats is a second occurrence. -/
theorem LeastRepeat.secondAt (h : signature.LeastRepeat name i) : signature.SecondAt name i :=
  ⟨h.here, List.count_eq_one_of_mem ((nodup_take_iff i).2 h.least)
    ((repeatsAt_iff h.here).1 h.again)⟩

/-- No place before the first second occurrence repeats: the first one to repeat would be a second
occurrence itself. -/
theorem not_repeatsAt_of_lt (h : ∀ other k, signature.SecondAt other k → i ≤ k) :
    ∀ k < i, ¬ signature.RepeatsAt k := by
  intro k
  induction k using Nat.strongRecOn with
  | _ k ih =>
    intro hk hrepeats
    have ⟨_, _, other, _, hhere⟩ := hrepeats
    have hearlier : ∀ j < k, ¬ signature.RepeatsAt j := fun j hj => ih j hj (by omega)
    have hleast : signature.LeastRepeat other k := ⟨hhere, hrepeats, hearlier⟩
    have hle : i ≤ k := h other k hleast.secondAt
    omega

/-- The first name to repeat is the one whose second occurrence comes first. -/
theorem firstRepeats_iff_secondAt : signature.FirstRepeats name ↔
    ∃ i, signature.SecondAt name i ∧ ∀ other k, signature.SecondAt other k → i ≤ k := by
  rw [firstRepeats_iff]
  constructor
  · rintro ⟨i, hleast⟩
    refine ⟨i, hleast.secondAt, ?_⟩
    intro other k hother
    refine Nat.le_of_not_lt ?_
    intro hlt
    exact hleast.least k hlt hother.repeatsAt
  · rintro ⟨i, hsecond, hleast⟩
    exact ⟨i, hsecond.1, hsecond.repeatsAt, not_repeatsAt_of_lt hleast⟩

/-! ## Reports -/

/-- **The duplicate of a signature**, for every list of names.  It is the name at the least place
that repeats, which is the name whose second occurrence comes first; there is none exactly when the
names are pairwise distinct.  The check passes in exactly this case, and otherwise it reports that
name together with the procedure it was asked for. -/
theorem duplicate_reported (signature : Signature) (procedure : String) :
    (∀ name, signature.firstDuplicate = some name ↔ ∃ i, signature.LeastRepeat name i) ∧
      (∀ name, signature.firstDuplicate = some name ↔
        ∃ i, signature.SecondAt name i ∧ ∀ other k, signature.SecondAt other k → i ≤ k) ∧
      (signature.firstDuplicate = none ↔ signature.parameters.Nodup) ∧
      (signature.checkUnique procedure = .ok () ↔ signature.parameters.Nodup) ∧
      ∀ e, signature.checkUnique procedure = .error e ↔
        ∃ name i, signature.LeastRepeat name i ∧ e = .duplicateParameter procedure name := by
  refine ⟨?_, ?_, firstDuplicate_eq_none_iff, ?_, ?_⟩
  · intro name
    rw [firstDuplicate_eq_some_iff, firstRepeats_iff]
  · intro name
    rw [firstDuplicate_eq_some_iff, firstRepeats_iff_secondAt]
  · rw [checkUnique_eq_ok_iff, firstDuplicate_eq_none_iff]
  · intro e
    rw [checkUnique_eq_error_iff]
    simp only [firstDuplicate_eq_some_iff, firstRepeats_iff, exists_and_right]

/-- With several names that repeat, the one that occurs first need not be reported. -/
example : firstDuplicate ⟨["a", "b", "c", "b", "c", "a"]⟩ = some "b" := by decide

end ProcedureMapping.Signature
