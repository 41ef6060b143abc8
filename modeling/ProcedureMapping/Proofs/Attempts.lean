import ProcedureMapping.Proofs.Attributes
import ProcedureMapping.Proofs.Precedence

/-!
# Tracked values over many writes

A tracked value that is written again and again holds the value of one of the writes: of those at
the strongest source, the last one.  That write **decides**, and it tells the recorded source too.
A value that was configured from the start counts as written first.

A weaker write never leaves a trace.  It is rejected, or it repeats what is there.

Main statements:

* `attempt_eq` — what one write does;
* `leaves_attemptAll` — what any number of writes leaves;
* `accepts_eq_false_iff` — which writes are rejected.
-/

namespace ProcedureMapping

/-- A write that is attempted: a value, and the source that brings it. -/
structure Attempt (α : Type) where
  value : α
  source : Source

section Attempts

variable {α : Type} {attempts : List (Attempt α)} {b d : Attempt α}

/-! ## Which attempt decides -/

/-- Whether `b` decides among the attempts: it is the last one at the strongest source. -/
def Decides (attempts : List (Attempt α)) (b : Attempt α) : Prop :=
  ∃ before after, attempts = before ++ b :: after ∧ (∀ d ∈ before, d.source ≤ b.source) ∧
    ∀ d ∈ after, d.source < b.source

/-- The deciding attempt is at the strongest source. -/
theorem Decides.le (h : Decides attempts b) : ∀ d ∈ attempts, d.source ≤ b.source := by
  obtain ⟨before, after, rfl, hbefore, hafter⟩ := h
  intro d hd
  rcases List.mem_append.1 hd with hearlier | hlater
  · exact hbefore d hearlier
  · rcases List.mem_cons.1 hlater with rfl | hlast
    · exact Source.le_refl _
    · exact Nat.le_of_lt (hafter d hlast)

/-- An attempt that is as strong as all before it decides. -/
theorem decides_concat (h : ∀ d ∈ attempts, d.source ≤ b.source) : Decides (attempts ++ [b]) b :=
  ⟨attempts, [], rfl, h, nofun⟩

/-- A weaker attempt decides nothing. -/
theorem Decides.concat_weaker (h : Decides attempts b) (hd : d.source < b.source) :
    Decides (attempts ++ [d]) b := by
  obtain ⟨before, after, rfl, hbefore, hafter⟩ := h
  refine ⟨before, after ++ [d], by simp, hbefore, ?_⟩
  intro c hc
  rcases List.mem_append.1 hc with hold | hnew
  · exact hafter c hold
  · rw [List.mem_singleton.1 hnew]
    exact hd

namespace Tracked

/-! ## What attempts do -/

variable {start t : Tracked α}

/-- The attempts that the record has seen: a value that was configured at the start is the first of
them. -/
def history (start : Tracked α) (attempts : List (Attempt α)) : List (Attempt α) :=
  (start.source.map fun s => ⟨start.value, s⟩).toList ++ attempts

/-- What the attempts leave of `start`: it stays as it is where nobody has configured anything, and
otherwise the attempt that decides is recorded. -/
def Leaves (start : Tracked α) (attempts : List (Attempt α)) (t : Tracked α) : Prop :=
  start.history attempts = [] ∧ t = start ∨
    ∃ b, Decides (start.history attempts) b ∧ t = .configured b.value b.source

theorem leaves_nil (start : Tracked α) : start.Leaves [] start := by
  obtain ⟨value, source⟩ := start
  cases source with
  | none => exact .inl ⟨rfl, rfl⟩
  | some s => exact .inr ⟨⟨value, s⟩, ⟨[], [], rfl, nofun, nofun⟩, rfl⟩

/-- What is explicit at the start stays explicit. -/
theorem Leaves.explicit (h : start.Leaves attempts t) (hstart : start.source = some .explicit) :
    t.source = some .explicit := by
  rcases h with ⟨_, rfl⟩ | ⟨b, hdecides, rfl⟩
  · exact hstart
  · have hfirst : (⟨start.value, .explicit⟩ : Attempt α) ∈ start.history attempts := by
      simp [history, hstart]
    have hexplicit := Source.le_antisymm (Source.le_explicit b.source) (hdecides.le _ hfirst)
    rw [configured, hexplicit]

/-- Whether a write is too weak for the record and brings another value. -/
def Rejects (t : Tracked α) (a : α) (s : Source) : Prop :=
  ∃ r, t.source = some r ∧ s < r ∧ t.value ≠ a

variable [BEq α]

/-- The record after an attempt, whether it is accepted or rejected. -/
def attempt (t : Tracked α) (b : Attempt α) : Tracked α := (t.write? b.value b.source).getD t

/-- The record after the attempts. -/
def attemptAll (t : Tracked α) (attempts : List (Attempt α)) : Tracked α :=
  attempts.foldl attempt t

theorem attemptAll_append (t : Tracked α) (attempts more : List (Attempt α)) :
    t.attemptAll (attempts ++ more) = (t.attemptAll attempts).attemptAll more :=
  List.foldl_append

variable [LawfulBEq α]

/-- **One attempt** is recorded where it is strong enough, and leaves no trace where it is not. -/
theorem attempt_eq (t : Tracked α) (b : Attempt α) : t.attempt b =
    if b.source.overrides t.source then .configured b.value b.source else t := by
  unfold attempt write? accepts
  by_cases hover : b.source.overrides t.source = true
  · simp [hover, set, configured, Source.max_of_overrides hover]
  · rw [if_neg hover]
    by_cases hsame : t.value = b.value
    · -- The value is there already, and the recorded source is the stronger one.
      have hkept : t.set b.value b.source = t := by
        rw [set, Source.some_max_of_not_overrides hover, ← hsame]
      simp [hsame, hkept]
    · simp [hover, hsame]

/-- **Which writes are rejected.** -/
theorem accepts_eq_false_iff {a : α} {s : Source} : t.accepts a s = false ↔ t.Rejects a s := by
  rw [accepts, Bool.or_eq_false_iff, Rejects, beq_eq_false_iff_ne]
  cases t.source with
  | none => simp
  | some r =>
      simp only [Option.some.injEq, exists_eq_left', Bool.eq_false_iff, ne_eq,
        Source.overrides_some]
      exact and_congr_left fun _ => ⟨Source.lt_of_not_le, Nat.not_le_of_lt⟩

theorem write?_eq_none_iff_rejects {a : α} {s : Source} :
    t.write? a s = none ↔ t.Rejects a s := by
  rw [← accepts_eq_false_iff, ← write?_isSome, Option.isSome_eq_false_iff,
    Option.isNone_iff_eq_none]

/-- What an explicit record holds is changed by explicit attempts only. -/
theorem attemptAll_of_explicit (ht : t.source = some .explicit)
    (h : ∀ b ∈ attempts, b.source ≠ .explicit) : t.attemptAll attempts = t := by
  induction attempts with
  | nil => rfl
  | cons b rest ih =>
      have hweak : b.source.overrides t.source ≠ true := by
        rw [ht]
        exact fun hover => h b List.mem_cons_self (Source.explicit_of_overrides hover)
      have hkept : t.attempt b = t := by rw [attempt_eq, if_neg hweak]
      rw [attemptAll, List.foldl_cons, hkept]
      exact ih fun d hd => h d (List.mem_cons_of_mem b hd)

/-! ## What they leave -/

/-- **One more attempt.** -/
theorem Leaves.attempt (h : start.Leaves attempts t) (b : Attempt α) :
    start.Leaves (attempts ++ [b]) (t.attempt b) := by
  have hhistory : start.history (attempts ++ [b]) = start.history attempts ++ [b] := by
    simp [history]
  right
  rw [attempt_eq, hhistory]
  rcases h with ⟨hnil, rfl⟩ | ⟨d, hdecides, rfl⟩
  · have hunset : t.source = none := by
      simpa [history] using (List.append_eq_nil_iff.1 hnil).1
    rw [hnil, hunset, Source.overrides_none, if_pos rfl]
    exact ⟨b, decides_concat nofun, rfl⟩
  · have hover : b.source.overrides (configured d.value d.source).source = true ↔
        d.source ≤ b.source := Source.overrides_some _ _
    by_cases hstrong : d.source ≤ b.source
    · rw [if_pos (hover.2 hstrong)]
      exact ⟨b, decides_concat fun c hc => Source.le_trans (hdecides.le c hc) hstrong, rfl⟩
    · rw [if_neg (mt hover.1 hstrong)]
      exact ⟨d, hdecides.concat_weaker (Source.lt_of_not_le hstrong), rfl⟩

/-- **What attempts leave**, however many there are. -/
theorem leaves_attemptAll (start : Tracked α) (attempts : List (Attempt α)) :
    start.Leaves attempts (start.attemptAll attempts) := by
  induction attempts using List.reverseRecOn with
  | nil => exact start.leaves_nil
  | append_singleton attempts b ih =>
      rw [attemptAll_append]
      exact ih.attempt b

end Tracked

end Attempts

end ProcedureMapping
