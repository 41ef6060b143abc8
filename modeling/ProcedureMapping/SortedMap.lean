/-!
# Sorted maps

A finite map kept as the list of its entries, **strictly ascending by key**.  Two maps that hold
the same entries are the same list, so a map is determined by its look-ups and can be compared
with `=`; listing it gives every key once, in order.

The entry-list functions are stated on plain lists as well, because an inductive type that holds
a map inside itself (a JSON object, say) has to keep the bare list.

Main statements:

* `get?_insert`, `get?_erase` — what a write does to a look-up;
* `size_insert`, `toList_insert_of_get?` — what an insertion does to the list of entries;
* `mem_toList_iff` — a map lists what it holds;
* `filterMap_get?` — asking for the keys one after another lists the map as well;
* `ext_get?` — two maps with the same look-ups are equal.
-/

namespace ProcedureMapping

/-! ## Entry lists -/

namespace Entries

variable {κ α : Type} [Ord κ]

/-- The first entry under `k`. -/
def get? (k : κ) : List (κ × α) → Option α
  | [] => none
  | (k', a) :: rest => if compare k k' = .eq then some a else get? k rest

/-- Put `a` under `k`, before the first larger key, in place of an entry of the same key. -/
def insert (k : κ) (a : α) : List (κ × α) → List (κ × α)
  | [] => [(k, a)]
  | (k', a') :: rest =>
      match compare k k' with
      | .lt => (k, a) :: (k', a') :: rest
      | .eq => (k, a) :: rest
      | .gt => (k', a') :: insert k a rest

/-- Drop the entries under `k`. -/
def erase (k : κ) (l : List (κ × α)) : List (κ × α) :=
  l.filter fun e => compare k e.1 != .eq

/-- Keys ascend strictly. -/
def Sorted (l : List (κ × α)) : Prop := l.Pairwise fun a b => compare a.1 b.1 = .lt

theorem sorted_nil : Sorted ([] : List (κ × α)) := List.Pairwise.nil

theorem mem_insert {k : κ} {a : α} {e : κ × α} {l : List (κ × α)} (h : e ∈ insert k a l) :
    e = (k, a) ∨ e ∈ l := by
  induction l with
  | nil => simpa [insert] using h
  | cons x rest ih =>
      obtain ⟨k', a'⟩ := x
      rw [insert] at h
      split at h
      · simpa using h
      · rcases List.mem_cons.1 h with h | h
        · exact .inl h
        · exact .inr (List.mem_cons_of_mem _ h)
      · rcases List.mem_cons.1 h with h | h
        · exact .inr (h ▸ List.mem_cons_self)
        · exact (ih h).imp_right (List.mem_cons_of_mem _)

variable [Std.TransOrd κ]

/-- Inserting keeps the order. -/
theorem sorted_insert (k : κ) (a : α) {l : List (κ × α)} (h : Sorted l) :
    Sorted (insert k a l) := by
  induction l with
  | nil => simp [insert, Sorted]
  | cons x rest ih =>
      obtain ⟨k', a'⟩ := x
      have hrest : Sorted rest := List.Pairwise.of_cons h
      have hhead : ∀ e ∈ rest, compare k' e.1 = .lt := fun e he => List.rel_of_pairwise_cons h he
      rw [insert]
      split
      · rename_i hlt
        refine List.pairwise_cons.2 ⟨fun e he => ?_, h⟩
        rcases List.mem_cons.1 he with rfl | he
        · exact hlt
        · exact Std.TransCmp.lt_trans hlt (hhead e he)
      · rename_i heq
        exact List.pairwise_cons.2
          ⟨fun e he => Std.TransCmp.lt_of_eq_of_lt heq (hhead e he), hrest⟩
      · rename_i hgt
        refine List.pairwise_cons.2 ⟨fun e he => ?_, ih hrest⟩
        rcases mem_insert he with rfl | he
        · exact Std.OrientedCmp.gt_iff_lt.1 hgt
        · exact hhead e he

omit [Std.TransOrd κ] in
/-- Dropping entries keeps the order. -/
theorem sorted_erase (k : κ) {l : List (κ × α)} (h : Sorted l) : Sorted (erase k l) :=
  List.Pairwise.filter _ h

omit [Std.TransOrd κ] in
/-- A key below every key of a list is not in it. -/
theorem get?_eq_none_of_lt {k : κ} {l : List (κ × α)}
    (h : ∀ e ∈ l, compare k e.1 = .lt) : get? k l = none := by
  induction l with
  | nil => rfl
  | cons x rest ih =>
      have hx := h x List.mem_cons_self
      simp [get?, hx, ih fun e he => h e (List.mem_cons_of_mem _ he)]

variable [Std.LawfulEqOrd κ]

omit [Std.TransOrd κ] in
/-- What an insertion does to a look-up. -/
theorem get?_insert [DecidableEq κ] (k j : κ) (a : α) (l : List (κ × α)) :
    get? j (insert k a l) = if j = k then some a else get? j l := by
  induction l with
  | nil => simp [insert, get?]
  | cons x rest ih =>
      obtain ⟨k', a'⟩ := x
      rw [insert]
      split
      · simp [get?]
      · rename_i heq
        have hk : k = k' := Std.LawfulEqCmp.eq_of_compare heq
        subst hk
        by_cases h : j = k <;> simp [get?, h]
      · rename_i hgt
        have hk : ¬ k = k' := fun h => by simp [h] at hgt
        simp only [get?, ih, Std.LawfulEqCmp.compare_eq_iff_eq]
        by_cases h : j = k
        · subst h
          simp [hk]
        · simp [h]

/-- An insertion under a key that is there replaces the entry in its place. -/
theorem insert_of_get? {k : κ} {b : α} (a : α) {l : List (κ × α)} (hl : Sorted l)
    (h : get? k l = some b) : ∃ before after, l = before ++ (k, b) :: after ∧
      insert k a l = before ++ (k, a) :: after := by
  induction l with
  | nil => cases h
  | cons x rest ih =>
      obtain ⟨k', a'⟩ := x
      rw [get?] at h
      rw [insert]
      split
      · rename_i hlt
        -- The key would be below all keys of the list.
        rw [if_neg (by simp [hlt]), get?_eq_none_of_lt] at h
        · cases h
        · exact fun e he => Std.TransCmp.lt_trans hlt (List.rel_of_pairwise_cons hl he)
      · rename_i heq
        obtain rfl : k = k' := Std.LawfulEqCmp.eq_of_compare heq
        rw [if_pos heq] at h
        cases h
        exact ⟨[], rest, rfl, rfl⟩
      · rename_i hgt
        rw [if_neg (by simp [hgt])] at h
        obtain ⟨before, after, hbefore, hafter⟩ := ih (List.Pairwise.of_cons hl) h
        exact ⟨(k', a') :: before, after, by rw [hbefore]; rfl, by rw [hafter]; rfl⟩

omit [Std.TransOrd κ] in
/-- What an erasure does to a look-up. -/
theorem get?_erase [DecidableEq κ] (k j : κ) (l : List (κ × α)) :
    get? j (erase k l) = if j = k then none else get? j l := by
  induction l with
  | nil => simp [erase, get?]
  | cons x rest ih =>
      obtain ⟨k', a'⟩ := x
      rw [erase] at ih ⊢
      by_cases hk : k = k'
      · subst hk
        by_cases h : j = k
        · simpa [h] using ih
        · simpa [h, get?] using ih
      · have hc : (compare k k' != .eq) = true := by simpa using hk
        simp only [List.filter_cons, hc, if_true, get?, ih, Std.LawfulEqCmp.compare_eq_iff_eq]
        by_cases h : j = k
        · subst h
          simp [hk]
        · simp [h]

omit [Std.LawfulEqOrd κ] in
/-- An insertion makes a list longer exactly when the key is new. -/
theorem length_insert (k : κ) (a : α) {l : List (κ × α)} (h : Sorted l) :
    (insert k a l).length = if (get? k l).isSome then l.length else l.length + 1 := by
  induction l with
  | nil => rfl
  | cons x rest ih =>
      obtain ⟨k', a'⟩ := x
      have hrest : Sorted rest := List.Pairwise.of_cons h
      rw [insert]
      split
      · rename_i hlt
        have hnew : get? k ((k', a') :: rest) = none := by
          refine get?_eq_none_of_lt fun e he => ?_
          rcases List.mem_cons.1 he with rfl | he
          · exact hlt
          · exact Std.TransCmp.lt_trans hlt (List.rel_of_pairwise_cons h he)
        simp [hnew]
      · rename_i heq
        simp [get?, heq]
      · rename_i hgt
        have hskip : get? k ((k', a') :: rest) = get? k rest := by simp [get?, hgt]
        rw [List.length_cons, ih hrest, hskip, List.length_cons]
        split <;> rfl

/-- **Extensionality.**  Sorted lists with the same look-ups are equal. -/
theorem ext_get? {l m : List (κ × α)} (hl : Sorted l) (hm : Sorted m)
    (h : ∀ k, get? k l = get? k m) : l = m := by
  induction l generalizing m with
  | nil =>
      cases m with
      | nil => rfl
      | cons y m' => simpa [get?] using h y.1
  | cons x l' ih =>
      have hxl : ∀ e ∈ l', compare x.1 e.1 = .lt := fun e he => List.rel_of_pairwise_cons hl he
      cases m with
      | nil => simpa [get?] using h x.1
      | cons y m' =>
          have hym : ∀ e ∈ m', compare y.1 e.1 = .lt :=
            fun e he => List.rel_of_pairwise_cons hm he
          have hxy : compare x.1 y.1 = .eq := by
            rcases hc : compare x.1 y.1 with _ | _ | _
            · have hx := h x.1
              rw [get?, if_pos Std.ReflCmp.compare_self, get?_eq_none_of_lt] at hx
              · cases hx
              · intro e he
                rcases List.mem_cons.1 he with rfl | he
                · exact hc
                · exact Std.TransCmp.lt_trans hc (hym e he)
            · rfl
            · have hc' : compare y.1 x.1 = .lt := Std.OrientedCmp.gt_iff_lt.1 hc
              have hy := h y.1
              rw [get?_eq_none_of_lt, get?, if_pos Std.ReflCmp.compare_self] at hy
              · cases hy
              · intro e he
                rcases List.mem_cons.1 he with rfl | he
                · exact hc'
                · exact Std.TransCmp.lt_trans hc' (hxl e he)
          have hkey : x.1 = y.1 := Std.LawfulEqCmp.eq_of_compare hxy
          have hval : x.2 = y.2 := by
            have hx := h x.1
            rw [get?, if_pos Std.ReflCmp.compare_self, get?, if_pos hxy] at hx
            exact Option.some.inj hx
          have htail : l' = m' := by
            refine ih (List.Pairwise.of_cons hl) (List.Pairwise.of_cons hm) fun k => ?_
            by_cases hk : compare k x.1 = .eq
            · have hk' : k = x.1 := Std.LawfulEqCmp.eq_of_compare hk
              rw [get?_eq_none_of_lt fun e he => hk' ▸ hxl e he,
                get?_eq_none_of_lt fun e he => hk'.trans hkey ▸ hym e he]
            · have hk' : ¬ compare k y.1 = .eq := hkey ▸ hk
              simpa [get?, hk, hk'] using h k
          rw [htail, show x = y from Prod.ext hkey hval]

omit [Std.TransOrd κ] in
/-- A sorted list holds an entry exactly when it is found under its key. -/
theorem mem_iff_get? {k : κ} {a : α} {l : List (κ × α)} (h : Sorted l) :
    (k, a) ∈ l ↔ get? k l = some a := by
  induction l with
  | nil => simp [get?]
  | cons x rest ih =>
      obtain ⟨k', a'⟩ := x
      have hrest : ∀ e ∈ rest, compare k' e.1 = .lt := fun e he => List.rel_of_pairwise_cons h he
      by_cases hk : k = k'
      · subst hk
        have hnone : ∀ b, (k, b) ∉ rest := by
          intro b hb
          have hlt : compare k k = .lt := hrest (k, b) hb
          have heq : compare k k = .eq := Std.ReflCmp.compare_self
          rw [heq] at hlt
          cases hlt
        simp [get?, hnone, eq_comm]
      · simp [get?, hk, ih (List.Pairwise.of_cons h)]

end Entries

/-! ## Maps -/

/-- A finite map, as the strictly ascending list of its entries. -/
structure SortedMap (κ α : Type) [Ord κ] where
  toList : List (κ × α)
  sorted : Entries.Sorted toList

namespace SortedMap

variable {κ α : Type} [Ord κ]

instance [DecidableEq κ] [DecidableEq α] : DecidableEq (SortedMap κ α) := fun a b =>
  decidable_of_iff (a.toList = b.toList) (by cases a; cases b; simp)

/-- The map without entries. -/
def empty : SortedMap κ α := ⟨[], Entries.sorted_nil⟩

/-- The number of entries. -/
def size (m : SortedMap κ α) : Nat := m.toList.length

/-- Whether there are no entries. -/
def isEmpty (m : SortedMap κ α) : Bool := m.toList.isEmpty

/-- The entry under `k`. -/
def get? (m : SortedMap κ α) (k : κ) : Option α := Entries.get? k m.toList

/-- The map without the entry under `k`. -/
def erase (m : SortedMap κ α) (k : κ) : SortedMap κ α :=
  ⟨Entries.erase k m.toList, Entries.sorted_erase k m.sorted⟩

variable [Std.TransOrd κ]

/-- The map with `a` under `k`. -/
def insert (m : SortedMap κ α) (k : κ) (a : α) : SortedMap κ α :=
  ⟨Entries.insert k a m.toList, Entries.sorted_insert k a m.sorted⟩

omit [Std.TransOrd κ] in
@[simp] theorem get?_empty (k : κ) : (empty : SortedMap κ α).get? k = none := rfl

variable [Std.LawfulEqOrd κ]

theorem get?_insert [DecidableEq κ] (m : SortedMap κ α) (k j : κ) (a : α) :
    (m.insert k a).get? j = if j = k then some a else m.get? j :=
  Entries.get?_insert k j a m.toList

omit [Std.TransOrd κ] in
theorem get?_erase [DecidableEq κ] (m : SortedMap κ α) (k j : κ) :
    (m.erase k).get? j = if j = k then none else m.get? j :=
  Entries.get?_erase k j m.toList

/-- An insertion under a key that is there replaces the entry in its place. -/
theorem toList_insert_of_get? {m : SortedMap κ α} {k : κ} {b : α} (h : m.get? k = some b) (a : α) :
    ∃ before after, m.toList = before ++ (k, b) :: after ∧
      (m.insert k a).toList = before ++ (k, a) :: after :=
  Entries.insert_of_get? a m.sorted h

omit [Std.LawfulEqOrd κ] in
/-- An insertion adds an entry exactly when the key is new. -/
theorem size_insert (m : SortedMap κ α) (k : κ) (a : α) :
    (m.insert k a).size = if (m.get? k).isSome then m.size else m.size + 1 :=
  Entries.length_insert k a m.sorted

omit [Std.TransOrd κ] in
/-- A map lists what it holds. -/
theorem mem_toList_iff {m : SortedMap κ α} {k : κ} {a : α} :
    (k, a) ∈ m.toList ↔ m.get? k = some a :=
  Entries.mem_iff_get? m.sorted

/-- **Extensionality.**  A map is determined by its look-ups. -/
theorem ext_get? {m n : SortedMap κ α} (h : ∀ k, m.get? k = n.get? k) : m = n := by
  obtain ⟨l, hl⟩ := m
  obtain ⟨l', hl'⟩ := n
  have : l = l' := Entries.ext_get? hl hl' h
  subst this
  rfl

/-- **Asking for keys in ascending order** lists the map, if all its keys are among them. -/
theorem filterMap_get? {m : SortedMap κ α} {keys : List κ}
    (hkeys : keys.Pairwise fun j k => compare j k = .lt)
    (hall : ∀ k, (m.get? k).isSome = true → k ∈ keys) :
    keys.filterMap (fun k => (m.get? k).map fun a => (k, a)) = m.toList := by
  have hsorted : Entries.Sorted (keys.filterMap fun k => (m.get? k).map fun a => (k, a)) := by
    refine hkeys.filterMap _ ?_
    intro j k hlt e he e' he'
    obtain ⟨_, _, rfl⟩ := Option.map_eq_some_iff.1 he
    obtain ⟨_, _, rfl⟩ := Option.map_eq_some_iff.1 he'
    exact hlt
  refine Entries.ext_get? hsorted m.sorted fun k => Option.ext fun a => ?_
  rw [← Entries.mem_iff_get? hsorted, List.mem_filterMap]
  constructor
  · rintro ⟨j, _, he⟩
    obtain ⟨_, hget, heq⟩ := Option.map_eq_some_iff.1 he
    cases heq
    exact hget
  · intro hget
    have hfound : m.get? k = some a := hget
    exact ⟨k, hall k (by rw [hfound]; rfl), by rw [hfound]; rfl⟩

end SortedMap

end ProcedureMapping
