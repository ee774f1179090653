import Mathlib.Data.List.AList

/-!
# Merging entries into a finite map

A merge of one map into another walks the entries of the first and, for each key,
finds the entry of the second or adds a default one, and changes it with the
entry merged in (`upsert?`). The change may fail, and the whole walk with it
(`upsertAll?`). When the keys walked are distinct, each key ends with the default
or its old entry changed once by its own merged entry, and the other keys keep
their entries (`lookup_upsertAll?`); whatever the order of the walk, and whether
or not the keys were there before.
-/

set_option autoImplicit false

namespace Art.Machine

variable {α β γ : Type} [DecidableEq α]

/-- The entry of `key`, or `default` when there is none, changed by `change`. -/
def upsert? (map : AList fun _ : α => β) (key : α) (default : β) (change : β → Option β) :
    Option (AList fun _ : α => β) :=
  (change ((map.lookup key).getD default)).map fun value => map.insert key value

/-- Each of `entries`, in order, merged by `merge` into the entry of its key. -/
def upsertAll? (merge : γ → β → Option β) (default : β) (map : AList fun _ : α => β)
    (entries : List (Sigma fun _ : α => γ)) : Option (AList fun _ : α => β) :=
  entries.foldlM (fun map entry => upsert? map entry.1 default (merge entry.2)) map

variable {merge : γ → β → Option β} {default : β}

theorem upsert?_eq_some {map result : AList fun _ : α => β} {key : α} {change : β → Option β}
    (run : upsert? map key default change = some result) :
    ∃ value, change ((map.lookup key).getD default) = some value ∧ result = map.insert key value := by
  rw [upsert?, Option.map_eq_some_iff] at run
  obtain ⟨value, changed, rfl⟩ := run
  exact ⟨value, changed, rfl⟩

theorem upsertAll?_cons (map : AList fun _ : α => β) (entry : Sigma fun _ : α => γ)
    (entries : List (Sigma fun _ : α => γ)) :
    upsertAll? merge default map (entry :: entries) =
      (upsert? map entry.1 default (merge entry.2)).bind fun map => upsertAll? merge default map entries := by
  rw [upsertAll?, List.foldlM_cons]
  rfl

/-- After a walk over distinct keys, a key walked holds its old entry, or `default`,
merged with its own entry, and a key not walked holds its old entry. The induction
is on the walk: the first key is not met again, so the entry it gets stays. -/
theorem lookup_upsertAll? {map result : AList fun _ : α => β} {entries : List (Sigma fun _ : α => γ)}
    (distinct : entries.NodupKeys) (run : upsertAll? merge default map entries = some result) (key : α) :
    result.lookup key = match entries.dlookup key with
      | some entry => merge entry ((map.lookup key).getD default)
      | none => map.lookup key := by
  induction entries generalizing map with
  | nil =>
    cases run
    rfl
  | cons first rest ih =>
    obtain ⟨firstFresh, restDistinct⟩ := List.nodupKeys_cons.1 distinct
    rw [upsertAll?_cons, Option.bind_eq_some_iff] at run
    obtain ⟨middle, firstRun, restRun⟩ := run
    obtain ⟨value, merged, rfl⟩ := upsert?_eq_some firstRun
    rw [ih restDistinct restRun]
    by_cases same : key = first.1
    · -- the first key is not among the rest, so it keeps what the first step wrote
      subst same
      rw [List.dlookup_eq_none.2 firstFresh, List.dlookup_cons_eq, AList.lookup_insert]
      exact merged.symm
    · rw [List.dlookup_cons_ne _ _ same, AList.lookup_insert_ne same]

/-- A key walked holds the merge of its entry, which succeeded. -/
theorem lookup_upsertAll?_of_dlookup {map result : AList fun _ : α => β} {entries : List (Sigma fun _ : α => γ)}
    (distinct : entries.NodupKeys) (run : upsertAll? merge default map entries = some result) {key : α} {entry : γ}
    (found : entries.dlookup key = some entry) :
    ∃ value, merge entry ((map.lookup key).getD default) = some value ∧ result.lookup key = some value := by
  induction entries generalizing map with
  | nil => cases found
  | cons first rest ih =>
    obtain ⟨firstFresh, restDistinct⟩ := List.nodupKeys_cons.1 distinct
    rw [upsertAll?_cons, Option.bind_eq_some_iff] at run
    obtain ⟨middle, firstRun, restRun⟩ := run
    obtain ⟨value, merged, rfl⟩ := upsert?_eq_some firstRun
    by_cases same : key = first.1
    · subst same
      rw [List.dlookup_cons_eq] at found
      cases found
      refine ⟨value, merged, ?_⟩
      rw [lookup_upsertAll? restDistinct restRun, List.dlookup_eq_none.2 firstFresh, AList.lookup_insert]
    · rw [List.dlookup_cons_ne _ _ same] at found
      obtain ⟨later, mergedLater, present⟩ := ih restDistinct restRun found
      rw [AList.lookup_insert_ne same] at mergedLater
      exact ⟨later, mergedLater, present⟩

/-- A walk whose every merge succeeds succeeds. -/
theorem upsertAll?_isSome (map : AList fun _ : α => β) {entries : List (Sigma fun _ : α => γ)}
    (total : ∀ entry ∈ entries, ∀ value, (merge entry.2 value).isSome) :
    (upsertAll? merge default map entries).isSome := by
  induction entries generalizing map with
  | nil => rfl
  | cons first rest ih =>
    obtain ⟨value, merged⟩ := Option.isSome_iff_exists.1 (total first List.mem_cons_self ((map.lookup first.1).getD default))
    rw [upsertAll?_cons, upsert?, merged, Option.map_some, Option.bind_some]
    exact ih _ fun entry mem => total entry (List.mem_cons_of_mem _ mem)

end Art.Machine
