import Mathlib.Data.List.Sort
import Reconcile.Data.SortedMap
import Reconcile.Proofs.Data.Outcome

/-!
# Looking up keys in sorted maps

Every operation of a `SortedMap` is described by what it does to `get?`.  The entries in key order
are described by `get?` as well (`mem_toList_iff`), and an entry whose key is above all others
stands at the end (`toList_insert_of_lt`).
-/

namespace Reconcile

/-! ## Entry lists -/

namespace Entries

variable {α β γ : Type} [Ord α] [Std.LawfulEqOrd α]

theorem compare_eq_iff {a b : α} : compare a b = .eq ↔ a = b :=
  Std.LawfulEqCmp.compare_eq_iff_eq

theorem find?_cons_self (key : α) (value : β) (rest : List (α × β)) :
    find? key ((key, value) :: rest) = some value := by
  simp [find?]

theorem find?_cons_of_ne {key k : α} (h : key ≠ k) (value : β) (rest : List (α × β)) :
    find? key ((k, value) :: rest) = find? key rest := by
  simp [find?, h]

theorem find?_insert_self (key : α) (value : β) (entries : List (α × β)) :
    find? key (insert key value entries) = some value := by
  induction entries with
  | nil => exact find?_cons_self key value []
  | cons head rest ih =>
    rcases head with ⟨k, v⟩
    unfold insert
    split
    · exact find?_cons_self key value _
    · exact find?_cons_self key value _
    · next hgt =>
      have hne : key ≠ k := by
        intro heq
        rw [compare_eq_iff.2 heq] at hgt
        cases hgt
      rw [find?_cons_of_ne hne]
      exact ih

theorem find?_insert_of_ne {key k : α} (h : k ≠ key) (value : β) (entries : List (α × β)) :
    find? k (insert key value entries) = find? k entries := by
  induction entries with
  | nil => exact find?_cons_of_ne h value []
  | cons head rest ih =>
    rcases head with ⟨k', v⟩
    unfold insert
    split
    · exact find?_cons_of_ne h value _
    · next heq =>
      have hkey : key = k' := compare_eq_iff.1 heq
      subst hkey
      rw [find?_cons_of_ne h, find?_cons_of_ne h]
    · by_cases hk : k = k'
      · subst hk
        rw [find?_cons_self, find?_cons_self]
      · rw [find?_cons_of_ne hk, find?_cons_of_ne hk]
        exact ih

theorem find?_erase_self (key : α) (entries : List (α × β)) :
    find? key (erase key entries) = none := by
  induction entries with
  | nil => rfl
  | cons head rest ih =>
    rcases head with ⟨k, v⟩
    by_cases hk : key = k
    · subst hk
      simpa [erase, compare_eq_iff] using ih
    · have hstep : erase key ((k, v) :: rest) = (k, v) :: erase key rest := by
        simp [erase, hk]
      rw [hstep, find?_cons_of_ne hk]
      exact ih

theorem find?_erase_of_ne {key k : α} (h : k ≠ key) (entries : List (α × β)) :
    find? k (erase key entries) = find? k entries := by
  induction entries with
  | nil => rfl
  | cons head rest ih =>
    rcases head with ⟨k', v⟩
    by_cases hkey : key = k'
    · subst hkey
      rw [find?_cons_of_ne h, ← ih]
      simp [erase]
    · have hstep : erase key ((k', v) :: rest) = (k', v) :: erase key rest := by
        simp [erase, hkey]
      rw [hstep]
      by_cases hk : k = k'
      · subst hk
        rw [find?_cons_self, find?_cons_self]
      · rw [find?_cons_of_ne hk, find?_cons_of_ne hk]
        exact ih

theorem find?_map (f : β → γ) (key : α) (entries : List (α × β)) :
    find? key (entries.map fun e => (e.1, f e.2)) = (find? key entries).map f := by
  induction entries with
  | nil => rfl
  | cons head rest ih =>
    rcases head with ⟨k, v⟩
    by_cases hk : key = k
    · subst hk
      rw [List.map_cons, find?_cons_self, find?_cons_self]
      rfl
    · rw [List.map_cons, find?_cons_of_ne hk, find?_cons_of_ne hk]
      exact ih

theorem mem_of_find? {key : α} {value : β} {entries : List (α × β)}
    (h : find? key entries = some value) : (key, value) ∈ entries := by
  induction entries with
  | nil => cases h
  | cons head rest ih =>
    rcases head with ⟨k, v⟩
    by_cases hk : key = k
    · subst hk
      rw [find?_cons_self] at h
      cases h
      exact List.mem_cons_self
    · rw [find?_cons_of_ne hk] at h
      exact List.mem_cons_of_mem _ (ih h)

theorem ne_of_sorted_cons {head : α × β} {rest : List (α × β)} (h : Sorted (head :: rest))
    {e : α × β} (he : e ∈ rest) : e.1 ≠ head.1 := by
  intro heq
  have hlt := (List.pairwise_cons.1 h).1 e he
  rw [compare_eq_iff.2 heq.symm] at hlt
  cases hlt

theorem find?_of_mem {key : α} {value : β} {entries : List (α × β)} (hs : Sorted entries)
    (h : (key, value) ∈ entries) : find? key entries = some value := by
  induction entries with
  | nil => cases h
  | cons head rest ih =>
    rcases List.mem_cons.1 h with rfl | hrest
    · exact find?_cons_self key value rest
    · have hne : key ≠ head.1 := ne_of_sorted_cons hs hrest
      have hfind := ih (List.pairwise_cons.1 hs).2 hrest
      rw [← hfind]
      exact find?_cons_of_ne hne head.2 rest

/-- Sorted lists that look up alike are equal. -/
theorem ext [Std.TransOrd α] {as bs : List (α × β)} (ha : Sorted as) (hb : Sorted bs)
    (h : ∀ key, find? key as = find? key bs) : as = bs := by
  have hirrefl : Std.Irrefl fun a b : α × β => compare a.1 b.1 = .lt :=
    ⟨fun a hlt => by rw [compare_eq_iff.2 rfl] at hlt; cases hlt⟩
  have hantisymm : Std.Antisymm fun a b : α × β => compare a.1 b.1 = .lt :=
    ⟨fun a b hlt hgt => by rw [Std.OrientedCmp.gt_of_lt hlt] at hgt; cases hgt⟩
  refine List.Pairwise.eq_of_mem_iff ha hb ?_
  rintro ⟨key, value⟩
  constructor
  · intro hmem
    exact mem_of_find? ((h key).symm.trans (find?_of_mem ha hmem))
  · intro hmem
    exact mem_of_find? ((h key).trans (find?_of_mem hb hmem))

omit [Std.LawfulEqOrd α] in
theorem insert_of_lt [Std.TransOrd α] {key : α} {value : β} {entries : List (α × β)}
    (h : ∀ e ∈ entries, compare e.1 key = .lt) :
    insert key value entries = entries ++ [(key, value)] := by
  induction entries with
  | nil => rfl
  | cons head rest ih =>
    rcases head with ⟨k, v⟩
    have hgt : compare key k = .gt := Std.OrientedCmp.gt_of_lt (h _ List.mem_cons_self)
    have hrest := ih fun e he => h e (List.mem_cons_of_mem _ he)
    simp [insert, hgt, hrest]

/-- A check of sorted entries fails with the fault of the first one that does not pass. -/
theorem forM_eq_error {ε : Type} [Std.TransOrd α] {f : α × β → Except ε Unit} {fault : ε}
    {entries : List (α × β)} (hs : Sorted entries) :
    forM entries f = .error fault ↔ ∃ e ∈ entries, f e = .error fault ∧
      ∀ e' ∈ entries, compare e'.1 e.1 = .lt → f e' = .ok () := by
  rw [Outcome.forM_eq_error]
  constructor
  · rintro ⟨before, e, after, rfl, hfault, hbefore⟩
    refine ⟨e, by simp, hfault, ?_⟩
    intro e' he' hlt
    rcases List.mem_append.1 he' with hmem | hmem
    · exact hbefore e' hmem
    · -- what is not before the entry has no smaller key
      rcases List.pairwise_cons.1 (List.pairwise_append.1 hs).2.1 with ⟨hafter, _⟩
      rcases List.mem_cons.1 hmem with rfl | hmem
      · rw [compare_eq_iff.2 rfl] at hlt
        cases hlt
      · rw [Std.OrientedCmp.gt_of_lt (hafter e' hmem)] at hlt
        cases hlt
  · rintro ⟨e, he, hfault, hbefore⟩
    rcases List.append_of_mem he with ⟨before, after, rfl⟩
    refine ⟨before, e, after, rfl, hfault, ?_⟩
    intro e' he'
    refine hbefore e' (List.mem_append_left _ he') ?_
    exact (List.pairwise_append.1 hs).2.2 e' he' e List.mem_cons_self

end Entries

/-! ## Maps -/

namespace SortedMap

variable {α β γ : Type} [Ord α]

@[simp]
theorem get?_empty (key : α) : (empty : SortedMap α β).get? key = none := rfl

theorem contains_eq_false_iff {m : SortedMap α β} {key : α} :
    m.contains key = false ↔ m.get? key = none := by
  simp [contains]

theorem toList_insert_of_lt [Std.TransOrd α] (m : SortedMap α β) {key : α} (value : β)
    (h : ∀ e ∈ m.toList, compare e.1 key = .lt) :
    (m.insert key value).toList = m.toList ++ [(key, value)] :=
  Entries.insert_of_lt h

variable [Std.LawfulEqOrd α]

@[simp]
theorem get?_map (m : SortedMap α β) (f : β → γ) (key : α) :
    (m.map f).get? key = (m.get? key).map f :=
  Entries.find?_map f key m.entries

theorem mem_toList_iff {m : SortedMap α β} {key : α} {value : β} :
    (key, value) ∈ m.toList ↔ m.get? key = some value :=
  ⟨Entries.find?_of_mem m.sorted, Entries.mem_of_find?⟩

omit [Std.LawfulEqOrd α] in
theorem values_map (m : SortedMap α β) (f : β → γ) : (m.map f).values = m.values.map f := by
  simp [values, map, List.map_map, Function.comp_def]

theorem mem_values_iff {m : SortedMap α β} {value : β} :
    value ∈ m.values ↔ ∃ key, m.get? key = some value := by
  constructor
  · intro h
    rcases List.mem_map.1 h with ⟨⟨key, v⟩, hmem, rfl⟩
    exact ⟨key, mem_toList_iff.1 hmem⟩
  · rintro ⟨key, h⟩
    exact List.mem_map.2 ⟨(key, value), mem_toList_iff.2 h, rfl⟩

theorem mem_keys_iff {m : SortedMap α β} {key : α} : key ∈ m.keys ↔ (m.get? key).isSome := by
  rw [Option.isSome_iff_exists, keys, List.mem_map]
  constructor
  · rintro ⟨⟨_, value⟩, hmem, rfl⟩
    exact ⟨value, mem_toList_iff.1 hmem⟩
  · rintro ⟨value, hget⟩
    exact ⟨(key, value), mem_toList_iff.2 hget, rfl⟩

theorem nodup_keys (m : SortedMap α β) : m.keys.Nodup := by
  have hsorted : m.keys.Pairwise fun a b => compare a b = .lt := List.pairwise_map.2 m.sorted
  refine hsorted.imp ?_
  intro a b hlt heq
  rw [Entries.compare_eq_iff.2 heq] at hlt
  cases hlt

theorem get?_filter_eq_some_iff {m : SortedMap α β} {p : α → β → Bool} {key : α} {value : β} :
    (m.filter p).get? key = some value ↔ m.get? key = some value ∧ p key value = true := by
  rw [← mem_toList_iff, ← mem_toList_iff]
  exact List.mem_filter

theorem filter_eq_self {m : SortedMap α β} {p : α → β → Bool}
    (h : ∀ key value, m.get? key = some value → p key value = true) : m.filter p = m := by
  refine SortedMap.ext (List.filter_eq_self.2 ?_)
  rintro ⟨key, value⟩ hmem
  exact h key value (mem_toList_iff.1 hmem)

omit [Std.LawfulEqOrd α] in
theorem map_eq_self {m : SortedMap α β} {f : β → β} (h : ∀ value ∈ m.values, f value = value) :
    m.map f = m := by
  refine SortedMap.ext ((List.map_congr_left ?_).trans (List.map_id _))
  rintro ⟨key, value⟩ hmem
  rw [h value (List.mem_map.2 ⟨_, hmem, rfl⟩)]
  rfl

@[simp]
theorem get?_erase_self (m : SortedMap α β) (key : α) : (m.erase key).get? key = none :=
  Entries.find?_erase_self key m.entries

theorem get?_erase_of_ne (m : SortedMap α β) {key k : α} (h : k ≠ key) :
    (m.erase key).get? k = m.get? k :=
  Entries.find?_erase_of_ne h m.entries

variable [Std.TransOrd α]

/-- Maps that look up alike are equal. -/
theorem ext_get? {m n : SortedMap α β} (h : ∀ key, m.get? key = n.get? key) : m = n :=
  SortedMap.ext (Entries.ext m.sorted n.sorted h)

@[simp]
theorem get?_insert_self (m : SortedMap α β) (key : α) (value : β) :
    (m.insert key value).get? key = some value :=
  Entries.find?_insert_self key value m.entries

theorem get?_insert_of_ne (m : SortedMap α β) {key k : α} (value : β) (h : k ≠ key) :
    (m.insert key value).get? k = m.get? k :=
  Entries.find?_insert_of_ne h value m.entries

theorem get?_insert [DecidableEq α] (m : SortedMap α β) (key k : α) (value : β) :
    (m.insert key value).get? k = if k = key then some value else m.get? k := by
  by_cases h : k = key
  · subst h
    simp
  · rw [get?_insert_of_ne m value h, if_neg h]

theorem map_insert (m : SortedMap α β) (key : α) (value : β) (f : β → γ) :
    (m.insert key value).map f = (m.map f).insert key (f value) := by
  refine ext_get? fun k => ?_
  by_cases hk : k = key
  · subst hk
    rw [get?_map, get?_insert_self, get?_insert_self]
    rfl
  · rw [get?_map, get?_insert_of_ne m value hk, get?_insert_of_ne _ _ hk, get?_map]

/-- Entering what is there already changes nothing. -/
theorem insert_of_get? {m : SortedMap α β} {key : α} {value : β} (h : m.get? key = some value) :
    m.insert key value = m := by
  refine ext_get? fun k => ?_
  by_cases hk : k = key
  · subst hk
    exact (m.get?_insert_self k value).trans h.symm
  · exact m.get?_insert_of_ne value hk

theorem insert_insert (m : SortedMap α β) (key : α) (value value' : β) :
    (m.insert key value).insert key value' = m.insert key value' := by
  refine ext_get? fun k => ?_
  by_cases hk : k = key
  · subst hk
    rw [get?_insert_self, get?_insert_self]
  · rw [get?_insert_of_ne _ _ hk, get?_insert_of_ne _ _ hk, get?_insert_of_ne _ _ hk]

theorem insert_comm (m : SortedMap α β) {key key' : α} (h : key ≠ key') (value value' : β) :
    (m.insert key value).insert key' value' = (m.insert key' value').insert key value := by
  refine ext_get? fun k => ?_
  by_cases hk : k = key
  · subst hk
    rw [get?_insert_of_ne _ _ h, get?_insert_self, get?_insert_self]
  · by_cases hk' : k = key'
    · subst hk'
      rw [get?_insert_self, get?_insert_of_ne _ _ hk, get?_insert_self]
    · rw [get?_insert_of_ne _ _ hk', get?_insert_of_ne _ _ hk, get?_insert_of_ne _ _ hk,
        get?_insert_of_ne _ _ hk']

omit [Std.TransOrd α] in
theorem forM_toList_eq_ok {ε : Type} {m : SortedMap α β} {f : α × β → Except ε Unit} :
    forM m.toList f = .ok () ↔
      ∀ key value, m.get? key = some value → f (key, value) = .ok () := by
  rw [Outcome.forM_eq_ok]
  constructor
  · exact fun h key value hget => h (key, value) (mem_toList_iff.2 hget)
  · exact fun h e he => h e.1 e.2 (mem_toList_iff.1 he)

theorem forM_toList_eq_error {ε : Type} {m : SortedMap α β} {f : α × β → Except ε Unit}
    {fault : ε} :
    forM m.toList f = .error fault ↔ ∃ key value, m.get? key = some value ∧
      f (key, value) = .error fault ∧ ∀ key' value', compare key' key = .lt →
        m.get? key' = some value' → f (key', value') = .ok () := by
  refine (Entries.forM_eq_error m.sorted).trans ?_
  constructor
  · rintro ⟨⟨key, value⟩, hmem, hfault, hbefore⟩
    refine ⟨key, value, mem_toList_iff.1 hmem, hfault, ?_⟩
    exact fun key' value' hlt hget => hbefore (key', value') (mem_toList_iff.2 hget) hlt
  · rintro ⟨key, value, hget, hfault, hbefore⟩
    refine ⟨(key, value), mem_toList_iff.2 hget, hfault, ?_⟩
    exact fun e he hlt => hbefore e.1 e.2 hlt (mem_toList_iff.1 he)

end SortedMap

end Reconcile
