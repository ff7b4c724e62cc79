import Mathlib.Data.Set.Card
import Reconcile.Proofs.Json.Same
import Reconcile.Proofs.Store.Commit

/-!
# What a commit counts

The summary of a commit counts the ids whose rows were added, changed and removed, and versions
count the changes of a payload (`Accounts`).  Both hold of removals and writes that are *separate*:
no id occurs twice among them.  An id that occurred twice could be counted twice.  Versions can only
count as far as the numbers go: the row of the last version starts over when it is changed.
-/

namespace Reconcile

namespace Rows

variable {old new rows : Rows} {removals : List EntityId} {writes : List (EntityId × Json)}
  {id : EntityId}

/-! ## How rows differ -/

/-- Ids without a row that have one afterwards. -/
def addedIds (old new : Rows) : Set EntityId :=
  {id | old.row? id = none ∧ (new.row? id).isSome}

/-- Ids whose row has another payload afterwards. -/
def changedIds (old new : Rows) : Set EntityId :=
  {id | ∃ row row', old.row? id = some row ∧ new.row? id = some row' ∧
    row.payload.same row'.payload = false}

/-- Ids with a row that have none afterwards. -/
def removedIds (old new : Rows) : Set EntityId :=
  {id | (old.row? id).isSome ∧ new.row? id = none}

/-- No version comes after this one. -/
def lastVersion : UInt64 := 18446744073709551615

theorem toNat_add_one {version : UInt64} (h : version ≠ lastVersion) :
    (version + 1).toNat = version.toNat + 1 := by
  have hlast : version.toNat ≠ 18446744073709551615 := fun heq => h (UInt64.toNat_inj.1 heq)
  have hsize : version.toNat < 2 ^ 64 := version.toNat_lt
  rw [UInt64.toNat_add]
  exact Nat.mod_eq_of_lt (by simp only [UInt64.toNat_one]; omega)

/-- Versions and a summary agree with how rows differ from earlier ones. -/
structure Accounts (old new : Rows) (summary : Summary) : Prop where
  added : ∀ id row, old.row? id = none → new.row? id = some row → row.version = 1
  changed : ∀ id row row', old.row? id = some row → new.row? id = some row' →
    row.payload.same row'.payload = false → row.version ≠ lastVersion →
      row'.version.toNat = row.version.toNat + 1
  kept : ∀ id row row', old.row? id = some row → new.row? id = some row' →
    row.payload.same row'.payload = true → row' = row
  inserted : (addedIds old new).encard = summary.inserted
  updated : (changedIds old new).encard = summary.updated
  deleted : (removedIds old new).encard = summary.deleted

/-! ## What is counted -/

theorem summary_removals (hnodup : removals.Nodup) (acc : Rows × Summary) :
    (removals.foldl commitRemoval acc).2 = { acc.2 with
      deleted := acc.2.deleted + removals.countP fun id => (acc.1.row? id).isSome } := by
  induction removals generalizing acc with
  | nil => rfl
  | cons first rest ih =>
    rcases List.nodup_cons.1 hnodup with ⟨hfirst, hrest⟩
    -- the others are not the first id, so they find the rows that were there
    have hothers : (rest.countP fun id => ((commitRemoval acc first).1.row? id).isSome) =
        rest.countP fun id => (acc.1.row? id).isSome := by
      refine List.countP_congr ?_
      intro id hid
      have hne : id ≠ first := fun heq => hfirst (heq ▸ hid)
      rw [row?_commitRemoval_of_ne acc hne]
    rw [List.foldl_cons, ih hrest, hothers, List.countP_cons]
    unfold commitRemoval
    cases hrow : acc.1.row? first with
    | none => rfl
    | some row =>
      simp only [Option.isSome_some, if_pos]
      congr 1
      omega

/-- What is counted of writes depends on the rows that they find. -/
theorem countP_of_rows {a b : Rows} (h : ∀ write ∈ writes, a.row? write.1 = b.row? write.1)
    (p : Option Row → Json → Bool) : (writes.countP fun write => p (a.row? write.1) write.2) =
      writes.countP fun write => p (b.row? write.1) write.2 := by
  refine List.countP_congr ?_
  intro write hwrite
  rw [h write hwrite]

theorem summary_writes (hnodup : (writes.map (·.1)).Nodup) (acc : Rows × Summary) :
    (writes.foldl commitWrite acc).2 = { acc.2 with
      inserted := acc.2.inserted + writes.countP fun write => (acc.1.row? write.1).isNone
      updated := acc.2.updated +
        writes.countP fun write => (acc.1.row? write.1).any (·.changedBy write.2) } := by
  induction writes generalizing acc with
  | nil => rfl
  | cons first rest ih =>
    rcases List.nodup_cons.1 hnodup with ⟨hfirst, hrest⟩
    -- a write changes no row but that of its own id
    have hothers : ∀ write ∈ rest, (commitWrite acc first).1.row? write.1 = acc.1.row? write.1 := by
      intro write hwrite
      refine row?_commitWrite_of_ne acc ?_
      intro heq
      exact hfirst (List.mem_map.2 ⟨write, hwrite, heq⟩)
    have hinserted : (rest.countP fun write => ((commitWrite acc first).1.row? write.1).isNone) =
        rest.countP fun write => (acc.1.row? write.1).isNone :=
      countP_of_rows hothers fun row _ => row.isNone
    have hupdated : (rest.countP fun write =>
        ((commitWrite acc first).1.row? write.1).any (·.changedBy write.2)) =
        rest.countP fun write => (acc.1.row? write.1).any (·.changedBy write.2) :=
      countP_of_rows hothers fun row payload => row.any (·.changedBy payload)
    rw [List.foldl_cons, ih hrest, hinserted, hupdated, List.countP_cons, List.countP_cons]
    unfold commitWrite
    cases hrow : acc.1.row? first.1 with
    | none =>
      simp only [Option.isNone_none, Option.any_none, if_pos]
      congr 1
      omega
    | some row =>
      cases hchanged : row.changedBy first.2 with
      | false => simp [hchanged]
      | true =>
        simp only [Option.isNone_some, Option.any_some, hchanged, if_pos]
        congr 1
        omega

/-- No id is removed or written twice, and none is removed and written. -/
structure Separate (removals : List EntityId) (writes : List (EntityId × Json)) : Prop where
  removed : removals.Nodup
  written : (writes.map (·.1)).Nodup
  apart : ∀ id ∈ removals, id ∉ writes.map (·.1)

namespace Separate

theorem summary_commit (h : Separate removals writes) (rows : Rows) :
    (rows.commit removals writes).2 =
      ⟨writes.countP fun write => (rows.row? write.1).isNone,
        writes.countP fun write => (rows.row? write.1).any (·.changedBy write.2),
        removals.countP fun id => (rows.row? id).isSome⟩ := by
  -- writes find the rows that were there, as no written id was removed
  have hwritten : ∀ write ∈ writes,
      (removals.foldl commitRemoval (rows, .zero)).1.row? write.1 = rows.row? write.1 := by
    intro write hwrite
    refine row?_removals_of_not_mem ?_ _
    intro hremoval
    exact h.apart _ hremoval (List.mem_map.2 ⟨write, hwrite, rfl⟩)
  have hinserted := countP_of_rows hwritten fun row _ => row.isNone
  have hupdated := countP_of_rows hwritten fun row payload => row.any (·.changedBy payload)
  rw [commit, summary_writes h.written, hinserted, hupdated, summary_removals h.removed]
  simp only [Summary.zero, Nat.zero_add]

/-! ## What becomes of an id -/

/-- An id is written, or removed, or neither. -/
theorem row?_commit_cases (h : Separate removals writes) (rows : Rows) (id : EntityId) :
    (∃ payload, (id, payload) ∈ writes ∧
      (rows.commit removals writes).1.row? id = some (Row.written (rows.row? id) id payload)) ∨
    (id ∈ removals ∧ (rows.commit removals writes).1.row? id = none) ∨
    (id ∉ writes.map (·.1) ∧ id ∉ removals ∧
      (rows.commit removals writes).1.row? id = rows.row? id) := by
  by_cases hwrite : id ∈ writes.map (·.1)
  · rcases List.mem_map.1 hwrite with ⟨⟨_, payload⟩, hmem, rfl⟩
    refine Or.inl ⟨payload, hmem, row?_commit_of_written h.written hmem ?_⟩
    exact fun hremoval => h.apart _ hremoval hwrite
  · by_cases hremoval : id ∈ removals
    · exact Or.inr (Or.inl ⟨hremoval, row?_commit_of_removed hremoval hwrite⟩)
    · exact Or.inr (Or.inr ⟨hwrite, hremoval, row?_commit_of_untouched hremoval hwrite⟩)

end Separate

theorem written_of_same {row : Row} {payload : Json} (h : row.payload.same payload = true)
    (id : EntityId) : Row.written (some row) id payload = row := if_pos h

theorem written_of_changed {row : Row} {payload : Json} (h : row.payload.same payload = false)
    (id : EntityId) :
    Row.written (some row) id payload = { row with payload, version := row.version + 1 } :=
  if_neg (by rw [h]; exact Bool.false_ne_true)

theorem same_written_iff {row : Row} {payload : Json} (id : EntityId) :
    row.payload.same (Row.written (some row) id payload).payload = row.payload.same payload := by
  cases hsame : row.payload.same payload with
  | true => rw [written_of_same hsame, Json.same_refl]
  | false => rw [written_of_changed hsame, hsame]

/-! ## The sets of ids -/

theorem encard_of_nodup {α : Type} {ids : List α} (h : ids.Nodup) :
    {id | id ∈ ids}.encard = ids.length := by
  classical
  rw [← List.coe_toFinset, Set.encard_coe_eq_coe_finsetCard, List.toFinset_card_of_nodup h]

namespace Separate

variable (h : Separate removals writes)
include h

theorem addedIds_commit (rows : Rows) : addedIds rows (rows.commit removals writes).1 =
    {id | id ∈ (writes.filter fun write => (rows.row? write.1).isNone).map (·.1)} := by
  ext id
  constructor
  · rintro ⟨hnone, hsome⟩
    rcases h.row?_commit_cases rows id with ⟨payload, hmem, _⟩ | ⟨_, hrow⟩ | ⟨_, _, hrow⟩
    · exact List.mem_map.2 ⟨_, List.mem_filter.2 ⟨hmem, by simp [hnone]⟩, rfl⟩
    · rw [hrow] at hsome
      cases hsome
    · rw [hrow, hnone] at hsome
      cases hsome
  · intro hid
    rcases List.mem_map.1 hid with ⟨write, hwrite, rfl⟩
    rcases List.mem_filter.1 hwrite with ⟨hmem, hnone⟩
    refine ⟨by simpa using hnone, ?_⟩
    rw [row?_commit_of_written h.written hmem
      fun hremoval => h.apart _ hremoval (List.mem_map.2 ⟨_, hmem, rfl⟩)]
    rfl

theorem changedIds_commit (rows : Rows) : changedIds rows (rows.commit removals writes).1 =
    {id | id ∈ (writes.filter fun write =>
      (rows.row? write.1).any (·.changedBy write.2)).map (·.1)} := by
  ext id
  constructor
  · rintro ⟨row, row', hrow, hrow', hsame⟩
    rcases h.row?_commit_cases rows id with ⟨payload, hmem, hwritten⟩ | ⟨_, hnone⟩ | ⟨_, _, hkept⟩
    · refine List.mem_map.2 ⟨_, List.mem_filter.2 ⟨hmem, ?_⟩, rfl⟩
      rw [hrow] at hwritten
      cases Option.some.inj (hrow'.symm.trans hwritten)
      rw [same_written_iff] at hsame
      simp [hrow, Row.changedBy, hsame]
    · rw [hnone] at hrow'
      cases hrow'
    · rw [hkept, hrow] at hrow'
      cases Option.some.inj hrow'
      rw [Json.same_refl] at hsame
      cases hsame
  · intro hid
    rcases List.mem_map.1 hid with ⟨write, hwrite, rfl⟩
    rcases List.mem_filter.1 hwrite with ⟨hmem, hchanged⟩
    rcases (Option.any_eq_true _ _).1 hchanged with ⟨row, hrow, hchanged⟩
    refine ⟨row, Row.written (some row) write.1 write.2, hrow, ?_, ?_⟩
    · rw [row?_commit_of_written h.written hmem
        fun hremoval => h.apart _ hremoval (List.mem_map.2 ⟨_, hmem, rfl⟩), hrow]
    · rw [same_written_iff]
      simpa [Row.changedBy] using hchanged

theorem removedIds_commit (rows : Rows) : removedIds rows (rows.commit removals writes).1 =
    {id | id ∈ removals.filter fun id => (rows.row? id).isSome} := by
  ext id
  constructor
  · rintro ⟨hsome, hnone⟩
    rcases h.row?_commit_cases rows id with ⟨payload, _, hrow⟩ | ⟨hmem, _⟩ | ⟨_, _, hrow⟩
    · rw [hrow] at hnone
      cases hnone
    · exact List.mem_filter.2 ⟨hmem, hsome⟩
    · rw [hrow] at hnone
      rw [hnone] at hsome
      cases hsome
  · intro hid
    rcases List.mem_filter.1 hid with ⟨hmem, hsome⟩
    exact ⟨hsome, row?_commit_of_removed hmem (h.apart id hmem)⟩

/-- The summary of a commit is exact, and so are the versions. -/
theorem accounts_commit (rows : Rows) :
    Accounts rows (rows.commit removals writes).1 (rows.commit removals writes).2 := by
  constructor
  case added =>
    intro id row hnone hrow
    rcases h.row?_commit_cases rows id with ⟨payload, _, hwritten⟩ | ⟨_, hgone⟩ | ⟨_, _, hkept⟩
    · rw [hnone] at hwritten
      cases Option.some.inj (hrow.symm.trans hwritten)
      rfl
    · rw [hgone] at hrow
      cases hrow
    · rw [hkept, hnone] at hrow
      cases hrow
  case changed =>
    intro id row row' hrow hrow' hchanged hversion
    rcases h.row?_commit_cases rows id with ⟨payload, _, hwritten⟩ | ⟨_, hgone⟩ | ⟨_, _, hkept⟩
    · rw [hrow] at hwritten
      cases Option.some.inj (hrow'.symm.trans hwritten)
      rw [same_written_iff] at hchanged
      rw [written_of_changed hchanged]
      exact toNat_add_one hversion
    · rw [hgone] at hrow'
      cases hrow'
    · cases Option.some.inj (hrow'.symm.trans (hkept.trans hrow))
      rw [Json.same_refl] at hchanged
      cases hchanged
  case kept =>
    intro id row row' hrow hrow' hsame
    rcases h.row?_commit_cases rows id with ⟨payload, _, hwritten⟩ | ⟨_, hgone⟩ | ⟨_, _, hkept⟩
    · rw [hrow] at hwritten
      cases Option.some.inj (hrow'.symm.trans hwritten)
      rw [same_written_iff] at hsame
      exact written_of_same hsame id
    · rw [hgone] at hrow'
      cases hrow'
    · exact Option.some.inj (hrow'.symm.trans (hkept.trans hrow))
  case inserted =>
    rw [h.addedIds_commit, encard_of_nodup (h.written.sublist (List.filter_sublist.map _)),
      List.length_map, ← List.countP_eq_length_filter, h.summary_commit]
  case updated =>
    rw [h.changedIds_commit, encard_of_nodup (h.written.sublist (List.filter_sublist.map _)),
      List.length_map, ← List.countP_eq_length_filter, h.summary_commit]
  case deleted =>
    rw [h.removedIds_commit, encard_of_nodup (h.removed.filter _),
      ← List.countP_eq_length_filter, h.summary_commit]

end Separate

end Rows

end Reconcile
