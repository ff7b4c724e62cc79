import Mathlib.Data.List.Nodup
import Reconcile.Proofs.Data.SortedMap
import Reconcile.Store.Commit

/-!
# What a commit leaves in each row

A commit is a list of removals and then a list of writes.  Of one id it leaves nothing if the id is
removed, the row of the payload if it is written (`Row.written`), and what was there if it is
neither.
-/

namespace Reconcile

/-- The row that stands under an id after a payload was written to it. -/
def Row.written (old : Option Row) (id : EntityId) (payload : Json) : Row :=
  match old with
  | some row => row.update payload
  | none => .new id payload

namespace Rows

/-! ## Filing and taking out -/

@[simp]
theorem row?_empty (id : EntityId) : row? SortedMap.empty id = none := rfl

/-- Every row stands under its own id. -/
def Filed (rows : Rows) : Prop := ∀ id row, rows.row? id = some row → row.id = id

theorem filed_empty : Filed SortedMap.empty := by
  intro id row h
  cases h

theorem row?_eq_ofEntity (rows : Rows) (id : EntityId) :
    rows.row? id = (rows.ofEntity id.entity).get? id.key := by
  unfold row? ofEntity
  cases rows.get? id.entity <;> rfl

theorem ofEntity_insert_self (rows : Rows) (entity : String) (table : SortedMap UInt64 Row) :
    ofEntity (SortedMap.insert rows entity table) entity = table := by
  simp [ofEntity]

theorem ofEntity_insert_of_ne (rows : Rows) {entity other : String} (h : other ≠ entity)
    (table : SortedMap UInt64 Row) :
    ofEntity (SortedMap.insert rows entity table) other = rows.ofEntity other := by
  simp [ofEntity, SortedMap.get?_insert_of_ne rows table h]

theorem row?_file_self (rows : Rows) (id : EntityId) (row : Row) :
    (rows.file id.entity id.key row).row? id = some row := by
  rw [row?_eq_ofEntity, file, ofEntity_insert_self, SortedMap.get?_insert_self]

theorem row?_file_of_ne (rows : Rows) {id other : EntityId} (h : other ≠ id) (row : Row) :
    (rows.file id.entity id.key row).row? other = rows.row? other := by
  rw [row?_eq_ofEntity, row?_eq_ofEntity, file]
  by_cases hentity : other.entity = id.entity
  · have hkey : other.key ≠ id.key := by
      intro hkey
      cases id
      cases other
      simp_all
    rw [hentity, ofEntity_insert_self, SortedMap.get?_insert_of_ne _ _ hkey]
  · rw [ofEntity_insert_of_ne rows hentity]

theorem row?_remove_self (rows : Rows) (id : EntityId) : (rows.remove id).row? id = none := by
  unfold remove
  split
  · rw [row?_eq_ofEntity, ofEntity_insert_self, SortedMap.get?_erase_self]
  · next h => simp [row?, h]

theorem row?_remove_of_ne (rows : Rows) {id other : EntityId} (h : other ≠ id) :
    (rows.remove id).row? other = rows.row? other := by
  unfold remove
  split
  · next held hheld =>
    rw [row?_eq_ofEntity, row?_eq_ofEntity]
    by_cases hentity : other.entity = id.entity
    · have hkey : other.key ≠ id.key := by
        intro hkey
        cases id
        cases other
        simp_all
      rw [hentity, ofEntity_insert_self, SortedMap.get?_erase_of_ne _ hkey]
      simp [ofEntity, hheld]
    · rw [ofEntity_insert_of_ne rows hentity]
  · rfl

/-! ## Removals -/

theorem row?_commitRemoval_self (acc : Rows × Summary) (id : EntityId) :
    (commitRemoval acc id).1.row? id = none := by
  unfold commitRemoval
  split
  · exact row?_remove_self acc.1 id
  · next h => exact h

theorem row?_commitRemoval_of_ne (acc : Rows × Summary) {id other : EntityId} (h : other ≠ id) :
    (commitRemoval acc id).1.row? other = acc.1.row? other := by
  unfold commitRemoval
  split
  · exact row?_remove_of_ne acc.1 h
  · rfl

theorem row?_removals_of_not_mem {id : EntityId} {removals : List EntityId} (h : id ∉ removals)
    (acc : Rows × Summary) : (removals.foldl commitRemoval acc).1.row? id = acc.1.row? id := by
  induction removals generalizing acc with
  | nil => rfl
  | cons first rest ih =>
    have hne : id ≠ first := fun heq => h (heq ▸ List.mem_cons_self)
    rw [List.foldl_cons, ih fun hrest => h (List.mem_cons_of_mem _ hrest)]
    exact row?_commitRemoval_of_ne acc hne

theorem row?_removals_of_mem {id : EntityId} {removals : List EntityId} (h : id ∈ removals)
    (acc : Rows × Summary) : (removals.foldl commitRemoval acc).1.row? id = none := by
  induction removals generalizing acc with
  | nil => cases h
  | cons first rest ih =>
    rw [List.foldl_cons]
    by_cases hrest : id ∈ rest
    · exact ih hrest _
    · have hfirst : id = first := (List.mem_cons.1 h).resolve_right hrest
      subst hfirst
      rw [row?_removals_of_not_mem hrest]
      exact row?_commitRemoval_self acc id

/-! ## Writes -/

theorem row?_commitWrite_self (acc : Rows × Summary) (id : EntityId) (payload : Json) :
    (commitWrite acc (id, payload)).1.row? id =
      some (Row.written (acc.1.row? id) id payload) := by
  unfold commitWrite
  split
  · next row hrow =>
    rw [hrow]
    split
    · exact row?_file_self acc.1 id _
    · next hsame =>
      have hkept : row.update payload = row := by
        unfold Row.update
        rw [if_pos (by simpa [Row.changedBy] using hsame)]
      rw [Row.written, hkept]
      exact hrow
  · next hrow =>
    rw [hrow]
    exact row?_file_self acc.1 id _

theorem row?_commitWrite_of_ne (acc : Rows × Summary) {write : EntityId × Json} {id : EntityId}
    (h : id ≠ write.1) : (commitWrite acc write).1.row? id = acc.1.row? id := by
  unfold commitWrite
  split
  · split
    · exact row?_file_of_ne acc.1 h _
    · rfl
  · exact row?_file_of_ne acc.1 h _

theorem row?_writes_of_not_mem {id : EntityId} {writes : List (EntityId × Json)}
    (h : id ∉ writes.map (·.1)) (acc : Rows × Summary) :
    (writes.foldl commitWrite acc).1.row? id = acc.1.row? id := by
  induction writes generalizing acc with
  | nil => rfl
  | cons first rest ih =>
    rw [List.map_cons, List.mem_cons, not_or] at h
    rw [List.foldl_cons, ih h.2]
    exact row?_commitWrite_of_ne acc h.1

theorem row?_writes_of_mem {id : EntityId} {payload : Json} {writes : List (EntityId × Json)}
    (hnodup : (writes.map (·.1)).Nodup) (h : (id, payload) ∈ writes) (acc : Rows × Summary) :
    (writes.foldl commitWrite acc).1.row? id =
      some (Row.written (acc.1.row? id) id payload) := by
  induction writes generalizing acc with
  | nil => cases h
  | cons first rest ih =>
    rw [List.map_cons, List.nodup_cons] at hnodup
    rw [List.foldl_cons]
    rcases List.mem_cons.1 h with rfl | hrest
    · rw [row?_writes_of_not_mem hnodup.1]
      exact row?_commitWrite_self acc id payload
    · have hne : id ≠ first.1 := by
        intro heq
        exact hnodup.1 (heq ▸ List.mem_map.2 ⟨_, hrest, rfl⟩)
      rw [ih hnodup.2 hrest, row?_commitWrite_of_ne acc hne]

/-! ## Ids -/

theorem Filed.commitRemoval {acc : Rows × Summary} (h : Filed acc.1) (id : EntityId) :
    Filed (commitRemoval acc id).1 := by
  intro other row hrow
  by_cases hid : other = id
  · rw [hid, row?_commitRemoval_self] at hrow
    cases hrow
  · rw [row?_commitRemoval_of_ne acc hid] at hrow
    exact h other row hrow

theorem id_written {old : Option Row} {id : EntityId} (h : ∀ row, old = some row → row.id = id)
    (payload : Json) : (Row.written old id payload).id = id := by
  cases old with
  | none => rfl
  | some row =>
    have hid : row.id = id := h row rfl
    unfold Row.written Row.update
    dsimp only
    split <;> exact hid

theorem Filed.commitWrite {acc : Rows × Summary} (h : Filed acc.1) (write : EntityId × Json) :
    Filed (commitWrite acc write).1 := by
  intro other row hrow
  by_cases hid : other = write.1
  · rw [hid, row?_commitWrite_self] at hrow
    cases Option.some.inj hrow
    rw [hid]
    exact id_written (h write.1) write.2
  · rw [row?_commitWrite_of_ne acc hid] at hrow
    exact h other row hrow

theorem Filed.commit {rows : Rows} (h : Filed rows) (removals : List EntityId)
    (writes : List (EntityId × Json)) : Filed (rows.commit removals writes).1 := by
  have hremovals : ∀ (acc : Rows × Summary), Filed acc.1 →
      Filed (removals.foldl Rows.commitRemoval acc).1 := by
    induction removals with
    | nil => exact fun _ hacc => hacc
    | cons id rest ih => exact fun acc hacc => ih _ (hacc.commitRemoval id)
  have hwrites : ∀ (acc : Rows × Summary), Filed acc.1 →
      Filed (writes.foldl Rows.commitWrite acc).1 := by
    clear hremovals
    induction writes with
    | nil => exact fun _ hacc => hacc
    | cons write rest ih => exact fun acc hacc => ih _ (hacc.commitWrite write)
  exact hwrites _ (hremovals _ h)

/-! ## A whole commit -/

variable {rows : Rows} {removals : List EntityId} {writes : List (EntityId × Json)} {id : EntityId}

theorem row?_commit_of_written {payload : Json} (hnodup : (writes.map (·.1)).Nodup)
    (hwrite : (id, payload) ∈ writes) (hremoval : id ∉ removals) :
    (rows.commit removals writes).1.row? id =
      some (Row.written (rows.row? id) id payload) := by
  rw [commit, row?_writes_of_mem hnodup hwrite, row?_removals_of_not_mem hremoval]

theorem row?_commit_of_removed (hremoval : id ∈ removals) (hwrite : id ∉ writes.map (·.1)) :
    (rows.commit removals writes).1.row? id = none := by
  rw [commit, row?_writes_of_not_mem hwrite, row?_removals_of_mem hremoval]

theorem row?_commit_of_untouched (hremoval : id ∉ removals) (hwrite : id ∉ writes.map (·.1)) :
    (rows.commit removals writes).1.row? id = rows.row? id := by
  rw [commit, row?_writes_of_not_mem hwrite, row?_removals_of_not_mem hremoval]

/-- A commit that takes nothing out and writes what is there changes nothing. -/
theorem commit_of_same (hwrites : ∀ write ∈ writes, ∃ row, rows.row? write.1 = some row ∧
    row.payload.same write.2 = true) : rows.commit [] writes = (rows, .zero) := by
  rw [commit, List.foldl_nil]
  induction writes with
  | nil => rfl
  | cons first rest ih =>
    rcases hwrites first List.mem_cons_self with ⟨row, hrow, hsame⟩
    have hkept : commitWrite (rows, .zero) first = (rows, .zero) := by
      unfold commitWrite
      rw [hrow]
      exact if_neg (by simp [Row.changedBy, hsame])
    rw [List.foldl_cons, hkept]
    exact ih fun write hwrite => hwrites write (List.mem_cons_of_mem _ hwrite)

end Rows

end Reconcile
