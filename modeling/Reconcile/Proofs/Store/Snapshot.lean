import Reconcile.Proofs.Data.Outcome
import Reconcile.Proofs.Data.SortedMap
import Reconcile.Store.Snapshot

/-!
# What the check of a snapshot promises

A snapshot is well-formed for a schema if it has the schema's version, every entity that it has a
table for is described, and every row stands under its own id, below the next key, with a payload
that fits (`WellFormed`).  The check accepts these snapshots and no others, and its fault is that of
the first violation: tables in the order of their names, rows in the order of their keys
(`FirstFault`).
-/

namespace Reconcile

namespace Snapshot

variable {s : Snapshot} {schema : Schema} {d : Description} {entity : String} {key : UInt64}
  {row : Row} {table : SortedMap UInt64 Row} {fault : Fault}

/-! ## Well-formed snapshots -/

/-- The row stands under its own id, below the next key, and its payload fits. -/
structure FitsRow (s : Snapshot) (d : Description) (id : EntityId) (row : Row) : Prop where
  filed : row.id = id
  below : id.key < s.nextKey
  payload : d.check row.payload = .ok ()

/-- The entity is described, and the rows of its table fit. -/
def FitsTable (s : Snapshot) (schema : Schema) (entity : String)
    (table : SortedMap UInt64 Row) : Prop :=
  ∃ d, schema.description? entity = some d ∧
    ∀ key row, table.get? key = some row → s.FitsRow d ⟨entity, key⟩ row

/-- A snapshot for stores of this schema. -/
structure WellFormed (s : Snapshot) (schema : Schema) : Prop where
  version : s.schemaVersion = schema.version
  tables : ∀ entity table, s.entities.get? entity = some table → s.FitsTable schema entity table

/-- What a row that does not fit is refused for: its place, then its key, then its payload. -/
inductive RowFault (s : Snapshot) (d : Description) (id : EntityId) (row : Row) : Fault → Prop where
  | misfiled : row.id ≠ id →
      RowFault s d id row (.invalidSnapshot (.misfiled row.id id.entity id.key))
  | notBelow : row.id = id → s.nextKey ≤ id.key →
      RowFault s d id row (.invalidSnapshot (.notBelowNextKey row.id s.nextKey))
  | payload {fault : Fault} : row.id = id → id.key < s.nextKey →
      d.check row.payload = .error fault → RowFault s d id row fault

/-- What a table that does not fit is refused for: its entity, then the first row that does not
fit. -/
inductive TableFault (s : Snapshot) (schema : Schema) (entity : String)
    (table : SortedMap UInt64 Row) : Fault → Prop where
  | undescribed : schema.description? entity = none →
      TableFault s schema entity table (.entityNotFound entity)
  | row {d : Description} {key : UInt64} {row : Row} {fault : Fault} :
      schema.description? entity = some d → table.get? key = some row →
      RowFault s d ⟨entity, key⟩ row fault →
      (∀ key' row', key' < key → table.get? key' = some row' →
        s.FitsRow d ⟨entity, key'⟩ row') →
      TableFault s schema entity table fault

/-- The first violation of a snapshot: its version, then the first table that does not fit. -/
inductive FirstFault (s : Snapshot) (schema : Schema) : Fault → Prop where
  | version : s.schemaVersion ≠ schema.version →
      FirstFault s schema (.schemaVersionMismatch schema.version s.schemaVersion)
  | table {entity : String} {table : SortedMap UInt64 Row} {fault : Fault} :
      s.schemaVersion = schema.version → s.entities.get? entity = some table →
      TableFault s schema entity table fault →
      (∀ entity' table', entity' < entity → s.entities.get? entity' = some table' →
        s.FitsTable schema entity' table') →
      FirstFault s schema fault

/-! ## What the check answers -/

theorem checkRow_eq_ok_iff :
    s.checkRow d entity key row = .ok () ↔ s.FitsRow d ⟨entity, key⟩ row := by
  constructor
  · intro h
    unfold checkRow at h
    split at h
    · cases h
    · next hid =>
      split at h
      · cases h
      · next hkey => exact ⟨not_not.1 hid, UInt64.not_le.1 hkey, h⟩
  · intro h
    rw [checkRow, if_neg (not_not.2 h.filed), if_neg (UInt64.not_le.2 h.below), h.payload]

theorem checkRow_eq_error_iff :
    s.checkRow d entity key row = .error fault ↔ s.RowFault d ⟨entity, key⟩ row fault := by
  constructor
  · intro h
    unfold checkRow at h
    split at h
    · next hid =>
      cases h
      exact .misfiled hid
    · next hid =>
      split at h
      · next hkey =>
        cases h
        exact .notBelow (not_not.1 hid) hkey
      · next hkey => exact .payload (not_not.1 hid) (UInt64.not_le.1 hkey) h
  · intro h
    cases h with
    | misfiled hid => rw [checkRow, if_pos hid]
    | notBelow hid hkey => rw [checkRow, if_neg (not_not.2 hid), if_pos hkey]
    | payload hid hkey hpayload =>
      rw [checkRow, if_neg (not_not.2 hid), if_neg (UInt64.not_le.2 hkey), hpayload]

theorem checkRows_eq_forM (rows : List (UInt64 × Row)) :
    s.checkRows d entity rows = forM rows fun e => s.checkRow d entity e.1 e.2 := by
  induction rows with
  | nil => rfl
  | cons e rest ih => rw [checkRows, ih, List.forM_cons]

/-- One table on its own: the entity is described, and all its rows pass. -/
def checkTable (s : Snapshot) (schema : Schema) (entity : String)
    (table : SortedMap UInt64 Row) : Except Fault Unit := do
  let d ← schema.require entity
  s.checkRows d entity table.toList

theorem checkTables_eq_forM (tables : List (String × SortedMap UInt64 Row)) :
    s.checkTables schema tables = forM tables fun t => s.checkTable schema t.1 t.2 := by
  induction tables with
  | nil => rfl
  | cons t rest ih =>
    rw [checkTables, ih, List.forM_cons, checkTable]
    cases schema.require t.1 <;> rfl

theorem require_eq_ok_iff : schema.require entity = .ok d ↔ schema.description? entity = some d := by
  unfold Schema.require
  cases schema.description? entity <;> simp

theorem checkTable_eq_ok_iff :
    s.checkTable schema entity table = .ok () ↔ s.FitsTable schema entity table := by
  rw [checkTable, Outcome.bind_eq_ok]
  constructor
  · rintro ⟨d, hd, hrows⟩
    rw [checkRows_eq_forM, SortedMap.forM_toList_eq_ok] at hrows
    exact ⟨d, require_eq_ok_iff.1 hd, fun key row hget => checkRow_eq_ok_iff.1 (hrows key row hget)⟩
  · rintro ⟨d, hd, hrows⟩
    refine ⟨d, require_eq_ok_iff.2 hd, ?_⟩
    rw [checkRows_eq_forM, SortedMap.forM_toList_eq_ok]
    exact fun key row hget => checkRow_eq_ok_iff.2 (hrows key row hget)

theorem checkTable_eq_error_iff :
    s.checkTable schema entity table = .error fault ↔ s.TableFault schema entity table fault := by
  have hkeys : ∀ key' key : UInt64, compare key' key = .lt ↔ key' < key :=
    fun _ _ => compareOfLessAndEq_eq_lt
  rw [checkTable, Outcome.bind_eq_error]
  constructor
  · rintro (hnone | ⟨d, hd, hrows⟩)
    · unfold Schema.require at hnone
      split at hnone
      · cases hnone
      · next hdescription =>
        cases hnone
        exact .undescribed hdescription
    · rw [checkRows_eq_forM, SortedMap.forM_toList_eq_error] at hrows
      rcases hrows with ⟨key, row, hget, hfault, hbefore⟩
      refine .row (require_eq_ok_iff.1 hd) hget (checkRow_eq_error_iff.1 hfault) ?_
      intro key' row' hlt hget'
      exact checkRow_eq_ok_iff.1 (hbefore key' row' ((hkeys key' key).2 hlt) hget')
  · intro h
    cases h with
    | undescribed hnone =>
      rw [Schema.require, hnone]
      exact Or.inl rfl
    | @row d key row _ hd hget hfault hbefore =>
      refine Or.inr ⟨d, require_eq_ok_iff.2 hd, ?_⟩
      rw [checkRows_eq_forM, SortedMap.forM_toList_eq_error]
      refine ⟨key, row, hget, checkRow_eq_error_iff.2 hfault, ?_⟩
      intro key' row' hlt hget'
      exact checkRow_eq_ok_iff.2 (hbefore key' row' ((hkeys key' key).1 hlt) hget')

theorem check_eq_ok_iff : s.check schema = .ok () ↔ s.WellFormed schema := by
  rw [check]
  constructor
  · intro h
    split at h
    · cases h
    · next hversion =>
      rw [checkTables_eq_forM, SortedMap.forM_toList_eq_ok] at h
      exact ⟨not_not.1 hversion,
        fun entity table hget => checkTable_eq_ok_iff.1 (h entity table hget)⟩
  · intro h
    rw [if_neg (not_not.2 h.version), checkTables_eq_forM, SortedMap.forM_toList_eq_ok]
    exact fun entity table hget => checkTable_eq_ok_iff.2 (h.tables entity table hget)

theorem check_eq_error_iff : s.check schema = .error fault ↔ s.FirstFault schema fault := by
  have hnames : ∀ entity' entity : String, compare entity' entity = .lt ↔ entity' < entity :=
    fun _ _ => compareOfLessAndEq_eq_lt
  rw [check]
  constructor
  · intro h
    split at h
    · next hversion =>
      cases h
      exact .version hversion
    · next hversion =>
      rw [checkTables_eq_forM, SortedMap.forM_toList_eq_error] at h
      rcases h with ⟨entity, table, hget, hfault, hbefore⟩
      refine .table (not_not.1 hversion) hget (checkTable_eq_error_iff.1 hfault) ?_
      intro entity' table' hlt hget'
      exact checkTable_eq_ok_iff.1 (hbefore entity' table' ((hnames entity' entity).2 hlt) hget')
  · intro h
    cases h with
    | version hversion => rw [if_pos hversion]
    | @table entity table _ hversion hget hfault hbefore =>
      rw [if_neg (not_not.2 hversion), checkTables_eq_forM, SortedMap.forM_toList_eq_error]
      refine ⟨entity, table, hget, checkTable_eq_error_iff.2 hfault, ?_⟩
      intro entity' table' hlt hget'
      exact checkTable_eq_ok_iff.2 (hbefore entity' table' ((hnames entity' entity).1 hlt) hget')

theorem WellFormed.fitsRow (h : s.WellFormed schema) {id : EntityId}
    (hrow : s.entities.row? id = some row) :
    ∃ d, schema.description? id.entity = some d ∧ s.FitsRow d id row := by
  rcases Option.bind_eq_some_iff.1 hrow with ⟨table, htable, hget⟩
  rcases h.tables _ _ htable with ⟨d, hd, hrows⟩
  exact ⟨d, hd, hrows _ _ hget⟩

theorem row?_of_check (h : s.check schema = .ok ()) {id : EntityId}
    (hrow : s.entities.row? id = some row) : row.id = id ∧ id.key < s.nextKey ∧
      ∃ d, schema.require id.entity = .ok d ∧ d.check row.payload = .ok () := by
  rcases (check_eq_ok_iff.1 h).fitsRow hrow with ⟨d, hd, hfits⟩
  exact ⟨hfits.filed, hfits.below, d, require_eq_ok_iff.2 hd, hfits.payload⟩

end Snapshot

end Reconcile
