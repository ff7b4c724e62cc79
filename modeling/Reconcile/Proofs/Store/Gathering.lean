import Mathlib.Algebra.Order.Group.Nat
import Mathlib.Data.Finset.Card
import Mathlib.Data.List.Nodup
import Mathlib.Order.Bounds.Basic
import Reconcile.Proofs.Schema.Checking
import Reconcile.Proofs.Store.Commit
import Reconcile.Proofs.Store.Snapshot
import Reconcile.Sample.Schema
import Reconcile.Store.SnapshotText

/-!
# Snapshots gathered from rows

Rows are added to a snapshot one after another.  The snapshot then holds the last row of every id
and nothing else, each under its own id and below the next key (`Gathers`), so that a check can only
take exception to an entity without a description or to a payload.  Rows with different ids can be
added in any order.
-/

namespace Reconcile

/-! ## Ids with a row -/

namespace Rows

variable {rows : Rows} {id other : EntityId} {entity : String}

/-- The ids that have a row, table by table. -/
def ids (rows : Rows) : List EntityId :=
  rows.toList.flatMap fun table => table.2.keys.map fun key => ⟨table.1, key⟩

theorem length_ids (rows : Rows) : rows.ids.length = rows.count := by
  have hcount : ∀ (tables : List (String × SortedMap UInt64 Row)) (n : Nat),
      (tables.map (·.2)).foldl (fun n held => n + held.size) n = n +
        (tables.flatMap fun table =>
          table.2.keys.map fun key => (⟨table.1, key⟩ : EntityId)).length := by
    intro tables
    induction tables with
    | nil => exact fun _ => rfl
    | cons table rest ih =>
      intro n
      rw [List.map_cons, List.foldl_cons, ih, List.flatMap_cons, List.length_append,
        List.length_map, SortedMap.keys, List.length_map, SortedMap.size, Nat.add_assoc]
  exact ((hcount rows.toList 0).trans (Nat.zero_add _)).symm

theorem mem_ids_iff : id ∈ rows.ids ↔ (rows.row? id).isSome := by
  rw [ids, List.mem_flatMap, row?]
  constructor
  · rintro ⟨⟨entity, table⟩, htable, hid⟩
    rcases List.mem_map.1 hid with ⟨key, hkey, rfl⟩
    rw [SortedMap.mem_toList_iff.1 htable]
    exact SortedMap.mem_keys_iff.1 hkey
  · intro h
    cases htable : rows.get? id.entity with
    | none =>
      rw [htable] at h
      cases h
    | some table =>
      rw [htable] at h
      refine ⟨(id.entity, table), SortedMap.mem_toList_iff.2 htable, ?_⟩
      exact List.mem_map.2 ⟨id.key, SortedMap.mem_keys_iff.2 h, rfl⟩

theorem nodup_ids (rows : Rows) : rows.ids.Nodup := by
  refine List.nodup_flatMap.2 ⟨?_, ?_⟩
  · rintro ⟨entity, table⟩ _
    refine table.nodup_keys.map ?_
    intro key key' heq
    exact congrArg EntityId.key heq
  · -- ids of two tables differ in their entities
    have hentities : rows.toList.Pairwise fun a b => a.1 ≠ b.1 :=
      List.pairwise_map.1 rows.nodup_keys
    refine hentities.imp ?_
    rintro ⟨entity, table⟩ ⟨entity', table'⟩ hne id hid hid'
    rcases List.mem_map.1 hid with ⟨key, _, rfl⟩
    rcases List.mem_map.1 hid' with ⟨key', _, heq⟩
    exact hne (congrArg EntityId.entity heq).symm

/-- The rows are as many as the ids that have one. -/
theorem count_eq_card {ids : Finset EntityId} (h : ∀ id, id ∈ ids ↔ (rows.row? id).isSome) :
    rows.count = ids.card := by
  have hids : rows.ids.toFinset = ids := by
    ext id
    rw [List.mem_toFinset, mem_ids_iff, h]
  rw [← length_ids, ← List.toFinset_card_of_nodup rows.nodup_ids, hids]

/-! ## Filing -/

theorem isSome_table_file (rows : Rows) (id : EntityId) (row : Row) (entity : String) :
    ((rows.file id.entity id.key row).get? entity).isSome ↔
      (rows.get? entity).isSome ∨ id.entity = entity := by
  rw [file]
  by_cases hentity : entity = id.entity
  · subst hentity
    simp
  · rw [SortedMap.get?_insert_of_ne _ _ hentity]
    simp [Ne.symm hentity]

/-- Rows of different ids do not get in each other's way. -/
theorem file_comm (rows : Rows) (h : id ≠ other) (row row' : Row) :
    (rows.file id.entity id.key row).file other.entity other.key row' =
      (rows.file other.entity other.key row').file id.entity id.key row := by
  unfold file
  by_cases hentity : id.entity = other.entity
  · have hkey : id.key ≠ other.key := by
      intro hkey
      cases id
      cases other
      simp_all
    rw [hentity, ofEntity_insert_self, ofEntity_insert_self, SortedMap.insert_insert,
      SortedMap.insert_insert, SortedMap.insert_comm _ hkey]
  · rw [ofEntity_insert_of_ne rows (Ne.symm hentity), ofEntity_insert_of_ne rows hentity,
      SortedMap.insert_comm _ hentity]

end Rows

/-! ## Adding rows -/

namespace Snapshot

variable {s : Snapshot} {schema : Schema} {row a b : Row} {rows rows' : List Row} {id : EntityId}

/-- What rows add up to, from the first to the last. -/
def ofRows (schemaVersion : UInt32) (rows : List Row) : Snapshot :=
  rows.foldl add (.empty schemaVersion)

theorem ofRows_concat (schemaVersion : UInt32) (rows : List Row) (row : Row) :
    ofRows schemaVersion (rows ++ [row]) = (ofRows schemaVersion rows).add row := by
  rw [ofRows, List.foldl_append]
  rfl

theorem schemaVersion_ofRows (schemaVersion : UInt32) (rows : List Row) :
    (ofRows schemaVersion rows).schemaVersion = schemaVersion := by
  induction rows using List.reverseRecOn with
  | nil => rfl
  | append_singleton rows row ih => rw [ofRows_concat, add, ih]

/-- The snapshot holds the last row of every id, has no other rows and no empty tables, and its next
key is one above the largest key, or 1. -/
structure Gathers (s : Snapshot) (rows : List Row) : Prop where
  row : ∀ id, s.entities.row? id = (rows.filter fun row => row.id = id).getLast?
  table : ∀ entity, (s.entities.get? entity).isSome ↔ ∃ row ∈ rows, row.id.entity = entity
  nextKey : IsGreatest (insert 1 {n | ∃ row ∈ rows, row.id.key.toNat + 1 = n}) s.nextKey.toNat

theorem gathers_empty (schemaVersion : UInt32) : (empty schemaVersion).Gathers [] := by
  constructor
  case row => exact fun _ => rfl
  case table =>
    intro entity
    simp [empty]
  case nextKey =>
    simp [empty]

theorem toNat_max (m n : UInt64) : (max m n).toNat = max m.toNat n.toNat := by
  have hmax : max m n = if m ≤ n then n else m := rfl
  rw [hmax]
  split
  · next h => exact (Nat.max_eq_right (UInt64.le_iff_toNat_le.1 h)).symm
  · next h =>
    have hlt := UInt64.lt_iff_toNat_lt.1 (UInt64.not_le.1 h)
    exact (Nat.max_eq_left (Nat.le_of_lt hlt)).symm

/-- One more row takes the place of the last one with its id. -/
theorem Gathers.add (h : s.Gathers rows) (hkey : row.id.key.toNat + 1 < UInt64.size) :
    (s.add row).Gathers (rows ++ [row]) := by
  constructor
  case row =>
    intro id
    rw [Snapshot.add, List.filter_append]
    by_cases hid : id = row.id
    · subst hid
      rw [Rows.row?_file_self, List.filter_cons_of_pos (by simp), List.filter_nil,
        List.getLast?_concat]
    · rw [Rows.row?_file_of_ne _ hid, h.row, List.filter_cons_of_neg (by simpa using Ne.symm hid),
        List.filter_nil, List.append_nil]
  case table =>
    intro entity
    rw [Snapshot.add, Rows.isSome_table_file, h.table]
    simp [or_and_right, exists_or]
  case nextKey =>
    have hnext : (row.id.key + 1).toNat = row.id.key.toNat + 1 := by
      rw [UInt64.toNat_add, UInt64.toNat_one, Nat.mod_eq_of_lt hkey]
    have hkeys : insert 1 {n | ∃ row' ∈ rows ++ [row], row'.id.key.toNat + 1 = n} =
        insert (row.id.key.toNat + 1) (insert 1 {n | ∃ row ∈ rows, row.id.key.toNat + 1 = n}) := by
      ext n
      simp only [Set.mem_insert_iff, Set.mem_ofPred_eq, List.mem_append, List.mem_singleton,
        or_and_right, exists_or, exists_eq_left, eq_comm (a := n)]
      exact or_assoc.symm.trans or_comm
    rw [Snapshot.add, toNat_max, hnext, hkeys, Nat.max_comm]
    exact h.nextKey.insert _

theorem gathers_ofRows (schemaVersion : UInt32)
    (hkeys : ∀ row ∈ rows, row.id.key.toNat + 1 < UInt64.size) :
    (ofRows schemaVersion rows).Gathers rows := by
  induction rows using List.reverseRecOn with
  | nil => exact gathers_empty schemaVersion
  | append_singleton rows row ih =>
    rcases List.forall_mem_append.1 hkeys with ⟨hrows, hrow⟩
    rw [ofRows_concat]
    exact (ih hrows).add (hrow row List.mem_cons_self)

theorem add_comm (s : Snapshot) (h : a.id ≠ b.id) : (s.add a).add b = (s.add b).add a := by
  have hkey : max (max s.nextKey (a.id.key + 1)) (b.id.key + 1) =
      max (max s.nextKey (b.id.key + 1)) (a.id.key + 1) := by
    refine UInt64.toNat_inj.1 ?_
    rw [toNat_max, toNat_max, toNat_max, toNat_max, max_right_comm]
  simp only [add, hkey, Rows.file_comm s.entities h]

/-- The order of rows with different ids does not matter. -/
theorem ofRows_perm (schemaVersion : UInt32) (hperm : rows'.Perm rows)
    (hnodup : (rows.map Row.id).Nodup) :
    ofRows schemaVersion rows' = ofRows schemaVersion rows := by
  refine (hperm.symm.foldl_eq' ?_ _).symm
  intro a ha b hb s
  by_cases heq : a = b
  · rw [heq]
  · exact s.add_comm fun hid => heq (List.inj_on_of_nodup_map hnodup ha hb hid)

/-! ## Checking what was gathered -/

namespace Gathers

variable (h : s.Gathers rows)
include h

theorem count_eq : s.count = (rows.map Row.id).toFinset.card := by
  refine Rows.count_eq_card fun id => ?_
  rw [h.row, List.getLast?_isSome, List.mem_toFinset]
  simp [List.filter_eq_nil_iff]

/-- A row that is held was added, and stands under its own id. -/
theorem mem_of_row? (hrow : s.entities.row? id = some row) : row ∈ rows ∧ row.id = id := by
  rw [h.row] at hrow
  simpa using List.mem_filter.1 (List.mem_of_getLast? hrow)

theorem key_lt (hrow : row ∈ rows) : row.id.key < s.nextKey :=
  UInt64.lt_iff_toNat_lt.2 (h.nextKey.2 (Or.inr ⟨row, hrow, rfl⟩))

theorem wellFormed_iff (hversion : s.schemaVersion = schema.version) :
    s.WellFormed schema ↔ (∀ row ∈ rows, ∃ d, schema.description? row.id.entity = some d) ∧
      ∀ id row d, s.entities.row? id = some row → schema.description? id.entity = some d →
        d.check row.payload = .ok () := by
  constructor
  · intro hformed
    constructor
    · intro row hrow
      rcases Option.isSome_iff_exists.1 ((h.table _).2 ⟨row, hrow, rfl⟩) with ⟨table, htable⟩
      rcases hformed.tables _ _ htable with ⟨d, hd, _⟩
      exact ⟨d, hd⟩
    · intro id row d hrow hd
      rcases hformed.fitsRow hrow with ⟨d', hd', hfits⟩
      cases hd.symm.trans hd'
      exact hfits.payload
  · rintro ⟨hdescribed, hvalid⟩
    refine ⟨hversion, fun entity table htable => ?_⟩
    rcases (h.table entity).1 (Option.isSome_iff_exists.2 ⟨table, htable⟩) with ⟨row, hrow, rfl⟩
    rcases hdescribed row hrow with ⟨d, hd⟩
    refine ⟨d, hd, fun key row' hget => ?_⟩
    have hrow' : s.entities.row? ⟨row.id.entity, key⟩ = some row' := by
      rw [Rows.row?, htable]
      exact hget
    rcases h.mem_of_row? hrow' with ⟨hmem, hid⟩
    exact ⟨hid, by simpa [hid] using h.key_lt hmem, hvalid _ _ _ hrow' hd⟩

/-- A check finds no fault with where the rows stand. -/
theorem fault_cases {fault : Fault} (hversion : s.schemaVersion = schema.version)
    (hfault : s.check schema = .error fault) :
    (∃ entity, fault = .entityNotFound entity) ∨ fault.OfPayload := by
  cases check_eq_error_iff.1 hfault with
  | version hne => exact absurd hversion hne
  | @table entity table _ _ htable hfault _ =>
    cases hfault with
    | undescribed => exact Or.inl ⟨entity, rfl⟩
    | @row d key row _ _ hget hfault _ =>
      have hrow : s.entities.row? ⟨entity, key⟩ = some row := by
        rw [Rows.row?, htable]
        exact hget
      rcases h.mem_of_row? hrow with ⟨hmem, hid⟩
      cases hfault with
      | misfiled hne => exact absurd hid hne
      | notBelow _ hle =>
        have hlt : key < s.nextKey := by simpa [hid] using h.key_lt hmem
        exact absurd hlt (UInt64.not_lt.2 hle)
      | payload _ _ hpayload => exact Or.inr (Description.ofPayload_of_check hpayload)

end Gathers

/-- Rows with keys that leave room for a next one add up to a snapshot of the last row of every id,
whose check can fail only for an entity without a description or for a payload.  If no id occurs
twice, their order makes no difference. -/
theorem added_rows_well_filed (schema : Schema) {rows : List Row}
    (hkeys : ∀ row ∈ rows, row.id.key.toNat + 1 < UInt64.size) :
    (ofRows schema.version rows).Gathers rows ∧
    (ofRows schema.version rows).count = (rows.map Row.id).toFinset.card ∧
    (∀ problem, (ofRows schema.version rows).check schema ≠ .error (.invalidSnapshot problem)) ∧
    (∀ expected actual, (ofRows schema.version rows).check schema ≠
      .error (.schemaVersionMismatch expected actual)) ∧
    ((ofRows schema.version rows).check schema = .ok () ↔
      (∀ row ∈ rows, ∃ d, schema.description? row.id.entity = some d) ∧
      ∀ id row d, (ofRows schema.version rows).entities.row? id = some row →
        schema.description? id.entity = some d → d.check row.payload = .ok ()) ∧
    ∀ rows', rows'.Perm rows → (rows.map Row.id).Nodup →
      ofRows schema.version rows' = ofRows schema.version rows ∧
      (ofRows schema.version rows').text = (ofRows schema.version rows).text := by
  have hgathers := gathers_ofRows schema.version hkeys
  have hversion := schemaVersion_ofRows schema.version rows
  refine ⟨hgathers, hgathers.count_eq, ?_, ?_, ?_, ?_⟩
  · intro problem hfault
    rcases hgathers.fault_cases hversion hfault with ⟨_, heq⟩ | hpayload
    · cases heq
    · cases hpayload
  · intro expected actual hfault
    rcases hgathers.fault_cases hversion hfault with ⟨_, heq⟩ | hpayload
    · cases heq
    · cases hpayload
  · rw [check_eq_ok_iff]
    exact hgathers.wellFormed_iff hversion
  · intro rows' hperm hnodup
    have heq := ofRows_perm schema.version hperm hnodup
    exact ⟨heq, congrArg text heq⟩

section

open Sample

def tagRow (key version : UInt64) (name : Json) : Row :=
  ⟨⟨"Tag", key⟩, version, .ofFields [("name", name)]⟩

/-- A tag, an author with the same key, and another tag that is added again once it has a name. -/
def blogRows : List Row :=
  [tagRow 7 1 (.string "red"), ⟨⟨"Author", 7⟩, 1, .ofFields [("handle", .string "ann")]⟩,
    tagRow 2 1 .null, tagRow 2 2 (.string "blue")]

/-- The tag without a name would not pass, but it is not held. -/
theorem blogRows_well_filed :
    (ofRows 1 blogRows).entities.row? ⟨"Tag", 2⟩ = some (tagRow 2 2 (.string "blue")) ∧
    (ofRows 1 blogRows).count = 3 ∧ (ofRows 1 blogRows).nextKey.toNat = 8 ∧
    (ofRows 1 blogRows).check blogSchema = .ok () ∧
    (ofRows 1 (blogRows.take 3)).check blogSchema = .error (.missingRequiredField "name") ∧
    (ofRows 1 (blogRows.take 3).reverse).text = (ofRows 1 (blogRows.take 3)).text := by
  have hkeys : ∀ row ∈ blogRows, row.id.key.toNat + 1 < UInt64.size := by decide
  have hnext : IsGreatest (insert 1 {n | ∃ row ∈ blogRows, row.id.key.toNat + 1 = n}) 8 := by
    refine ⟨Or.inr ⟨_, List.mem_cons_self, rfl⟩, ?_⟩
    rintro n (rfl | ⟨row, hrow, rfl⟩)
    · decide
    · exact (by decide : ∀ row ∈ blogRows, row.id.key.toNat + 1 ≤ 8) row hrow
  rcases added_rows_well_filed blogSchema hkeys with ⟨hgathers, hcount, _⟩
  rcases @added_rows_well_filed blogSchema (blogRows.take 3) (by decide) with
    ⟨_, _, _, _, _, hperm⟩
  refine ⟨hgathers.row _, ?_, hgathers.nextKey.unique hnext, ?_, ?_, ?_⟩
  · exact hcount
  · decide +kernel
  · decide +kernel
  · exact (hperm _ (List.reverse_perm _) (by decide)).2

end

end Snapshot

end Reconcile
