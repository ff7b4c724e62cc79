import Reconcile.Proofs.Session.Sound
import Reconcile.Proofs.Session.Work

/-!
# What a save does to each row

The rows that a save can touch are those of the entities in the registry of its context.  It writes
the payload of a live entity, takes out the row of a deleted one, and leaves every other row as it
is.
-/

namespace Reconcile

namespace Session

variable {T : Model} {s : Session T} {c : ContextId}

/-- A save that ends well has collected the registry and committed what it collected. -/
theorem save_ok {scope : Scope} {summary : Summary} {s' : Session T}
    (h : (scope.save (T := T)).outcome s = (.ok summary, s')) :
    ∃ changes, s.collect scope.context (s.registry scope.context).values = .ok changes ∧
      summary = (s.commit scope.context changes).1 ∧
      s' = (s.commit scope.context changes).2.report (.saved scope.context summary) := by
  unfold Scope.save at h
  rcases Attempt.bind_eq_ok.1 h with ⟨_, _, hget, h⟩
  cases hget
  rcases Attempt.bind_eq_ok.1 h with ⟨changes, _, hcollect, h⟩
  rw [Attempt.outcome_ofExcept] at hcollect
  rcases Prod.mk.inj hcollect with ⟨hchanges, hstate⟩
  subst hstate
  rcases Attempt.bind_eq_ok.1 h with ⟨_, _, hcommit, h⟩
  cases hcommit
  rcases Attempt.bind_eq_ok.1 h with ⟨_, _, hreport, h⟩
  cases hreport
  cases h
  exact ⟨changes, hchanges, rfl, rfl⟩

theorem Sound.ids_nodup (h : Sound s) (c : ContextId) :
    ((s.registry c).values.map Entry.id).Nodup := by
  have hkeys : ∀ entry ∈ (s.registry c).toList, entry.2.id.key = entry.1 := by
    intro entry hentry
    exact (h.lodged (SortedMap.mem_toList_iff.1 hentry)).key
  rw [SortedMap.values, List.map_map, List.nodup_iff_pairwise_ne, List.pairwise_map]
  refine List.Pairwise.imp_of_mem ?_ (s.registry c).sorted
  intro a b ha hb hlt heq
  have hkey : a.1 = b.1 := by
    rw [← hkeys a ha, ← hkeys b hb]
    exact congrArg EntityId.key heq
  have hself : compare b.1 b.1 = .eq := Std.ReflCmp.compare_self
  rw [hkey, hself] at hlt
  cases hlt

section Rows

variable {changes : Changes} {id : EntityId}

/-- An entry of the context that a save looks at when it comes to this id. -/
theorem Sound.entry_of_mem (h : Sound s) {e : Entry T} (he : e ∈ (s.registry c).values) :
    (s.registry c).get? e.id.key = some e := by
  rcases SortedMap.mem_values_iff.1 he with ⟨key, hget⟩
  rw [(h.lodged hget).key]
  exact hget

theorem row?_commit_of_live (h : Sound s) {store : Store} (hstore : s.storeOf? c = some store)
    (hcollect : s.collect c (s.registry c).values = .ok changes) {e : Entry T}
    (he : (s.registry c).get? id.key = some e) (hid : e.id = id)
    (hlive : s.entryDeleted e = false) :
    ∃ payload, s.Savable e payload ∧ ((s.commit c changes).2.rowsOf c).row? id =
      some (Row.written ((s.rowsOf c).row? id) id payload) := by
  have hmem : e ∈ (s.registry c).values := SortedMap.mem_values_iff.2 ⟨_, he⟩
  rcases exists_write_of_collect hcollect hmem hlive with ⟨payload, hwrite, hsavable⟩
  refine ⟨payload, hsavable, ?_⟩
  rw [rowsOf_commit_self hstore]
  refine Rows.row?_commit_of_written ?_ (hid ▸ hwrite) ?_
  · rw [writtenIds_of_collect hcollect]
    exact (h.ids_nodup c).sublist (List.filter_sublist.map _)
  · -- a key stands for one entry, so what is removed under it would be the live one
    intro hremoval
    rcases (mem_removals_iff hcollect).1 hremoval with ⟨e', hmem', hdeleted, _, hid'⟩
    have he' := h.entry_of_mem hmem'
    rw [hid', he] at he'
    cases Option.some.inj he'
    rw [hlive] at hdeleted
    cases hdeleted

theorem not_mem_writes_of_deleted (h : Sound s)
    (hcollect : s.collect c (s.registry c).values = .ok changes) {e : Entry T}
    (he : (s.registry c).get? id.key = some e) (hdeleted : s.entryDeleted e = true) :
    id ∉ changes.writes.map (·.1) := by
  rw [writtenIds_of_collect hcollect]
  intro hwrite
  rcases List.mem_map.1 hwrite with ⟨e', hmem', hid'⟩
  rcases List.mem_filter.1 hmem' with ⟨hmem', hlive⟩
  have he' := h.entry_of_mem hmem'
  rw [hid', he] at he'
  cases Option.some.inj he'
  simp [hdeleted] at hlive

theorem row?_commit_of_deleted (h : Sound s) {store : Store} (hstore : s.storeOf? c = some store)
    (hcollect : s.collect c (s.registry c).values = .ok changes) {e : Entry T}
    (he : (s.registry c).get? id.key = some e) (hid : e.id = id)
    (hdeleted : s.entryDeleted e = true) :
    ((s.commit c changes).2.rowsOf c).row? id =
      if e.pending then (s.rowsOf c).row? id else none := by
  have hmem : e ∈ (s.registry c).values := SortedMap.mem_values_iff.2 ⟨_, he⟩
  have hwrite := not_mem_writes_of_deleted h hcollect he hdeleted
  rw [rowsOf_commit_self hstore]
  -- there is nothing to remove for an entry that was never committed
  split
  · next hpending =>
    refine Rows.row?_commit_of_untouched ?_ hwrite
    intro hremoval
    rcases (mem_removals_iff hcollect).1 hremoval with ⟨e', hmem', _, hcommitted, hid'⟩
    have he' := h.entry_of_mem hmem'
    rw [hid', he] at he'
    cases Option.some.inj he'
    rw [hpending] at hcommitted
    cases hcommitted
  · next hcommitted =>
    refine Rows.row?_commit_of_removed ?_ hwrite
    exact (mem_removals_iff hcollect).2 ⟨e, hmem, hdeleted, by simpa using hcommitted, hid⟩

theorem row?_commit_of_unregistered (h : Sound s)
    (hcollect : s.collect c (s.registry c).values = .ok changes)
    (hnone : ∀ e, (s.registry c).get? id.key = some e → e.id ≠ id) :
    ((s.commit c changes).2.rowsOf c).row? id = (s.rowsOf c).row? id := by
  have hentry : ∀ e ∈ (s.registry c).values, e.id ≠ id := by
    intro e hmem hid
    have he := h.entry_of_mem hmem
    rw [hid] at he
    exact hnone e he hid
  cases hstore : s.storeOf? c with
  | none => rw [rowsOf_commit_of_none hstore]
  | some store =>
    rw [rowsOf_commit_self hstore]
    refine Rows.row?_commit_of_untouched ?_ ?_
    · intro hremoval
      rcases (mem_removals_iff hcollect).1 hremoval with ⟨e, hmem, _, _, hid⟩
      exact hentry e hmem hid
    · rw [writtenIds_of_collect hcollect]
      intro hwrite
      rcases List.mem_map.1 hwrite with ⟨e, hmem, hid⟩
      exact hentry e (List.mem_filter.1 hmem).1 hid

end Rows

end Session

end Reconcile
