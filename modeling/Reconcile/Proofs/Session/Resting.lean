import Reconcile.Proofs.Session.Effect
import Reconcile.Proofs.Session.Separation

/-!
# Entries that a save has nothing to do for

An entry is *at rest* if its row has what a save would write for it (`AtRest`).  A save with such
entries in the registry ends as it would without them: it is refused for the same fault, or leaves
the same rows and counts the same (`savesAlike_of_rest`).
-/

namespace Reconcile

/-! ## Writes that change nothing -/

namespace Rows

variable {rows : Rows} {removals : List EntityId} {writes : List (EntityId × Json)}
  {write : EntityId × Json} {wanted : EntityId → Bool}

/-- The rows have the payload of a write already. -/
def Has (rows : Rows) (write : EntityId × Json) : Prop :=
  ∃ row, rows.row? write.1 = some row ∧ row.payload.same write.2 = true

theorem commitWrite_of_has {acc : Rows × Summary} (h : acc.1.Has write) :
    commitWrite acc write = acc := by
  rcases h with ⟨row, hrow, hsame⟩
  unfold commitWrite
  rw [hrow]
  exact if_neg (by simp [Row.changedBy, hsame])

theorem writes_filter (hnodup : (writes.map (·.1)).Nodup) (acc : Rows × Summary)
    (hhas : ∀ write ∈ writes, wanted write.1 = false → acc.1.Has write) :
    (writes.filter fun write => wanted write.1).foldl commitWrite acc =
      writes.foldl commitWrite acc := by
  -- the ids are distinct, so a write that is kept leaves the rows of those that are left out
  induction writes generalizing acc with
  | nil => rfl
  | cons first rest ih =>
    rcases List.nodup_cons.1 hnodup with ⟨hfirst, hrest⟩
    cases hwanted : wanted first.1 with
    | false =>
      rw [List.filter_cons_of_neg (by simp [hwanted]), List.foldl_cons,
        commitWrite_of_has (hhas first List.mem_cons_self hwanted)]
      exact ih hrest acc fun write hwrite => hhas write (List.mem_cons_of_mem _ hwrite)
    | true =>
      rw [List.filter_cons_of_pos (by exact hwanted), List.foldl_cons, List.foldl_cons]
      refine ih hrest _ ?_
      intro write hwrite hunwanted
      have hne : write.1 ≠ first.1 :=
        fun heq => hfirst (List.mem_map.2 ⟨write, hwrite, heq⟩)
      rcases hhas write (List.mem_cons_of_mem _ hwrite) hunwanted with ⟨row, hrow, hsame⟩
      exact ⟨row, (row?_commitWrite_of_ne acc hne).trans hrow, hsame⟩

theorem Separate.commit_filter (h : Separate removals writes)
    (hhas : ∀ write ∈ writes, wanted write.1 = false → rows.Has write) :
    rows.commit removals (writes.filter fun write => wanted write.1) =
      rows.commit removals writes := by
  refine writes_filter h.written _ ?_
  intro write hwrite hunwanted
  rcases hhas write hwrite hunwanted with ⟨row, hrow, hsame⟩
  have hkept : write.1 ∉ removals :=
    fun hremoval => h.apart _ hremoval (List.mem_map.2 ⟨write, hwrite, rfl⟩)
  exact ⟨row, (row?_removals_of_not_mem hkept _).trans hrow, hsame⟩

end Rows

namespace Session

variable {T : Model} {s t : Session T} {c : ContextId} {wanted : EntityId → Bool}

/-! ## Collecting without the entries at rest -/

/-- The row of the entry has what a save would write for it. -/
structure AtRest (s : Session T) (c : ContextId) (e : Entry T) : Prop where
  live : s.entryDeleted e = false
  written : ∃ payload, s.Savable e payload ∧ s.Passes c e.id.entity payload ∧
    (s.rowsOf c).Has (e.id, payload)

/-- The changes without the writes of some ids. -/
def Changes.only (wanted : EntityId → Bool) (changes : Changes) : Changes :=
  { changes with writes := changes.writes.filter fun write => wanted write.1 }

/-- The changes with a further write. -/
def Changes.push (write : EntityId × Json) (changes : Changes) : Changes :=
  { changes with writes := write :: changes.writes }

theorem Changes.only_push_of_wanted {write : EntityId × Json} (h : wanted write.1 = true)
    (changes : Changes) : (changes.push write).only wanted = (changes.only wanted).push write := by
  rw [only, push, List.filter_cons_of_pos (by exact h)]
  rfl

theorem Changes.only_push_of_unwanted {write : EntityId × Json} (h : wanted write.1 = false)
    (changes : Changes) : (changes.push write).only wanted = changes.only wanted := by
  rw [only, push, List.filter_cons_of_neg (by simp [h])]
  rfl

theorem collect_filter {entries : List (Entry T)}
    (hrest : ∀ e ∈ entries, wanted e.id = false → s.AtRest c e) :
    s.collect c (entries.filter fun e => wanted e.id) =
      (s.collect c entries).map (Changes.only wanted) := by
  induction entries with
  | nil => rfl
  | cons e rest ih =>
    have htail := ih fun e he => hrest e (List.mem_cons_of_mem _ he)
    cases hwanted : wanted e.id with
    | false =>
      -- the entry asks for a write, which is left out again
      rcases hrest e List.mem_cons_self hwanted with ⟨hlive, payload, hsavable, hpasses, _⟩
      rw [List.filter_cons_of_neg (by simp [hwanted]), htail, collect, if_neg (by simp [hlive]),
        collectWrite_of_passes hsavable hpasses]
      cases s.collect c rest with
      | error fault => rfl
      | ok changes => exact congrArg Except.ok (Changes.only_push_of_unwanted hwanted changes).symm
    | true =>
      rw [List.filter_cons_of_pos (by exact hwanted), collect, htail, collect]
      cases hdeleted : s.entryDeleted e with
      | true =>
        cases s.collect c rest with
        | error fault => rfl
        | ok changes => cases e.pending <;> rfl
      | false =>
        cases hwrite : s.collectWrite c e with
        | error fault => rfl
        | ok write =>
          rcases savable_of_collectWrite hwrite with ⟨payload, rfl, _⟩
          cases s.collect c rest with
          | error fault => rfl
          | ok changes =>
            exact congrArg Except.ok (Changes.only_push_of_wanted hwanted changes).symm

/-! ## Saving without them -/

/-- Saves of a context in the two sessions are refused for the same fault, or count the same and
leave the same stores. -/
def SavesAlike (scope : Scope) (s t : Session T) : Prop :=
  ((scope.save (T := T)).outcome s).1 = ((scope.save (T := T)).outcome t).1 ∧
    ((scope.save (T := T)).outcome s).2.stores = ((scope.save (T := T)).outcome t).2.stores

theorem SavesAlike.refl (scope : Scope) (s : Session T) : SavesAlike scope s s := ⟨rfl, rfl⟩

theorem stores_commit_congr (hstores : s.stores = t.stores)
    (hstoreIdOf? : s.storeIdOf? c = t.storeIdOf? c) {changes changes' : Changes}
    (hrows : ∀ rows, rows = t.rowsOf c → changes.committed rows = changes'.committed rows) :
    (s.commit c changes).2.stores = (t.commit c changes').2.stores := by
  refine Array.ext_getElem? ?_
  intro n
  show (s.commit c changes).2.store? ⟨n⟩ = (t.commit c changes').2.store? ⟨n⟩
  have hstore : s.store? ⟨n⟩ = t.store? ⟨n⟩ := by rw [store?, hstores, store?]
  rw [store?_commit, store?_commit, hstoreIdOf?, hstore]
  split
  · next hid =>
    cases hget : t.store? ⟨n⟩ with
    | none => rfl
    | some store =>
      have hof : t.storeOf? c = some store := by
        rw [storeOf?_eq, hid]
        exact hget
      rw [Option.map_some, Option.map_some, hrows _ (rowsOf_of_storeOf? hof).symm]
  · rfl

/-- A session that has fewer entries in the registry, and of the others only such as are at rest,
saves alike. -/
theorem savesAlike_of_rest {scope : Scope} (wanted : EntityId → Bool) (ht : Sound t)
    (hstores : s.stores = t.stores)
    (hstoreIdOf? : s.storeIdOf? scope.context = t.storeIdOf? scope.context)
    (hregistry : (s.registry scope.context).values =
      (t.registry scope.context).values.filter fun e => wanted e.id)
    (hentities : ∀ e ∈ (s.registry scope.context).values, s.entity? e.slot = t.entity? e.slot)
    (hrest : ∀ e ∈ (t.registry scope.context).values, wanted e.id = false →
      t.AtRest scope.context e) : SavesAlike scope s t := by
  have hstoreOf? : s.storeOf? scope.context = t.storeOf? scope.context := by
    rw [storeOf?_eq, storeOf?_eq, hstoreIdOf?]
    cases t.storeIdOf? scope.context with
    | none => rfl
    | some i => rw [Option.bind_some, Option.bind_some, store?, hstores, store?]
  have hcollect : s.collect scope.context (s.registry scope.context).values =
      (t.collect scope.context (t.registry scope.context).values).map (Changes.only wanted) := by
    rw [← collect_filter hrest, ← hregistry]
    refine collect_congr ?_ ?_ _ hentities
    · rw [settingsOf, hstoreOf?, settingsOf]
    · rw [schemaOf, hstoreOf?, schemaOf]
  rcases save_cases scope t with ⟨fault, hfault, hrefused⟩ | ⟨changes, hchanges, hsaved⟩
  · rw [hfault] at hcollect
    rcases save_cases scope s with ⟨fault', hfault', hrefused'⟩ | ⟨changes', hchanges', _⟩
    · cases hfault'.symm.trans hcollect
      rw [SavesAlike, hrefused, hrefused']
      exact ⟨rfl, hstores⟩
    · cases hchanges'.symm.trans hcollect
  · rw [hchanges] at hcollect
    rcases save_cases scope s with ⟨fault', hfault', _⟩ | ⟨changes', hchanges', hsaved'⟩
    · cases hfault'.symm.trans hcollect
    · cases hchanges'.symm.trans hcollect
      -- what is left out are writes that the rows have
      have hcommit : (t.rowsOf scope.context).commit changes.removals
          (changes.only wanted).writes =
            (t.rowsOf scope.context).commit changes.removals changes.writes := by
        refine (ht.separate hchanges).commit_filter ?_
        intro write hwrite hunwanted
        rcases savable_of_mem_writes hchanges hwrite with ⟨e, he, hid, _, hsavable⟩
        rcases (hrest e he (hid ▸ hunwanted)).written with ⟨payload, hsavable', _, hhas⟩
        cases hsavable.unique hsavable'
        rw [Rows.Has, hid]
        exact hhas
      have hrowsOf : s.rowsOf scope.context = t.rowsOf scope.context := by
        rw [rowsOf, hstoreOf?, rowsOf]
      rw [SavesAlike, hsaved, hsaved']
      constructor
      · show Except.ok ((s.rowsOf scope.context).commit _ _).2 = Except.ok _
        rw [hrowsOf]
        exact congrArg (fun out => Except.ok out.2) hcommit
      · refine stores_commit_congr hstores hstoreIdOf? ?_
        rintro rows rfl
        exact congrArg Prod.fst hcommit

end Session

end Reconcile
