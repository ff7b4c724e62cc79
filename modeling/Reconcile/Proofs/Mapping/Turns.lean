import Reconcile.Proofs.Mapping.Fields

/-!
# Fields that share out a type

Over time a context replaces fields from plain values, is saved, and reads fields back from what
they are written as, while anything else may happen that leaves the entities of the type alone
(`Turn`).  After every step the context has of the type what the last replacement of each field has
made, and no two fields have an entity in common (`Tended`).  After a save the rows are those of
these entities.
-/

namespace Reconcile

open Session

variable {T : Model} {k : T.Kind} {s s₁ s' : Session T} {scope : Scope} {c : ContextId}
  {h : Handle k} {v : T.Value k} {summary : Summary}

/-! ## Saving -/

namespace Session

/-- A save that ends well has its effect, and the store is set up as it was. -/
theorem effect_of_save (hs : Sound s)
    (hsave : (scope.save (T := T)).outcome s = (.ok summary, s')) :
    Effect s s' scope.context summary ∧ s'.schemaOf scope.context = s.schemaOf scope.context ∧
      s'.settingsOf scope.context = s.settingsOf scope.context := by
  rcases save_ok hsave with ⟨changes, hcollect, hsummary, hs'⟩
  have heffect := (effect_commit hs hcollect).report (.saved scope.context summary)
  have hreport : ∀ (a : Session T) (event : Event) (d : ContextId),
      (a.report event).schemaOf d = a.schemaOf d ∧ (a.report event).settingsOf d = a.settingsOf d :=
    fun _ _ _ => ⟨rfl, rfl⟩
  rw [← hsummary, ← hs'] at heffect
  refine ⟨heffect, ?_, ?_⟩
  · rw [hs', (hreport _ _ _).1, schemaOf_commit_self]
  · rw [hs', (hreport _ _ _).2, settingsOf_commit_self]

/-- A save leaves no row of the type that is not in the registry. -/
theorem Effect.stocked (heffect : Effect s s' c summary) (hs : Sound s)
    (hname : ∀ l, T.entityName l = T.entityName k → l = k) (hstocked : Stocked s c k) :
    Stocked s' c k := by
  intro key row hrow
  by_cases hin : ∃ e ∈ (s.registry c).values, e.id = ⟨T.entityName k, key⟩
  · rcases hin with ⟨e, he, hid⟩
    have hkey : e.id.key = key := congrArg EntityId.key hid
    have hget : (s.registry c).get? key = some e := hkey ▸ hs.entry_of_mem he
    have hkind : e.kind = k := hname _ ((hs.lodged hget).name.symm.trans (by rw [hid]))
    cases hdeleted : s.entryDeleted e with
    | false =>
      exact ⟨{ e with pending := false }, (heffect.registry _ _).2 ⟨e, hget, hdeleted, rfl⟩, hkind,
        rfl⟩
    | true =>
      -- a row that a deleted entity leaves would have been there before its insertion
      have hremoved := heffect.removed e he hdeleted
      rw [hid, hrow] at hremoved
      split at hremoved
      · next hpending =>
        rcases hstocked key row hremoved.symm with ⟨e', he', _, hsaved⟩
        cases hget.symm.trans he'
        cases hpending.symm.trans hsaved
      · cases hremoved
  · have hothers := heffect.others ⟨T.entityName k, key⟩ fun e he hid => hin ⟨e, he, hid⟩
    rw [hothers] at hrow
    rcases hstocked key row hrow with ⟨e, he, rfl, _⟩
    have hlodged := hs.lodged he
    refine absurd ⟨e, SortedMap.mem_values_iff.2 ⟨key, he⟩, ?_⟩ hin
    have hid : e.id = ⟨e.id.entity, e.id.key⟩ := rfl
    rw [hid, hlodged.name, hlodged.key]

/-- What the registry has after a save was seen before it. -/
theorem Effect.seen_of_entry (heffect : Effect s s' c summary) (hs : Sound s) {key : UInt64}
    {e : Entry T} (he : (s'.registry c).get? key = some e) (hkind : e.kind = k) :
    ∃ v, s.seen? c k key = some v := by
  rcases (heffect.registry _ _).1 he with ⟨old, hold, hlive, rfl⟩
  rcases (hs.lodged hold).entity with ⟨m, hm, _⟩
  rw [entryDeleted_of_entity? hm] at hlive
  exact ⟨_, seen?_of_entry hold hkind hm hlive⟩

theorem Has.report (hhas : s.Has c h v) (event : Event) : (s.report event).Has c h v :=
  ⟨hhas.entry, hhas.entity⟩

/-- A save keeps what is live. -/
theorem Has.saved (hhas : s.Has c h v) (hscope : scope.context = c)
    (hsave : (scope.save (T := T)).outcome s = (.ok summary, s')) : s'.Has c h v := by
  subst hscope
  rcases save_ok hsave with ⟨changes, _, _, hs'⟩
  rcases hhas.entry with ⟨pending, he⟩
  rcases hhas.entity with ⟨m, hm, hlive, hunused, hv⟩
  have hentry : ((s.commit scope.context changes).2.registry scope.context).get? h.id.key =
      some ⟨k, h, false⟩ :=
    get?_registry_commit.2 ⟨_, he, (entryDeleted_of_entity? (e := ⟨k, h, pending⟩) hm).trans hlive,
      rfl⟩
  rcases entity?_commit s scope.context changes h.slot with ⟨kept, hkept⟩
  rw [hm] at hkept
  have hcommitted : (s.commit scope.context changes).2.Has scope.context h v :=
    ⟨⟨false, hentry⟩, _, hkept, hlive, hunused, hv⟩
  rw [hs']
  exact hcommitted.report _

end Session

namespace Mapping

variable {M : Mapping T}

/-! ## Fields over time -/

/-- A field that is replaced from plain values, with what its last replacement did. -/
structure OwnedField (M : Mapping T) (k : T.Kind) where
  field : Field k
  plains : List (M.Plain k)
  /-- What the members were bound to. -/
  entities : List (Handle k)
  /-- How many entities there were before. -/
  since : Nat

variable {owned owned' : List (OwnedField M k)} {o : OwnedField M k}

/-- One step in the course of time. -/
inductive Turn (M : Mapping T) (scope : Scope) {k : T.Kind} :
    Session T → List (OwnedField M k) → Session T → List (OwnedField M k) → Prop where
  | replace {s s' : Session T} (before after : List (OwnedField M k)) {o : OwnedField M k}
      {ps : List (M.Plain k)} {field : Field k} (h : M.Replaces scope s o.field ps field s') :
      Turn M scope s (before ++ o :: after) s'
        (before ++ ⟨field, ps, field.members.filterMap Member.bound, s.entities.size⟩ :: after)
  /-- The field was written and is read back, in this context or in another one. -/
  | reread {s : Session T} (before after : List (OwnedField M k)) {o : OwnedField M k}
      {field : Field k} {source : Option ContextId} (h : o.field.Rereads source field) :
      Turn M scope s (before ++ o :: after) s (before ++ { o with field } :: after)
  | save {s s' : Session T} (owned : List (OwnedField M k)) {summary : Summary}
      (h : (scope.save (T := T)).outcome s = (.ok summary, s')) : Turn M scope s owned s' owned
  /-- Whatever else happens that leaves the entities of the type alone. -/
  | aside {s s' : Session T} (owned : List (OwnedField M k)) (hrun : Run Deed.Native s s')
      (h : Preserves s s' scope.context k []) : Turn M scope s owned s' owned

inductive Turns (M : Mapping T) (scope : Scope) {k : T.Kind} (s : Session T)
    (owned : List (OwnedField M k)) : Session T → List (OwnedField M k) → Prop where
  | refl : Turns M scope s owned s owned
  | tail {s₁ s₂ : Session T} {owned₁ owned₂ : List (OwnedField M k)}
      (h : Turns M scope s owned s₁ owned₁) (hturn : Turn M scope s₁ owned₁ s₂ owned₂) :
      Turns M scope s owned s₂ owned₂

/-! ## What is kept -/

/-- The members are the entities that the last replacement made, one for each plain value and in
their order, and the context still has them. -/
structure OwnedField.Sits (o : OwnedField M k) (s : Session T) (c : ContextId) : Prop where
  refers : Refers o.field.members o.entities
  made : List.Forall₂ (fun p h => ∃ v, s.Has c h v ∧ M.toPlain v = pure (p, v)) o.plains o.entities
  fresh : ∀ h ∈ o.entities, o.since ≤ h.slot

theorem made_preserved {ps : List (M.Plain k)} {hs : List (Handle k)}
    (hmade : List.Forall₂ (fun p h => ∃ v, s.Has c h v ∧ M.toPlain v = pure (p, v)) ps hs)
    (hkept : ∀ h ∈ hs, ∀ v, s.Has c h v → s'.Has c h v) :
    List.Forall₂ (fun p h => ∃ v, s'.Has c h v ∧ M.toPlain v = pure (p, v)) ps hs := by
  have hboth := (List.forall₂_and_left (p := fun h => ∀ v, s.Has c h v → s'.Has c h v) _ _).2
    ⟨hkept, hmade.flip⟩
  exact (hboth.imp fun h p ⟨hkept, v, hhas, hplain⟩ => ⟨v, hkept v hhas, hplain⟩ : List.Forall₂
    (flip fun p h => ∃ v, s'.Has c h v ∧ M.toPlain v = pure (p, v)) hs ps).flip

theorem OwnedField.Sits.mono (hsits : o.Sits s c)
    (hkept : ∀ h ∈ o.entities, ∀ v, s.Has c h v → s'.Has c h v) : o.Sits s' c :=
  ⟨hsits.refers, made_preserved hsits.made hkept, hsits.fresh⟩

/-- All entities that the last replacements made. -/
def entitiesOf (owned : List (OwnedField M k)) : List (Handle k) :=
  owned.flatMap OwnedField.entities

/-- The fields share out what the context has of the type. -/
structure Tended (M : Mapping T) (s : Session T) (c : ContextId) (owned : List (OwnedField M k)) :
    Prop extends Tends s c k where
  each : ∀ o ∈ owned, o.Sits s c
  apart : (keysOf (entitiesOf owned)).Nodup
  all : ∀ key v, s.seen? c k key = some v → key ∈ keysOf (entitiesOf owned)

theorem Tended.has (htended : M.Tended s c owned) : ∀ h ∈ entitiesOf owned, ∃ v, s.Has c h v := by
  intro h hh
  rcases List.mem_flatMap.1 hh with ⟨o, ho, hin⟩
  exact has_of_made (htended.each o ho).made h hin

@[simp]
theorem entitiesOf_middle (before after : List (OwnedField M k)) (o : OwnedField M k) :
    entitiesOf (before ++ o :: after) =
      entitiesOf before ++ (o.entities ++ entitiesOf after) := by
  simp [entitiesOf]

@[simp]
theorem keysOf_append (as bs : List (Handle k)) : keysOf (as ++ bs) = keysOf as ++ keysOf bs :=
  List.map_append

/-- Each of the entities that stay keeps its field. -/
theorem Tended.preserved {touched : List UInt64} (htended : M.Tended s c owned)
    (hpreserves : Preserves s s' c k touched) {o : OwnedField M k} (ho : o ∈ owned)
    (hkeys : ∀ h ∈ o.entities, h.id.key ∉ touched) : o.Sits s' c :=
  (htended.each o ho).mono fun h hh _ hhas => hhas.preserved hpreserves (hkeys h hh)

section Steps

variable {before after : List (OwnedField M k)} {ps : List (M.Plain k)} {field : Field k}

/-- New entities take the place of those of one field. -/
theorem nodup_exchange {as bs os ns : List UInt64} (hapart : (as ++ (os ++ bs)).Nodup)
    (hns : ns.Nodup) (hfresh : ∀ key ∈ as ++ (os ++ bs), key ∉ ns) :
    (as ++ (ns ++ bs)).Nodup := by
  rw [List.nodup_append', List.nodup_append'] at hapart ⊢
  rcases hapart with ⟨has, ⟨_, hbs, _⟩, hdisjoint⟩
  refine ⟨has, ⟨hns, hbs, ?_⟩, ?_⟩
  · exact fun key hn hb => hfresh key (by simp [hb]) hn
  · intro key ha hmem
    rcases List.mem_append.1 hmem with hn | hb
    · exact hfresh key (by simp [ha]) hn
    · exact hdisjoint ha (List.mem_append.2 (Or.inr hb))

/-- The keys that come are later than those that were there. -/
theorem Tended.fresh {hs new : List (Handle k)} (htended : M.Tended s c owned)
    (hexchanges : M.Exchanges s c hs ps new s') :
    ∀ key ∈ keysOf (entitiesOf owned), key ∉ keysOf new := by
  intro key hkey hmem
  rcases mem_keysOf.1 hkey with ⟨h, hh, rfl⟩
  rcases mem_keysOf.1 hmem with ⟨h', hh', hsame⟩
  rcases htended.has h hh with ⟨v, hhas⟩
  rcases hhas.entry with ⟨pending, he⟩
  exact UInt64.lt_irrefl _ (hsame ▸ hexchanges.later h' hh' _ _ he)

/-- The other fields keep their entities. -/
theorem Tended.sits_of_other {new : List (Handle k)}
    (htended : M.Tended s c (before ++ o :: after))
    (hexchanges : M.Exchanges s c o.entities ps new s') {o' : OwnedField M k}
    (ho' : o' ∈ before ∨ o' ∈ after) : o'.Sits s' c := by
  have hapart := htended.apart
  rw [entitiesOf_middle, keysOf_append, keysOf_append] at hapart
  rcases List.nodup_append'.1 hapart with ⟨_, hrest, hbefore⟩
  rcases List.nodup_append'.1 hrest with ⟨_, _, hafter⟩
  have howned : o' ∈ before ++ o :: after :=
    List.mem_append.2 (ho'.imp_right (List.mem_cons_of_mem _))
  refine htended.preserved hexchanges.preserves howned ?_
  intro h hh hmem
  have hkey : ∀ {os : List (OwnedField M k)}, o' ∈ os → h.id.key ∈ keysOf (entitiesOf os) :=
    fun hin => mem_keysOf.2 ⟨h, List.mem_flatMap.2 ⟨o', hin, hh⟩, rfl⟩
  rw [keysOf_append] at hmem
  rcases List.mem_append.1 hmem with hold | hnew
  · rcases ho' with hb | ha
    · exact hbefore (hkey hb) (List.mem_append.2 (Or.inl hold))
    · exact hafter hold (hkey ha)
  · exact htended.fresh hexchanges _ (hkey howned) hnew

theorem Tended.exchange {new : List (Handle k)}
    (htended : M.Tended s c (before ++ o :: after))
    (hexchanges : M.Exchanges s c o.entities ps new s') (htends : Tends s' c k)
    (hfield : field.members = new.map Member.ofHandle) : M.Tended s' c
      (before ++ ⟨field, ps, field.members.filterMap Member.bound, s.entities.size⟩ :: after) := by
  have hbound : field.members.filterMap Member.bound = new := by
    rw [hfield, List.filterMap_map]
    exact List.filterMap_some
  rw [hbound]
  have hapart := htended.apart
  have hall := htended.all
  have hfresh := htended.fresh hexchanges
  rw [entitiesOf_middle, keysOf_append, keysOf_append] at hapart hall hfresh
  refine ⟨htends, ?_, ?_, ?_⟩
  · intro o' ho'
    rcases List.mem_append.1 ho' with hb | hrest
    · exact htended.sits_of_other hexchanges (Or.inl hb)
    · rcases List.mem_cons.1 hrest with rfl | ha
      · exact ⟨hfield ▸ refers_ofHandles new, hexchanges.made, hexchanges.slot⟩
      · exact htended.sits_of_other hexchanges (Or.inr ha)
  · rw [entitiesOf_middle, keysOf_append, keysOf_append]
    refine nodup_exchange hapart ?_ hfresh
    refine List.pairwise_map.2 (hexchanges.ordered.imp ?_)
    exact fun hlt heq => UInt64.lt_irrefl _ (heq ▸ hlt)
  · intro key v hv
    rw [entitiesOf_middle, keysOf_append, keysOf_append]
    by_cases hnew : key ∈ keysOf new
    · exact List.mem_append.2 (Or.inr (List.mem_append.2 (Or.inl hnew)))
    · by_cases hold : key ∈ keysOf o.entities
      · rcases mem_keysOf.1 hold with ⟨h, hh, rfl⟩
        cases (hexchanges.gone h hh).symm.trans hv
      · have hseen := hexchanges.preserves.seen key fun hmem => by
          rw [keysOf_append] at hmem
          exact (List.mem_append.1 hmem).elim hold hnew
        have hmem := hall key v (hseen ▸ hv)
        simp only [List.mem_append] at hmem ⊢
        exact hmem.imp_right fun hmem => Or.inr (hmem.resolve_left hold)

/-- A field that is read back refers to the same entities. -/
theorem Tended.reread (htended : M.Tended s c (before ++ o :: after))
    {source : Option ContextId} (hrereads : o.field.Rereads source field) :
    M.Tended s c (before ++ { o with field } :: after) := by
  have hentities : entitiesOf (before ++ { o with field } :: after) =
      entitiesOf (before ++ o :: after) := by
    rw [entitiesOf_middle, entitiesOf_middle]
  refine ⟨htended.toTends, ?_, ?_, ?_⟩
  · intro o' ho'
    have hsits := htended.each o (List.mem_append.2 (Or.inr List.mem_cons_self))
    rcases List.mem_append.1 ho' with hb | hrest
    · exact htended.each o' (List.mem_append.2 (Or.inl hb))
    · rcases List.mem_cons.1 hrest with rfl | ha
      · exact ⟨hrereads.members ▸ hsits.refers.unbound, hsits.made, hsits.fresh⟩
      · exact htended.each o' (List.mem_append.2 (Or.inr (List.mem_cons_of_mem _ ha)))
  · rw [hentities]
    exact htended.apart
  · rw [hentities]
    exact htended.all

end Steps

/-- What leaves the entities of the type alone. -/
theorem Tended.aside (htended : M.Tended s c owned) (hpreserves : Preserves s s' c k [])
    (htends : Tends s' c k) : M.Tended s' c owned := by
  refine ⟨htends, ?_, htended.apart, ?_⟩
  · exact fun o ho => htended.preserved hpreserves ho fun _ _ => List.not_mem_nil
  · intro key v hv
    exact htended.all key v ((hpreserves.seen key List.not_mem_nil) ▸ hv)

/-- The context has of the type what it had before it was saved. -/
theorem Tended.save (hname : ∀ l, T.entityName l = T.entityName k → l = k)
    (htended : M.Tended s scope.context owned)
    (hsave : (scope.save (T := T)).outcome s = (.ok summary, s')) (hkeys : s'.KeysLeft) :
    M.Tended s' scope.context owned := by
  have hs := htended.sound
  have hrun : Run Deed.Native s s' := by
    have hadvances := (advances_save scope s hs).run
    rwa [hsave] at hadvances
  rcases effect_of_save hs hsave with ⟨heffect, hschema, hsettings⟩
  have hstocked := heffect.stocked hs hname htended.stocked
  have htends : Tends s' scope.context k := by
    refine ⟨hrun.sound hs, hrun.numbered hs htended.numbered hkeys, hstocked, ?_, ?_⟩
    · rw [hschema]
      exact htended.described
    · rw [takesPending, hsettings]
      exact htended.pending
  refine ⟨htends, ?_, htended.apart, ?_⟩
  · exact fun o ho => (htended.each o ho).mono fun h _ v hhas => hhas.saved rfl hsave
  · intro key v hv
    rcases hstocked.entry_of_seen? hv with ⟨e, m, he, hkind, _⟩
    rcases heffect.seen_of_entry hs he hkind with ⟨v', hv'⟩
    exact htended.all key v' hv'

theorem Turn.run (hM : M.Lawful) (hturn : M.Turn scope s owned s' owned') (hs : Sound s) :
    Run Deed.Native s s' := by
  cases hturn with
  | replace _ _ h => exact h.run hM hs
  | reread => exact Run.refl s
  | save _ h =>
    have hadvances := (advances_save scope s hs).run
    rwa [h] at hadvances
  | aside _ hrun => exact hrun

/-- One step keeps the fields sharing out the type. -/
theorem Turn.tended (hM : M.Lawful) (hk : M.Keyless k) (hturn : M.Turn scope s owned s' owned')
    (htended : M.Tended s scope.context owned) (hkeys : s'.KeysLeft) :
    M.Tended s' scope.context owned' := by
  have hrun := hturn.run hM htended.sound
  cases hturn with
  | @replace _ before after o ps field h =>
    have hsits := htended.each o (List.mem_append.2 (Or.inr List.mem_cons_self))
    rcases h.exchanges hM hk htended.toTends hsits.refers (has_of_made hsits.made) hkeys with
      ⟨new, hfield, hexchanges⟩
    exact htended.exchange hexchanges
      (htended.toTends.preserved hexchanges.preserves hrun hkeys) hfield
  | reread before after h => exact htended.reread h
  | save _ h => exact htended.save hk.name h hkeys
  | aside _ _ hpreserves =>
    exact htended.aside hpreserves (htended.toTends.preserved hpreserves hrun hkeys)

theorem Turns.run (hM : M.Lawful) (hturns : M.Turns scope s owned s' owned') (hs : Sound s) :
    Run Deed.Native s s' := by
  induction hturns with
  | refl => exact Run.refl s
  | tail _ hturn ih => exact ih.trans (hturn.run hM (ih.sound hs))

/-- However many steps there are, the fields share out the type after the last. -/
theorem Turns.tended (hM : M.Lawful) (hk : M.Keyless k) (hturns : M.Turns scope s owned s' owned')
    (htended : M.Tended s scope.context owned) (hkeys : s'.KeysLeft) :
    M.Tended s' scope.context owned' := by
  induction hturns with
  | refl => exact htended
  | tail h hturn ih =>
    -- keys that are left at the end were left before
    have hrun := hturn.run hM ((h.run hM htended.sound).sound htended.sound)
    exact hturn.tended hM hk (ih (hrun.keysLeft hkeys)) hkeys

/-! ## Rows -/

/-- The rows of the type that a save leaves are those of the entities of the fields. -/
theorem Tended.rows (hname : ∀ l, T.entityName l = T.entityName k → l = k)
    (htended : M.Tended s scope.context owned)
    (hsave : (scope.save (T := T)).outcome s = (.ok summary, s')) :
    (∀ key, ((s'.rowsOf scope.context).row? ⟨T.entityName k, key⟩).isSome ↔
      key ∈ keysOf (entitiesOf owned)) ∧
    ∀ h ∈ entitiesOf owned, ∃ v payload row, s'.Has scope.context h v ∧ T.encode v = .ok payload ∧
      (s'.rowsOf scope.context).row? h.id = some row ∧ row.payload.same payload = true := by
  have hs := htended.sound
  have heffect := (effect_of_save hs hsave).1
  -- every entity of a field is live and can be encoded, so the save writes its row
  have hwritten : ∀ h ∈ entitiesOf owned, ∃ v payload row, s'.Has scope.context h v ∧
      T.encode v = .ok payload ∧ (s'.rowsOf scope.context).row? h.id = some row ∧
      row.payload.same payload = true := by
    intro h hh
    rcases htended.has h hh with ⟨v, hhas⟩
    have hsaved := hhas.saved rfl hsave
    rcases hhas.entry with ⟨pending, he⟩
    rcases hhas.entity with ⟨m, hm, hlive, _, hv⟩
    have hlive' : s.entryDeleted ⟨k, h, pending⟩ = false :=
      (entryDeleted_of_entity? (e := ⟨k, h, pending⟩) hm).trans hlive
    rcases heffect.written _ (SortedMap.mem_values_iff.2 ⟨_, he⟩) hlive' with
      ⟨payload, row, hsavable, hrow, hsame⟩
    rcases hsavable.entity with ⟨m', hm', _, _, hencode⟩
    rcases (hs.lodged he).entity with ⟨m'', hm'', hkind⟩
    cases hm.symm.trans hm'
    cases hm.symm.trans hm''
    have hkind : m.kind = k := hkind
    subst hkind
    rw [Entity.value_self] at hv
    exact ⟨v, payload, row, hsaved, hv ▸ hencode, hrow, hsame⟩
  refine ⟨?_, hwritten⟩
  intro key
  constructor
  · intro hsome
    rcases Option.isSome_iff_exists.1 hsome with ⟨row, hrow⟩
    rcases heffect.stocked hs hname htended.stocked key row hrow with ⟨e, he, hkind, _⟩
    rcases heffect.seen_of_entry hs he hkind with ⟨v, hv⟩
    exact htended.all key v hv
  · intro hkey
    rcases mem_keysOf.1 hkey with ⟨h, hh, rfl⟩
    rcases htended.has h hh with ⟨_, hhas⟩
    rcases hwritten h hh with ⟨_, _, row, _, _, hrow, _⟩
    rw [← hhas.name hs]
    exact Option.isSome_iff_exists.2 ⟨row, hrow⟩

end Mapping

end Reconcile
