import Reconcile.Proofs.Mapping.Turns
import Reconcile.Proofs.Sample.Filling
import Reconcile.Proofs.Session.Answering

/-!
# Fields of notes and of comments

Notes and comments have no natural keys, so the fields that are replaced with them own what they
refer to: in a context that has such fields and nothing else of the type, a fetch finds the members
of the fields, each once, and a save leaves their rows (`owned_fields`).
-/

namespace Reconcile.Sample

open Session Mapping

variable {s s' : Session model} {scope : Scope} {k : Kind} {schema : Schema} {settings : Settings}
  {owned owned' : List (OwnedField mapping k)}

/-- The types without natural keys that the blog and its nodes own. -/
def Kind.IsOwned : Kind → Prop
  | .note | .comment => True
  | _ => False

theorem Kind.IsOwned.ext {l : Kind} (hk : k.IsOwned) (hname : l.entityName = k.entityName) :
    l = k := by
  cases k <;> first | exact hk.elim | (cases l <;> first | rfl | (exact absurd hname (by decide)))

theorem keyless (hk : k.IsOwned) : mapping.Keyless k where
  name l hname := hk.ext hname
  naturalKey p := by
    cases k <;> first | rfl | exact hk.elim
  looks hR p nested scope this v := by
    cases k with
    | note => exact hR.pure _
    | comment => exact leads_fillComment hR trivial p v
    | _ => exact hk.elim
  toPlain p nested scope this v s := by
    cases k with
    | note => rfl
    | comment =>
      rcases v with ⟨author, text, post, anchor⟩
      cases post <;> rfl
    | _ => exact hk.elim

theorem Kind.IsOwned.encode (hk : k.IsOwned) (v : Value k) :
    ∃ payload, Value.encode v = .ok payload := by
  cases k <;> first | exact hk.elim | exact ⟨_, rfl⟩

/-! ## Fetching -/

/-- What is live of the type is what the fields refer to. -/
theorem exists_entity_of_live (htended : mapping.Tended s c owned) {e : Entry model}
    (he : e ∈ (s.registry c).values) (hkind : e.kind = k) (hlive : s.entryDeleted e = false) :
    ∃ h ∈ entitiesOf owned, ∃ pending v, e = ⟨k, h, pending⟩ ∧ s.Has c h v := by
  have hget := htended.sound.entry_of_mem he
  rcases (htended.sound.lodged hget).entity with ⟨m, hm, _⟩
  rw [entryDeleted_of_entity? hm] at hlive
  have hseen := seen?_of_entry hget hkind hm hlive
  rcases mem_keysOf.1 (htended.all _ _ hseen) with ⟨h, hh, hkey⟩
  rcases htended.has h hh with ⟨v, hhas⟩
  rcases hhas.entry with ⟨pending, he'⟩
  rw [hkey, hget] at he'
  exact ⟨h, hh, pending, v, Option.some.inj he', hhas⟩

/-- An entity that a fetch of the type considers is of the type, and shows its payload. -/
theorem visible_of_eligible (hk : k.IsOwned) (htended : mapping.Tended s c owned)
    {e : Entry model} (he : e ∈ (s.registry c).values)
    (heligible : s.Eligible (T := model) k (s.takesPending c) e) :
    e.kind = k ∧ ∃ payload, s.visibleOf e = some (.ok payload) := by
  have hs := htended.sound
  rcases eligible_iff.1 heligible with ⟨hname, hlive, _⟩
  have hkind : e.kind = k := hk.ext ((hs.lodged (hs.entry_of_mem he)).name.symm.trans hname)
  rcases exists_entity_of_live htended he hkind hlive with ⟨h, _, pending, v, rfl, hhas⟩
  rcases hhas.entity with ⟨m, hm, _, hunused, _⟩
  rcases (hs.lodged (hs.entry_of_mem he)).entity with ⟨m', hm', hmkind⟩
  cases hm.symm.trans hm'
  have hmkind : m.kind = k := hmkind
  subst hmkind
  rcases hk.encode m.state with ⟨payload, hencode⟩
  have hpayload := payload_of_encode (T := model) hencode
  refine ⟨rfl, payload, ?_⟩
  rw [visibleOf, hm']
  exact hunused.shown.trans (congrArg some hpayload)

/-- A fetch of the type finds what the fields refer to, each entity once. -/
theorem fetch_of_tended (hk : k.IsOwned) (htended : mapping.Tended s scope.context owned) :
    ∃ found journal, (scope.fetch (T := model) k (.all k.entityName)).outcome s =
      (.ok found, { s with journal }) ∧ found.Perm (entitiesOf owned) := by
  rcases scope with ⟨c, binding⟩
  have hs := htended.sound
  rcases htended.described with ⟨d, hd⟩
  have haskable : s.Askable (T := model) c k (.all k.entityName) := ⟨rfl, d, hd, rfl⟩
  have hfetchable : ∀ e ∈ (s.registry c).values,
      s.Fetchable (T := model) k (.all k.entityName) (s.takesPending c) e := by
    intro e he heligible visible hvisible
    rcases visible_of_eligible hk htended he heligible with ⟨hkind, payload, hpayload⟩
    cases hvisible.symm.trans hpayload
    exact ⟨payload, rfl, fun _ => hkind⟩
  have hcomplete : ∀ key row, (key, row) ∈ s.rowsNamed (T := model) c k →
      (s.registry c).contains key = true := by
    intro key row hrow
    rcases htended.stocked key row (mem_rowsNamed_iff.1 hrow) with ⟨e, he, _⟩
    simp [SortedMap.contains, he]
  have hfetched : ∃ journal, ((Scope.mk c binding).fetch (T := model) k (.all k.entityName)).outcome
      s = _ := fetch_of_complete haskable hcomplete hfetchable
  rcases hfetched with ⟨journal, hfetch⟩
  refine ⟨_, journal, hfetch, ?_⟩
  -- each of the two lists has its entities once, so it is enough that they have the same ones
  have hsorted := hs.pairwise_matchesOf (T := model) c k (.all k.entityName)
  have honce : ((s.matchesOf c k (.all k.entityName)).map (·.1)).Nodup := by
    refine List.pairwise_map.2 (hsorted.imp ?_)
    intro a b hlt heq
    rw [heq] at hlt
    exact UInt64.lt_irrefl _ hlt
  refine (List.perm_ext_iff_of_nodup honce (List.Nodup.of_map _ htended.apart)).2 ?_
  intro h
  constructor
  · intro hmem
    rcases List.mem_map.1 hmem with ⟨⟨_, payload⟩, hin, rfl⟩
    rcases List.mem_filterMap.1 hin with ⟨e, he, hmatch⟩
    rcases matchOf?_eq_some hmatch with ⟨hhandle, hkind, heligible, _, _⟩
    rcases exists_entity_of_live htended he hkind (eligible_iff.1 heligible).2.1 with
      ⟨h', hh', _, _, rfl, _⟩
    rw [hhandle]
    exact hh'
  · intro hmem
    rcases htended.has h hmem with ⟨v, hhas⟩
    rcases hhas.entry with ⟨pending, he⟩
    rcases hhas.entity with ⟨m, hm, hlive, _, _⟩
    have hin : (⟨k, h, pending⟩ : Entry model) ∈ (s.registry c).values :=
      SortedMap.mem_values_iff.2 ⟨_, he⟩
    have heligible : s.Eligible (T := model) k (s.takesPending c) ⟨k, h, pending⟩ :=
      eligible_iff.2 ⟨(hs.lodged he).name,
        (entryDeleted_of_entity? (e := ⟨k, h, pending⟩) hm).trans hlive, fun _ => htended.pending⟩
    rcases visible_of_eligible hk htended hin heligible with ⟨_, payload, hvisible⟩
    have hsome := (isSome_matchOf?_iff heligible hvisible (hfetchable _ hin)).2 rfl
    rcases Option.isSome_iff_exists.1 hsome with ⟨found, hmatch⟩
    refine List.mem_map.2 ⟨found, List.mem_filterMap.2 ⟨_, hin, hmatch⟩, ?_⟩
    exact (matchOf?_eq_some hmatch).1

/-! ## Runs -/

/-- An empty store of this schema with a context. -/
def emptyOpen (schema : Schema) (settings : Settings) : Session model :=
  ((Session.empty.openStore schema settings).2.openContext ⟨0⟩).2

theorem run_emptyOpen : Run Deed.Native .empty (emptyOpen schema settings) :=
  ((Step.openStore .empty schema settings).run trivial).trans
    ((Step.openContext _ ⟨0⟩ rfl).run trivial)

/-- A field that was never replaced and has no members. -/
def Fresh (o : OwnedField mapping k) : Prop :=
  o.field.members = [] ∧ o.plains = [] ∧ o.entities = []

theorem tended_emptyOpen {d : Description} (hd : schema.require k.entityName = .ok d)
    (hpending : settings.includePending = true) (hfresh : ∀ o ∈ owned, Fresh o)
    (hkeys : (emptyOpen schema settings).KeysLeft) :
    mapping.Tended (emptyOpen schema settings) ⟨1⟩ owned := by
  have hnone : ∀ id, ((emptyOpen schema settings).rowsOf ⟨1⟩).row? id = none := fun _ => rfl
  have hregistry : (emptyOpen schema settings).registry ⟨1⟩ = .empty := rfl
  have hentities : entitiesOf owned = [] :=
    List.flatMap_eq_nil_iff.2 fun o ho => (hfresh o ho).2.2
  have hstocked : Stocked (emptyOpen schema settings) ⟨1⟩ k := by
    intro key row hrow
    cases (hnone _).symm.trans hrow
  refine ⟨⟨run_emptyOpen.sound sound_empty, ?_, hstocked, ⟨d, hd⟩, hpending⟩, ?_, ?_, ?_⟩
  · exact run_emptyOpen.numbered sound_empty numbered_empty hkeys
  · intro o ho
    rcases hfresh o ho with ⟨hmembers, hplains, hentities⟩
    refine ⟨?_, ?_, ?_⟩
    · rw [hmembers, hentities]
      exact .nil
    · rw [hplains, hentities]
      exact .nil
    · rw [hentities]
      exact fun _ hh => absurd hh List.not_mem_nil
  · rw [hentities]
    exact .nil
  · intro key v hv
    have hunread : ((emptyOpen schema settings).registry ⟨1⟩).get? key = none := by
      rw [hregistry]
      rfl
    cases (hstocked.seen?_of_new hunread).symm.trans hv

/-- Over an empty store, however fields of a type without keys are replaced from plain values, read
back and saved: each field refers to what its last replacement has made, one new entity for each
plain value and in their order, a fetch finds these entities and no other ones, each once, and a
save leaves their rows and no other ones of the type. -/
theorem owned_fields (hk : k.IsOwned) {d : Description}
    (hd : schema.require k.entityName = .ok d) (hpending : settings.includePending = true)
    (hscope : scope.context = ⟨1⟩) (hfresh : ∀ o ∈ owned, Fresh o)
    (hturns : mapping.Turns scope (emptyOpen schema settings) owned s owned')
    (hkeys : s.KeysLeft) :
    (∀ o ∈ owned', o.Sits s ⟨1⟩) ∧ (keysOf (entitiesOf owned')).Nodup ∧
    (∃ found journal, (scope.fetch (T := model) k (.all k.entityName)).outcome s =
      (.ok found, { s with journal }) ∧ found.Perm (entitiesOf owned')) ∧
    ∀ summary s', (scope.save (T := model)).outcome s = (.ok summary, s') →
      (∀ key, ((s'.rowsOf ⟨1⟩).row? ⟨k.entityName, key⟩).isSome ↔
        key ∈ keysOf (entitiesOf owned')) ∧
      ∀ h ∈ entitiesOf owned', ∃ v payload row, s'.Has ⟨1⟩ h v ∧ Value.encode v = .ok payload ∧
        (s'.rowsOf ⟨1⟩).row? h.id = some row ∧ row.payload.same payload = true := by
  have hs : Sound (emptyOpen schema settings) := run_emptyOpen.sound sound_empty
  have hkeys₀ := (hturns.run lawful hs).keysLeft hkeys
  have hstart : mapping.Tended (emptyOpen schema settings) scope.context owned :=
    hscope ▸ tended_emptyOpen hd hpending hfresh hkeys₀
  have htended := hturns.tended lawful (keyless hk) hstart hkeys
  have hrows : ∀ summary s', (scope.save (T := model)).outcome s = (.ok summary, s') → _ :=
    fun _ _ hsave => htended.rows (fun _ hname => hk.ext hname) hsave
  refine ⟨hscope ▸ htended.each, htended.apart, fetch_of_tended hk htended, ?_⟩
  rw [← hscope]
  exact hrows

section Notes

/-- A list field is replaced with two notes. -/
def notesListed : Option (MemberList Kind.note) × Session model :=
  mapping.replaceList (T := model) (k := Kind.note) (.within ⟨1⟩) none
    (some [(⟨"a"⟩ : NotePlain), (⟨"b"⟩ : NotePlain)]) pure (emptyOpen standardSchema .default)

/-- A reference is replaced with another note. -/
def noteReferred : (Option (Handle Kind.note) × Option (ToOne Kind.note)) × Session model :=
  mapping.replaceOne (T := model) (k := Kind.note) (.within ⟨1⟩) none (some (⟨"c"⟩ : NotePlain))
    notesListed.2

def notesSaved : Session model := (((Scope.within ⟨1⟩).save (T := model)).outcome noteReferred.2).2

/-- The list is read back and replaced with one note. -/
def notesReplaced : Option (MemberList Kind.note) × Session model :=
  mapping.replaceList (T := model) (k := Kind.note) (.within ⟨1⟩)
    (notesListed.1.map (MemberList.reread (some ⟨1⟩))) (some [(⟨"d"⟩ : NotePlain)]) pure notesSaved

def noteFields : List (OwnedField mapping Kind.note) :=
  [⟨.list none, [], [], 0⟩, ⟨.one none, [], [], 0⟩]

theorem turns_notesReplaced : ∃ owned,
    mapping.Turns (.within ⟨1⟩) (emptyOpen standardSchema .default) noteFields notesReplaced.2
      owned ∧
      keysOf (entitiesOf owned) = [4, 3] := by
  have hsaved : ((Scope.within ⟨1⟩).save (T := model)).outcome noteReferred.2 =
      (.ok ⟨3, 0, 0⟩, notesSaved) := rfl
  have hlooks : Hook.Looks (T := model) (k := Kind.note) pure := Hook.looks_pure id
  have hread : (Field.list notesListed.1).Rereads (some ⟨1⟩)
      (.list (notesListed.1.map (MemberList.reread (some ⟨1⟩)))) :=
    .list (MemberList.optional?_toJson _ _)
  exact ⟨_, ((((Turns.refl.tail (.replace [] [_] (.list none (some _) hlooks))).tail
    (.replace [_] [] (.one none (some _)))).tail (.save _ hsaved)).tail (.reread [] [_] hread)).tail
      (.replace [] [_] (.list _ (some _) hlooks)), by decide +kernel⟩

/-- The next save takes the rows of the notes that were in the list first. -/
theorem owned_fields_notes : ∃ s',
    ((Scope.within ⟨1⟩).save (T := model)).outcome notesReplaced.2 = (.ok ⟨1, 0, 2⟩, s') ∧
      ∀ key, ((s'.rowsOf ⟨1⟩).row? ⟨"Note", key⟩).isSome ↔ key ∈ [4, 3] := by
  have hok : (((Scope.within ⟨1⟩).save (T := model)).outcome notesReplaced.2).1.toOption =
      some ⟨1, 0, 2⟩ := by decide +kernel
  rcases turns_notesReplaced with ⟨owned, hturns, hentities⟩
  have hfresh : ∀ o ∈ noteFields, Fresh o := by
    intro o ho
    rcases List.mem_cons.1 ho with rfl | ho
    · exact ⟨rfl, rfl, rfl⟩
    · cases List.mem_singleton.1 ho
      exact ⟨rfl, rfl, rfl⟩
  rcases owned_fields (k := Kind.note) trivial rfl rfl rfl hfresh hturns (by decide +kernel) with
    ⟨_, _, _, hrows⟩
  rw [← hentities]
  rcases hsave : ((Scope.within ⟨1⟩).save (T := model)).outcome notesReplaced.2 with
    ⟨fault | summary, s'⟩
  · rw [hsave] at hok
    cases hok
  · rw [hsave] at hok
    cases hok
    exact ⟨s', rfl, (hrows _ _ hsave).1⟩

end Notes

end Reconcile.Sample
