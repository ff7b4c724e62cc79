import Reconcile.Proofs.Mapping.Courses
import Reconcile.Proofs.Mapping.Typing
import Reconcile.Proofs.Sample.Minding
import Reconcile.Proofs.Sample.Tidy
import Reconcile.Proofs.Session.Answering

/-!
# What is kept of what a call creates

While a call synchronizes plain values, no two of the entities that it creates are seen with the
same key, and lookups of keys go on to succeed (`Frugal`).  Reading rows keeps this up, and so do
changes of entities that leave their keys alone.  An insertion does too once the new entity is seen
with the key that was looked up in vain (`Frugal.stage`).
-/

namespace Reconcile.Sample

open Session

variable {s s₁ s' s'' : Session model} {scope : Scope} {c d : ContextId} {k l : Kind}
  {key key' : UInt64} {slot base : Nat} {value : Json} {m m' : Entity model} {e : Entry model}

/-! ## Keys that are seen -/

/-- What others see of the live entity of this type has the value in the key attribute. -/
def Bears (l : Kind) (value : Json) (m : Entity model) : Prop :=
  m.kind = l ∧ m.deleted = false ∧ ∃ payload, m.visible? = some (.ok payload) ∧
    (payload.valueAt l.keyAttribute).same value = true

/-- The live entity of this type in the slot is seen with this key. -/
def Carries (s : Session model) (l : Kind) (slot : Nat) (value : Json) : Prop :=
  ∃ m, s.entity? slot = some m ∧ Bears l value m

/-- The registry has the entity, which was inserted when there were this many, and not saved. -/
structure Created (base : Nat) (s : Session model) (c : ContextId) (l : Kind) (key : UInt64)
    (e : Entry model) : Prop where
  entry : (s.registry c).get? key = some e
  kind : e.kind = l
  pending : e.pending = true
  later : base ≤ e.slot

theorem Created.congr (hcreated : Created base s' c l key e)
    (hregistry : s'.registry c = s.registry c) : Created base s c l key e :=
  ⟨hregistry ▸ hcreated.entry, hcreated.kind, hcreated.pending, hcreated.later⟩

theorem Carries.of_entity? (hcarries : Carries s l slot value)
    (hentity : ∀ m, s.entity? slot = some m → s'.entity? slot = some m) :
    Carries s' l slot value := by
  rcases hcarries with ⟨m, hm, hbears⟩
  exact ⟨m, hentity m hm, hbears⟩

/-! ## Looking keys up -/

/-- The query for the entities of a type with this key. -/
def keyQuery (l : Kind) (value : Json) : Query :=
  .matching l.entityName (.equals l.keyAttribute value)

/-- The entities of a type can be looked up by their keys, whatever the key. -/
structure Searchable (c : ContextId) (l : Kind) (s : Session model) : Prop where
  pending : s.takesPending c = true
  askable : ∀ value, s.Askable (T := model) c l (keyQuery l value)
  readable : ∀ key row, (s.rowsOf c).row? ⟨l.entityName, key⟩ = some row →
    (s.registry c).get? key = none → (Value.decode l (some c) row.payload).isSome
  entries : ∀ key e, (s.registry c).get? key = some e → e.id.entity = l.entityName →
    s.entryDeleted e = false → ∀ visible, s.visibleOf e = some visible →
      e.kind = l ∧ ∃ payload, visible = .ok payload

/-- What stands in the way of a lookup stands in the way of some lookup by a key. -/
theorem searchable_of_lookups (hs : Sound s) (hpending : s.takesPending scope.context = true)
    (hlookup : ∀ value, ∃ found s₁,
      (scope.fetch (T := model) l (keyQuery l value)).outcome s = (.ok found, s₁)) :
    Searchable scope.context l s where
  pending := hpending
  askable value := by
    rcases hlookup value with ⟨found, s₁, hfetch⟩
    exact ((fetch_spec hs scope l (keyQuery l value)).2 found s₁ hfetch).askable
  readable key row hrow hnone := by
    rcases hlookup .null with ⟨found, s₁, hfetch⟩
    have hfetches := (fetch_spec hs scope l (keyQuery l .null)).2 found s₁ hfetch
    have hmem : (key, row) ∈ s.rowsNamed (T := model) scope.context l := mem_rowsNamed_iff.2 hrow
    rcases Option.isSome_iff_exists.1 (hfetches.complete key row hmem) with ⟨e, he⟩
    rcases hfetches.loads.entry _ _ _ he with hold | ⟨_, _, _, row', hrow', hread⟩
    · cases hnone.symm.trans hold
    · cases (mem_rowsNamed_iff.1 hmem).symm.trans (mem_rowsNamed_iff.1 hrow')
      rcases hread.value with ⟨v, hdecode, _⟩
      exact Option.isSome_iff_exists.2 ⟨v, hdecode⟩
  entries key e he hname hlive visible hvisible := by
    have hfetchable : ∀ value, s.Fetchable (T := model) l (keyQuery l value) true e := by
      intro value
      rcases hlookup value with ⟨found, s₁, hfetch⟩
      have hfetches := (fetch_spec hs scope l (keyQuery l value)).2 found s₁ hfetch
      have hgrows := hfetches.loads.toGrows
      have htakes : s₁.takesPending scope.context = true := by
        rw [← hpending, takesPending, hgrows.settingsOf, takesPending]
      have hkept := hfetches.fetchable e
        (SortedMap.mem_values_iff.2 ⟨key, hgrows.registry _ _ _ he⟩)
      rw [htakes] at hkept
      exact (fetchable_congr (hgrows.entity?_of_entry hs he)).1 hkept
    have heligible : s.Eligible (T := model) l true e :=
      eligible_iff.2 ⟨hname, hlive, fun _ => rfl⟩
    rcases hfetchable .null heligible visible hvisible with ⟨payload, rfl, _⟩
    rcases hfetchable (payload.valueAt l.keyAttribute) heligible _ hvisible with
      ⟨payload', hsame, hkind⟩
    cases hsame
    exact ⟨hkind (Json.same_refl _), payload, rfl⟩

theorem Searchable.fetchable (h : Searchable c l s)
    (he : (s.registry c).get? key = some e) (q : Query) :
    s.Fetchable (T := model) l q (s.takesPending c) e := by
  intro heligible visible hvisible
  rcases eligible_iff.1 heligible with ⟨hname, hlive, _⟩
  rcases h.entries key e he hname hlive visible hvisible with ⟨hkind, payload, rfl⟩
  exact ⟨payload, rfl, fun _ => hkind⟩

theorem Searchable.loads (h : Searchable c l s) (hl : l.IsKeyed) (hk : k.IsBlog)
    (hs : Sound s) (hloads : Loads s s' d k (s.rowsNamed (T := model) d k)) :
    Searchable c l s' where
  pending := by
    rw [takesPending, hloads.settingsOf]
    exact h.pending
  askable value := hloads.toGrows.askable (h.askable value)
  readable key row hrow hnone := by
    rw [hloads.rowsOf] at hrow
    refine h.readable key row hrow ?_
    cases hold : (s.registry c).get? key with
    | none => rfl
    | some e => cases hnone.symm.trans (hloads.registry _ _ _ hold)
  entries key e he hname hlive visible hvisible := by
    rcases hloads.entry _ _ _ he with hold | ⟨_, _, _, row, hmem, hread⟩
    · have hentity := hloads.toGrows.entity?_of_entry hs hold
      rw [entryDeleted_congr hentity] at hlive
      rw [visibleOf_congr hentity] at hvisible
      exact h.entries key e hold hname hlive visible hvisible
    · -- what was read has the name of its type and shows its payload
      have hkind : k = l := by
        refine hk.ext hl.isBlog ?_
        rw [← hname, hread.id_eq, hs.filed_rowsOf d _ row (mem_rowsNamed_iff.1 hmem)]
      subst hkind
      rcases hread.shows with ⟨v, _, _, _, hshown⟩
      rcases exists_encode hk v with ⟨payload, hencode⟩
      refine ⟨hread.kind_eq, payload, ?_⟩
      rw [hshown] at hvisible
      rw [← Option.some.inj hvisible]
      exact payload_of_encode (T := model) hencode

theorem carries_of_match {value : Json} {key : UInt64} {e : Entry model} (hs : Sound s)
    (he : (s.registry c).get? key = some e) {found : Handle l × Json}
    (hmatch : s.matchOf? l (keyQuery l value) (s.takesPending c) e = some found) :
    Carries s l e.slot value := by
  rcases matchOf?_eq_some hmatch with ⟨_, hkind, heligible, hvisible, haccepted⟩
  rcases (hs.lodged he).entity with ⟨m, hm, hmkind⟩
  have hlive := (eligible_iff.1 heligible).2.1
  rw [entryDeleted_of_entity? hm] at hlive
  rw [visibleOf, hm] at hvisible
  exact ⟨m, hm, hmkind.trans hkind, hlive, found.2, hvisible, haccepted⟩

/-- Nothing that has the key is left out by the lookup. -/
theorem Searchable.exists_match (h : Searchable c l s) (hs : Sound s) {value : Json}
    {key : UInt64} {e : Entry model} (he : (s.registry c).get? key = some e)
    (hcarries : Carries s l e.slot value) :
    ∃ found, s.matchOf? l (keyQuery l value) (s.takesPending c) e = some found := by
  rcases hcarries with ⟨m, hm, hkind, hlive, payload, hvisible, hsame⟩
  have hlodged := hs.lodged he
  rcases hlodged.entity with ⟨m', hm', hmkind⟩
  cases hm.symm.trans hm'
  have hname : e.id.entity = l.entityName := hlodged.name.trans
    (congrArg Kind.entityName (hmkind.symm.trans hkind))
  have heligible : s.Eligible (T := model) l (s.takesPending c) e :=
    eligible_iff.2 ⟨hname, (entryDeleted_of_entity? hm).trans hlive, fun _ => h.pending⟩
  have hvisible' : s.visibleOf e = some (.ok payload) := by
    rw [visibleOf, hm]
    exact hvisible
  have haccepted : (keyQuery l value).accepts payload = true := hsame
  exact Option.isSome_iff_exists.1
    ((isSome_matchOf?_iff heligible hvisible' (h.fetchable he _)).2 haccepted)

/-- The lookup of a plain value finds an entity with its key, or there is none in the registry,
which has all rows of the type by then. -/
theorem Searchable.find (h : Searchable scope.context l s) (hl : l.IsKeyed) (hs : Sound s)
    {p : Plain l} {n : NaturalKey} (hkey : Plain.naturalKey p = some n) {found : Option (Handle l)}
    (hfind : mapping.findUnique (T := model) (k := l) scope p s = (found, s₁)) :
    (∀ h, found = some h → Carries s₁ l h.slot n.value) ∧
      (found = none → (∀ key e, (s₁.registry scope.context).get? key = some e →
          ¬ Carries s₁ l e.slot n.value) ∧
        ∀ key row, (s₁.rowsOf scope.context).row? ⟨l.entityName, key⟩ = some row →
          ((s₁.registry scope.context).get? key).isSome) := by
  have hquery : Query.matching (model.entityName l) n.filter = keyQuery l n.value := by
    rw [keyQuery, ← keyAttribute_eq hl.isBlog hkey]
    rfl
  have hfetchable : ∀ s', Loads s s' scope.context l (s.rowsNamed (T := model) scope.context l) →
      ∀ e ∈ (s'.registry scope.context).values,
        s'.Fetchable (T := model) l (keyQuery l n.value) (s'.takesPending scope.context) e := by
    intro s' hloads e he
    rcases SortedMap.mem_values_iff.1 he with ⟨key, hget⟩
    exact (h.loads hl hl.isBlog hs hloads).fetchable hget _
  rcases fetch_ok hs scope (h.askable n.value)
    (fun key row hmem hnone => h.readable key row (mem_rowsNamed_iff.1 hmem) hnone) hfetchable with
    ⟨handles, s', hfetch⟩
  rcases fetch_spec hs scope l (keyQuery l n.value) with ⟨hrun, hspec⟩
  have hfetches := hspec handles s' hfetch
  rw [hfetch] at hrun
  have hs' : Sound s' := hrun.sound hs
  have h' : Searchable scope.context l s' := h.loads hl hl.isBlog hs hfetches.loads
  rw [← hquery] at hfetch
  cases (Mapping.findUnique_of_fetch hkey hfetch).symm.trans hfind
  have hmem : ∀ {h : Handle l}, h ∈ handles → Carries s₁ l h.slot n.value := by
    intro h hh
    rcases (hfetches.mem_iff hs').1 hh with ⟨e, payload, he, hmatch⟩
    have hslot : h.slot = e.slot := congrArg Handle.slot (matchOf?_eq_some hmatch).1
    rw [hslot]
    exact carries_of_match hs' he hmatch
  refine ⟨fun h hlast => hmem (List.mem_of_getLast? hlast), fun hnone => ⟨?_, ?_⟩⟩
  · intro key e he hcarries
    -- an entity with the key would be among the results
    rcases h'.exists_match hs' he hcarries with ⟨⟨handle, payload⟩, hmatch⟩
    have hin : handle ∈ handles := by
      refine (hfetches.mem_iff hs').2 ⟨e, payload, ?_, hmatch⟩
      have hid : handle.id = e.id := congrArg Handle.id (matchOf?_eq_some hmatch).1
      rw [hid, (hs'.lodged he).key]
      exact he
    rw [List.getLast?_eq_none_iff] at hnone
    rw [hnone] at hin
    cases hin
  · intro key row hrow
    refine hfetches.complete key row (mem_rowsNamed_iff.2 ?_)
    rw [← hfetches.loads.rowsOf]
    exact hrow

/-! ## Comments that posts are bound to -/

/-- The members of the comments field of a value that is a post. -/
def ownedComments : {k : Kind} → Value k → List (Member Kind.comment)
  | .post, v => ((v : Post).comments.map MemberList.members).getD []
  | _, _ => []

/-- What a value is bound to as its comments are comments. -/
def Proper (s : Session model) {k : Kind} (v : Value k) : Prop :=
  ∀ x ∈ ownedComments v, x.Held (T := model) s

/-- What the posts of the context are bound to as their comments are comments, as the types of
handles say. -/
def Typed (c : ContextId) (s : Session model) : Prop :=
  ∀ key e m, (s.registry c).get? key = some e → s.entity? e.slot = some m →
    Proper s (m.state : Value m.kind)

theorem Proper.run {allow : Deed → Prop} {v : Value k} (h : Proper s v) (hrun : Run allow s s') :
    Proper s' v := fun x hx => (h x hx).run hrun

theorem proper_of_ne_post (hk : k ≠ .post) (v : Value k) : Proper s v := by
  intro x hx
  cases k with
  | post => exact absurd rfl hk
  | _ => cases hx

theorem proper_blank (k : Kind) : Proper s (Value.blank k) := by
  cases k <;> exact fun x hx => absurd hx List.not_mem_nil

/-- What was read from a payload is not bound to anything yet. -/
theorem proper_of_decode {source : Option ContextId} {payload : Json} {v : Value k}
    (hdecode : Value.decode k source payload = some v) : Proper s v := by
  intro x hx h hbound
  cases k with
  | post =>
    have hbonds : Value.bonds v = [] := (readIn_value hdecode).bonds
    rcases List.append_eq_nil_iff.1 (List.append_eq_nil_iff.1 hbonds).2 with ⟨_, hcomments⟩
    have hx : x ∈ ((v : Post).comments.map MemberList.members).getD [] := hx
    cases hfield : (v : Post).comments with
    | none =>
      rw [hfield] at hx
      cases hx
    | some members =>
      rw [hfield] at hx hcomments
      have hnone := List.flatMap_eq_nil_iff.1 hcomments x hx
      rw [Member.bonds, hbound] at hnone
      cases hnone
  | _ => cases hx

/-! ## What is kept of what a call creates -/

/-- What a call has created since there were `base` entities has keys, and nothing else in the
registry is seen with them. -/
structure Frugal (base : Nat) (c : ContextId) (l : Kind) (s : Session model) : Prop where
  sound : Sound s
  numbered : Numbered s
  searchable : Searchable c l s
  typed : Typed c s
  /-- Rows cannot bring a key in again once there is a created entity. -/
  complete : ∀ key e, Created base s c l key e → ∀ key' row,
    (s.rowsOf c).row? ⟨l.entityName, key'⟩ = some row → ((s.registry c).get? key').isSome
  keyed : ∀ key e, Created base s c l key e → ∃ value, Carries s l e.slot value
  apart : ∀ key e key' e' value, Created base s c l key e → (s.registry c).get? key' = some e' →
    Carries s l e.slot value → Carries s l e'.slot value → key' = key

/-- What is in the registry stays there, and what is seen with a key is still seen with it. -/
structure Retains (c : ContextId) (l : Kind) (s s' : Session model) : Prop where
  entry : ∀ key e, (s.registry c).get? key = some e → (s'.registry c).get? key = some e
  carries : ∀ slot value, Carries s l slot value → Carries s' l slot value

theorem Retains.refl (c : ContextId) (l : Kind) (s : Session model) : Retains c l s s :=
  ⟨fun _ _ he => he, fun _ _ h => h⟩

theorem Retains.trans (h : Retains c l s s') (h' : Retains c l s' s'') : Retains c l s s'' where
  entry key e he := h'.entry key e (h.entry key e he)
  carries slot value hcarries := h'.carries slot value (h.carries slot value hcarries)

theorem retains_of_loads (hloads : Loads s s' d k (s.rowsNamed (T := model) d k)) :
    Retains c l s s' where
  entry := hloads.registry c
  carries _ _ hcarries := hcarries.of_entity? fun _ => hloads.entity

theorem retains_report (event : Event) : Retains c l s (s.report event) :=
  ⟨fun _ _ he => he, fun _ _ h => h⟩

/-- Before the call nothing was created in it. -/
theorem frugal_start (hs : Sound s) (hnumbered : Numbered s) (hsearchable : Searchable c l s)
    (htyped : Typed c s) : Frugal s.entities.size c l s := by
  have hnone : ∀ key e, ¬ Created s.entities.size s c l key e := by
    rintro key e hcreated
    rcases (hs.lodged hcreated.entry).entity with ⟨m, hm, _⟩
    exact Nat.not_lt.2 hcreated.later (lt_size_of_entity? hm)
  exact ⟨hs, hnumbered, hsearchable, htyped, fun key e h => absurd h (hnone key e),
    fun key e h => absurd h (hnone key e), fun key e _ _ _ h => absurd h (hnone key e)⟩

/-! ### Reading rows -/

/-- What was created before and is in the registry was there before rows were read. -/
theorem Created.of_loads (hcreated : Created base s' c l key e)
    (hloads : Loads s s' d k (s.rowsNamed (T := model) d k)) : Created base s c l key e := by
  rcases hloads.entry _ _ _ hcreated.entry with hold | ⟨_, _, _, row, _, hread⟩
  · exact ⟨hold, hcreated.kind, hcreated.pending, hcreated.later⟩
  · have hpending := hcreated.pending
    rcases hread.entry with ⟨n, rfl⟩
    cases hpending

theorem Carries.of_loads (hcarries : Carries s' l e.slot value) (hs : Sound s)
    (he : (s.registry c).get? key = some e)
    (hloads : Loads s s' d k (s.rowsNamed (T := model) d k)) : Carries s l e.slot value := by
  rcases hcarries with ⟨m, hm, hbears⟩
  exact ⟨m, (hloads.toGrows.entity?_of_entry hs he).symm.trans hm, hbears⟩

theorem Frugal.loads (h : Frugal base c l s) (hl : l.IsKeyed) (hk : k.IsBlog)
    (hloads : Loads s s' d k (s.rowsNamed (T := model) d k)) (hrun : Run Deed.Reading s s') :
    Frugal base c l s' where
  sound := hrun.sound h.sound
  numbered := hloads.numbered h.sound h.numbered
  searchable := h.searchable.loads hl hk h.sound hloads
  typed key e m he hm := by
    rcases hloads.entry _ _ _ he with hold | ⟨_, _, _, row, _, hread⟩
    · rw [hloads.toGrows.entity?_of_entry h.sound hold] at hm
      exact (h.typed key e m hold hm).run hrun
    · rcases hread.value with ⟨v, hdecode, hentity⟩
      cases hm.symm.trans hentity
      exact proper_of_decode hdecode
  complete key e hcreated key' row hrow := by
    rw [hloads.rowsOf] at hrow
    have hsome := h.complete key e (hcreated.of_loads hloads) key' row hrow
    rcases Option.isSome_iff_exists.1 hsome with ⟨e', he'⟩
    rw [hloads.registry _ _ _ he']
    rfl
  keyed key e hcreated := by
    rcases h.keyed key e (hcreated.of_loads hloads) with ⟨value, hcarries⟩
    exact ⟨value, hcarries.of_entity? fun _ => hloads.entity⟩
  apart key e key' e' value hcreated he' hcarries hcarries' := by
    have hold := hcreated.of_loads hloads
    have hbefore := hcarries.of_loads h.sound hold.entry hloads
    rcases hloads.entry _ _ _ he' with hold' | ⟨rfl, _, hnone, row, hmem, hread⟩
    · exact h.apart key e key' e' value hold hold' hbefore
        (hcarries'.of_loads h.sound hold' hloads)
    · -- all rows of the type were read before, so what was read now is of another one
      rcases hcarries' with ⟨m, hm, hkind, _⟩
      have hkl : k = l := by
        rw [← hkind, hloads.kind h.sound he' hm, hread.kind_eq]
      subst hkl
      have hsome := h.complete key e hold key' row (mem_rowsNamed_iff.1 hmem)
      rw [hnone] at hsome
      cases hsome

/-! ### Changes of entities -/

/-- What others see of an entity of the blog or a folder is always a payload. -/
theorem visible_eq_ok (hk : Kind.IsBlog m.kind) {visible : Except Fault Json}
    (hvisible : m.visible? = some visible) : ∃ payload, visible = .ok payload := by
  rcases exists_encode hk m.state with ⟨payload, hencode⟩
  have hpayload := payload_of_encode (T := model) hencode
  unfold Entity.visible? Entity.live? at hvisible
  split at hvisible
  · next shown hshown =>
    split at hshown
    · cases hshown
    · rw [hpayload] at hshown
      exact ⟨payload, (Option.some.inj hvisible).symm.trans (Option.some.inj hshown).symm⟩
  · rcases Option.map_eq_some_iff.1 hvisible with ⟨published, _, hok⟩
    exact ⟨published, hok.symm⟩

/-- The same entity, seen with the same key. -/
structure Alters (l : Kind) (s : Session model) (m m' : Entity model) : Prop where
  kind : m'.kind = m.kind
  blog : Kind.IsBlog m.kind
  live : m'.deleted = false → m.deleted = false
  bears : ∀ value, Bears l value m' ↔ Bears l value m
  proper : Proper s (m'.state : Value m'.kind)

theorem holds_modifyEntity {h : Handle k} {f : Entity model → Entity model}
    (hkind : ∀ m, s.entity? slot = some m → (f m).kind = m.kind) (hholds : s.Holds h) :
    (s.modifyEntity slot f).Holds h := by
  rcases hholds with ⟨m, hm, rfl⟩
  by_cases hslot : h.slot = slot
  · subst hslot
    exact ⟨f m, entity?_modifyEntity_self hm f, hkind m hm⟩
  · exact ⟨m, (entity?_modifyEntity_of_ne s hslot f).trans hm, rfl⟩

theorem carries_modifyEntity {f : Entity model → Entity model}
    (hf : ∀ m, s.entity? slot = some m → Alters l s m (f m)) {n : Nat} :
    Carries (s.modifyEntity slot f) l n value ↔ Carries s l n value := by
  by_cases hn : n = slot
  · subst hn
    constructor
    · rintro ⟨m', hm', hbears⟩
      rw [entity?_modifyEntity, if_pos rfl] at hm'
      rcases Option.map_eq_some_iff.1 hm' with ⟨m, hm, rfl⟩
      exact ⟨m, hm, ((hf m hm).bears value).1 hbears⟩
    · rintro ⟨m, hm, hbears⟩
      exact ⟨f m, entity?_modifyEntity_self hm f, ((hf m hm).bears value).2 hbears⟩
  · unfold Carries
    rw [entity?_modifyEntity_of_ne s hn f]

theorem retains_modifyEntity {f : Entity model → Entity model}
    (hf : ∀ m, s.entity? slot = some m → Alters l s m (f m)) :
    Retains c l s (s.modifyEntity slot f) where
  entry _ _ he := he
  carries _ _ hcarries := (carries_modifyEntity hf).2 hcarries

theorem Frugal.modifyEntity (h : Frugal base c l s) (hl : l.IsKeyed)
    {f : Entity model → Entity model}
    (hsound : Sound (s.modifyEntity slot f))
    (hf : ∀ m, s.entity? slot = some m → Alters l s m (f m)) :
    Frugal base c l (s.modifyEntity slot f) where
  sound := hsound
  numbered := h.numbered
  searchable := by
    refine ⟨h.searchable.pending, h.searchable.askable, h.searchable.readable, ?_⟩
    intro key e he hname hlive visible hvisible
    rcases (h.sound.lodged he).entity with ⟨m, hm, hkind⟩
    by_cases hslot : e.slot = slot
    · subst hslot
      have hm' := entity?_modifyEntity_self hm f
      have halters := hf m hm
      have hekind : e.kind = l := by
        refine Kind.IsBlog.ext (hkind ▸ halters.blog) hl.isBlog ?_
        rw [← hname, (h.sound.lodged he).name]
      rw [visibleOf, hm'] at hvisible
      refine ⟨hekind, visible_eq_ok ?_ hvisible⟩
      exact halters.kind.symm ▸ halters.blog
    · have hentity : (s.modifyEntity slot f).entity? e.slot = s.entity? e.slot :=
        entity?_modifyEntity_of_ne s hslot f
      rw [entryDeleted_congr hentity] at hlive
      rw [visibleOf_congr hentity] at hvisible
      exact h.searchable.entries key e he hname hlive visible hvisible
  typed key e m' he hm' x hx b hbound := by
    refine holds_modifyEntity (fun m hm => (hf m hm).kind) ?_
    by_cases hslot : e.slot = slot
    · subst hslot
      rw [entity?_modifyEntity, if_pos rfl] at hm'
      rcases Option.map_eq_some_iff.1 hm' with ⟨m, hm, rfl⟩
      exact (hf m hm).proper x hx b hbound
    · rw [entity?_modifyEntity_of_ne s hslot f] at hm'
      exact h.typed key e m' he hm' x hx b hbound
  complete key e hcreated := h.complete key e (hcreated.congr rfl)
  keyed key e hcreated := by
    rcases h.keyed key e (hcreated.congr rfl) with ⟨value, hcarries⟩
    exact ⟨value, (carries_modifyEntity hf).2 hcarries⟩
  apart key e key' e' value hcreated he' hcarries hcarries' :=
    h.apart key e key' e' value (hcreated.congr rfl) he'
      ((carries_modifyEntity hf).1 hcarries) ((carries_modifyEntity hf).1 hcarries')

theorem Frugal.report (h : Frugal base c l s) (event : Event) :
    Frugal base c l (s.report event) where
  sound := h.sound.report event
  numbered := h.numbered
  searchable := ⟨h.searchable.pending, h.searchable.askable, h.searchable.readable,
    h.searchable.entries⟩
  typed := h.typed
  complete key e hcreated := h.complete key e (hcreated.congr rfl)
  keyed key e hcreated := h.keyed key e (hcreated.congr rfl)
  apart key e key' e' value hcreated := h.apart key e key' e' value (hcreated.congr rfl)

/-! ### Inserting -/

theorem not_bears_of_kind (hkind : m.kind ≠ l) : ¬ Bears l value m := fun h => hkind h.1

/-- An entity is seen with one key only. -/
theorem bears_iff (h : Bears l value m) (h' : Bears l value m') (value' : Json) :
    Bears l value' m' ↔ Bears l value' m := by
  have hmove : ∀ {m m' : Entity model}, Bears l value m → Bears l value m' →
      Bears l value' m' → Bears l value' m := by
    rintro m m' ⟨hkind, hlive, payload, hvisible, hsame⟩ ⟨_, _, payload₁, hvisible₁, hsame₁⟩
      ⟨_, _, payload₂, hvisible₂, hsame₂⟩
    cases hvisible₁.symm.trans hvisible₂
    exact ⟨hkind, hlive, payload, hvisible,
      Json.same_trans (Json.same_trans hsame (Json.same_symm hsame₁)) hsame₂⟩
  exact ⟨hmove h h', hmove h' h⟩

theorem retains_insertUnder (hs : Sound s) (hnumbered : Numbered s) {store : Store}
    (hstore : s.storeOf? c = some store) :
    Retains c l s (s.insertUnder c k store.nextKey) where
  entry key e he := by
    refine (get?_insertUnder_of_ne hstore ?_).trans he
    rintro _ rfl
    cases (hnumbered.unused hs hstore).1.symm.trans he
  carries _ _ hcarries := hcarries.of_entity? fun _ => entity?_insertUnder

/-- One entity of the type came into the registry, and everything else is as it was. -/
structure Gains (s s' : Session model) (c : ContextId) (k : Kind) (m : Entity model) : Prop where
  run : Run Deed.Native s s'
  schemaOf : s'.schemaOf c = s.schemaOf c
  takesPending : s'.takesPending c = s.takesPending c
  rowsOf : s'.rowsOf c = s.rowsOf c
  entity : s'.entity? s.entities.size = some m
  others : ∀ n, n < s.entities.size → s'.entity? n = s.entity? n
  kept : ∀ key e, (s.registry c).get? key = some e → (s'.registry c).get? key = some e
  entry : ∃ fresh, ∀ key e, (s'.registry c).get? key = some e →
    (key = fresh ∧ e.kind = k ∧ e.slot = s.entities.size) ∨ (s.registry c).get? key = some e

theorem gains_insert (hs : Sound s) (hnumbered : Numbered s) {store : Store}
    (hstore : s.storeOf? c = some store)
    (hedited : (Entity.new (T := model) k (Value.blank k) true).Edited m) :
    Gains s ((s.insertUnder c k store.nextKey).modifyEntity s.entities.size fun _ => m) c k m := by
  have hnew : ((s.insertUnder c k store.nextKey).registry c).get? store.nextKey =
      some ⟨k, ⟨s.entities.size, ⟨k.entityName, store.nextKey⟩, c⟩, true⟩ :=
    get?_insertUnder_new hstore
  constructor
  case run =>
    have hinsert : Run Deed.Native s (s.insertUnder c k store.nextKey) :=
      (Step.insert (T := model) k hstore).run trivial
    exact hinsert.trans ((Step.edit entity?_insertUnder_new hedited).run trivial)
  case schemaOf => exact schemaOf_insertUnder_self
  case takesPending =>
    have hsettings : (s.insertUnder c k store.nextKey).settingsOf c = s.settingsOf c :=
      settingsOf_insertUnder_self
    exact congrArg Settings.includePending hsettings
  case rowsOf => exact rowsOf_insertUnder_self
  case entity => exact entity?_modifyEntity_self entity?_insertUnder_new _
  case others =>
    intro n hn
    exact (entity?_modifyEntity_of_ne _ (Nat.ne_of_lt hn) _).trans (entity?_insertUnder_of_lt hn)
  case kept => exact (retains_insertUnder (l := k) hs hnumbered hstore).entry
  case entry =>
    refine ⟨store.nextKey, ?_⟩
    intro key e he
    have he : ((s.insertUnder c k store.nextKey).registry c).get? key = some e := he
    by_cases hkey : key = store.nextKey
    · subst hkey
      cases hnew.symm.trans he
      exact Or.inl ⟨rfl, rfl, rfl⟩
    · rw [get?_insertUnder_of_ne hstore fun _ => hkey] at he
      exact Or.inr he

theorem Gains.entity?_of_entry (hgains : Gains s s' c k m) (hs : Sound s)
    (he : (s.registry c).get? key = some e) : s'.entity? e.slot = s.entity? e.slot := by
  rcases (hs.lodged he).entity with ⟨old, hold, _⟩
  exact hgains.others _ (lt_size_of_entity? hold)

theorem Gains.carries_iff (hgains : Gains s s' c k m) (hs : Sound s)
    (he : (s.registry c).get? key = some e) :
    Carries s' l e.slot value ↔ Carries s l e.slot value := by
  unfold Carries
  rw [hgains.entity?_of_entry hs he]

theorem Gains.retains (hgains : Gains s s' c k m) : Retains c l s s' where
  entry := hgains.kept
  carries slot value hcarries := by
    refine hcarries.of_entity? ?_
    intro m' hm'
    exact (hgains.others slot (lt_size_of_entity? hm')).trans hm'

theorem Gains.searchable (hgains : Gains s s' c k m) (hs : Sound s) (hs' : Sound s')
    (hk : k.IsBlog) (hl : l.IsKeyed) (hkind : m.kind = k) (h : Searchable c l s) :
    Searchable c l s' where
  pending := hgains.takesPending.trans h.pending
  askable value := by
    rw [Askable, hgains.schemaOf]
    exact h.askable value
  readable key row hrow hnone := by
    rw [hgains.rowsOf] at hrow
    refine h.readable key row hrow ?_
    cases hold : (s.registry c).get? key with
    | none => rfl
    | some e => cases hnone.symm.trans (hgains.kept _ _ hold)
  entries key e he hname hlive visible hvisible := by
    rcases hgains.entry with ⟨fresh, hentry⟩
    rcases hentry key e he with ⟨_, hekind, hslot⟩ | hold
    · have hkl : k = l := by
        refine hk.ext hl.isBlog ?_
        rw [← hname, (hs'.lodged he).name, hekind]
      rw [visibleOf, hslot, hgains.entity] at hvisible
      exact ⟨hekind.trans hkl, visible_eq_ok (hkind ▸ hk) hvisible⟩
    · have hentity := hgains.entity?_of_entry hs hold
      rw [entryDeleted_congr hentity] at hlive
      rw [visibleOf_congr hentity] at hvisible
      exact h.entries key e hold hname hlive visible hvisible

theorem Gains.bears {value : Json} (h : Gains s s' c k m)
    (hcarries : Carries s' l s.entities.size value) : Bears l value m := by
  rcases hcarries with ⟨m', hm', hbears⟩
  cases h.entity.symm.trans hm'
  exact hbears

/-- If the entity that came in is of the type, it has a key that nothing else is seen with. -/
theorem Frugal.gains (h : Frugal base c l s) (hgains : Gains s s' c k m) (hk : k.IsBlog)
    (hl : l.IsKeyed) (hkind : m.kind = k) (hnumbered : Numbered s')
    (hproper : Proper s' (m.state : Value m.kind))
    (hkey : k = l → (∃ value, Bears l value m) ∧
      (∀ value, Bears l value m → ∀ key e, (s.registry c).get? key = some e →
        ¬ Carries s l e.slot value) ∧
      ∀ key row, (s.rowsOf c).row? ⟨l.entityName, key⟩ = some row →
        ((s.registry c).get? key).isSome) : Frugal base c l s' := by
  rcases hgains.entry with ⟨fresh, hentry⟩
  have hsound : Sound s' := hgains.run.sound h.sound
  have hcarries : ∀ {key e value}, (s.registry c).get? key = some e →
      (Carries s' l e.slot value ↔ Carries s l e.slot value) := hgains.carries_iff h.sound
  have hcreated : ∀ {key e}, Created base s' c l key e →
      (key = fresh ∧ k = l ∧ e.slot = s.entities.size) ∨ Created base s c l key e := by
    intro key e hcreated
    rcases hentry key e hcreated.entry with ⟨hkey, hkind, hslot⟩ | hold
    · exact Or.inl ⟨hkey, hkind.symm.trans hcreated.kind, hslot⟩
    · exact Or.inr ⟨hold, hcreated.kind, hcreated.pending, hcreated.later⟩
  constructor
  case sound => exact hsound
  case numbered => exact hnumbered
  case searchable => exact hgains.searchable h.sound hsound hk hl hkind h.searchable
  case typed =>
    intro key e m' he hm'
    rcases hentry key e he with ⟨_, _, hslot⟩ | hold
    · rw [hslot, hgains.entity] at hm'
      cases hm'
      exact hproper
    · rw [hgains.entity?_of_entry h.sound hold] at hm'
      exact (h.typed key e m' hold hm').run hgains.run
  case complete =>
    intro key e hnow key' row hrow
    rw [hgains.rowsOf] at hrow
    have hsome : ((s.registry c).get? key').isSome := by
      rcases hcreated hnow with ⟨_, hkl, _⟩ | hold
      · exact (hkey hkl).2.2 key' row hrow
      · exact h.complete key e hold key' row hrow
    rcases Option.isSome_iff_exists.1 hsome with ⟨e', he'⟩
    exact Option.isSome_iff_exists.2 ⟨e', hgains.kept _ _ he'⟩
  case keyed =>
    intro key e hnow
    rcases hcreated hnow with ⟨_, hkl, hslot⟩ | hold
    · rcases (hkey hkl).1 with ⟨value, hvalue⟩
      refine ⟨value, ?_⟩
      rw [hslot]
      exact ⟨m, hgains.entity, hvalue⟩
    · rcases h.keyed key e hold with ⟨value, hvalue⟩
      exact ⟨value, (hcarries hold.entry).2 hvalue⟩
  case apart =>
    intro key e key' e' value hnow he' hvalue hvalue'
    rcases hcreated hnow with ⟨hat, hkl, hslot⟩ | hold
    · rcases hentry key' e' he' with ⟨hat', _, _⟩ | hold'
      · exact hat'.trans hat.symm
      · rw [hslot] at hvalue
        exact absurd ((hcarries hold').1 hvalue') ((hkey hkl).2.1 value (hgains.bears hvalue) _ _ hold')
    · rcases hentry key' e' he' with ⟨_, _, hslot⟩ | hold'
      · rw [hslot] at hvalue'
        have hkl : k = l := hkind.symm.trans (hgains.bears hvalue').1
        exact absurd ((hcarries hold.entry).1 hvalue)
          ((hkey hkl).2.1 value (hgains.bears hvalue') _ _ hold.entry)
      · exact h.apart key e key' e' value hold hold' ((hcarries hold.entry).1 hvalue)
          ((hcarries hold').1 hvalue')

/-! ### Finding or inserting -/

/-- The entity is seen with the key of the plain value. -/
def Presents (p : Plain k) (m : Entity model) : Prop :=
  ∀ n, Plain.naturalKey p = some n → m.deleted = false → Bears k n.value m

/-- The entity of a plain value was found or inserted.  Once it is seen with the key of the plain
value, all is well again. -/
structure Staged (base : Nat) (c : ContextId) (l : Kind) (p : Plain k) (s : Session model)
    (found : Option (Handle k)) (s₁ : Session model) : Prop where
  retains : Retains c l s s₁
  /-- There is nothing to make up for if nothing was inserted. -/
  idle : (∀ h m, found = some h → s₁.entity? h.slot = some m → m.filling = true) →
    Frugal base c l s₁
  proper : ∀ h m, found = some h → s₁.entity? h.slot = some m → Proper s₁ (m.state : Value m.kind)
  shown : ∀ h m m', found = some h → s₁.entity? h.slot = some m → m.Edited m' →
    Proper s₁ (m'.state : Value m'.kind) → Presents p m' →
      Frugal base c l (s₁.modifyEntity h.slot fun _ => m') ∧
        Retains c l s (s₁.modifyEntity h.slot fun _ => m')

/-- Both are seen with the key of a plain value of the type, or neither is of the type. -/
theorem alters_of_presents {p : Plain k} (hl : l.IsKeyed) (hk : k.IsBlog) (hkind : m.kind = k)
    (hedited : m.Edited m') (hproper : Proper s (m'.state : Value m'.kind))
    (hbefore : k = l → ∀ n, Plain.naturalKey p = some n → Bears k n.value m)
    (hafter : Presents p m') : Alters l s m m' := by
  refine ⟨hedited.kind, hkind ▸ hk, fun hlive => hedited.deleted.symm.trans hlive, ?_, hproper⟩
  intro value
  by_cases hkl : k = l
  · subst hkl
    rcases hl.naturalKey p with ⟨n, hn⟩
    have hbears := hbefore rfl n hn
    exact bears_iff hbears (hafter n hn (hedited.deleted.trans hbears.2.1)) value
  · have hm : m.kind ≠ l := fun h => hkl (hkind.symm.trans h)
    have hm' : m'.kind ≠ l := fun h => hm (hedited.kind.symm.trans h)
    exact iff_of_false (not_bears_of_kind hm') (not_bears_of_kind hm)

theorem Frugal.stage_found (hfrugal : Frugal base c l s₁) (hl : l.IsKeyed) (hk : k.IsBlog)
    {p : Plain k} {h : Handle k} (hretains : Retains c l s s₁)
    (he : (s₁.registry c).get? key = some e) (hslot : e.slot = h.slot) (hkind : e.kind = k)
    (hcarries : k = l → ∀ n, Plain.naturalKey p = some n → Carries s₁ l h.slot n.value) :
    Staged base c l p s (some h) s₁ := by
  refine ⟨hretains, fun _ => hfrugal, ?_, ?_⟩
  · intro h' m hh hm
    cases hh
    exact hfrugal.typed key e m he (hslot.symm ▸ hm)
  · intro h' m m' hh hm hedited hproper hpresents
    cases hh
    have hmkind : m.kind = k := by
      rcases (hfrugal.sound.lodged he).entity with ⟨m₀, hm₀, hkind₀⟩
      rw [hslot] at hm₀
      cases hm.symm.trans hm₀
      exact hkind₀.trans hkind
    have halters : ∀ m₀, s₁.entity? h.slot = some m₀ → Alters l s₁ m₀ m' := by
      intro m₀ hm₀
      cases hm.symm.trans hm₀
      refine alters_of_presents hl hk hmkind hedited hproper ?_ hpresents
      intro hkl n hn
      rcases hcarries hkl n hn with ⟨m₁, hm₁, hbears⟩
      cases hm.symm.trans hm₁
      exact hkl ▸ hbears
    exact ⟨hfrugal.modifyEntity hl (hfrugal.sound.replaceEntity hm hedited) halters,
      hretains.trans (retains_modifyEntity halters)⟩

theorem Frugal.stage_inserted (hfrugal : Frugal base scope.context l s₁) (hl : l.IsKeyed)
    (hk : k.IsBlog) {p : Plain k}
    (hretains : Retains scope.context l s s₁)
    (hmissing : k = l → ∀ n, Plain.naturalKey p = some n →
      (∀ key e, (s₁.registry scope.context).get? key = some e → ¬ Carries s₁ l e.slot n.value) ∧
      ∀ key row, (s₁.rowsOf scope.context).row? ⟨l.entityName, key⟩ = some row →
        ((s₁.registry scope.context).get? key).isSome)
    {found : Option (Handle k)} (hinserted : scope.insertOrReport (T := model) k s₁ = (found, s'))
    (hkeys : s'.KeysLeft) : Staged base scope.context l p s found s' := by
  rcases insert_cases (T := model) scope k s₁ with ⟨fault, hfault, _⟩ | ⟨store, hstore, hinsert⟩
  · simp only [Scope.insertOrReport, Work.bind_apply, hfault] at hinserted
    cases hinserted
    exact ⟨hretains.trans (retains_report _), fun _ => hfrugal.report _,
      (fun h _ hh => by cases hh), fun h _ _ hh => by cases hh⟩
  · simp only [Scope.insertOrReport, Work.bind_apply, hinsert] at hinserted
    cases hinserted
    refine ⟨hretains.trans (retains_insertUnder hfrugal.sound hfrugal.numbered hstore), ?_, ?_,
      ?_⟩
    · intro hfilling
      cases hfilling _ _ rfl entity?_insertUnder_new
    · intro h m hh hm
      cases hh
      cases hm.symm.trans entity?_insertUnder_new
      exact proper_blank k
    · intro h m m' hh hm hedited hproper hpresents
      cases hh
      cases hm.symm.trans entity?_insertUnder_new
      have hgains := gains_insert hfrugal.sound hfrugal.numbered hstore hedited
      have hnumbered := hgains.run.numbered hfrugal.sound hfrugal.numbered hkeys
      have hentity : (s₁.insertUnder scope.context k store.nextKey).entity? s₁.entities.size =
          some (.new k (Value.blank k) true) := entity?_insertUnder_new
      have hedit : Run Deed.Native (s₁.insertUnder scope.context k store.nextKey)
          ((s₁.insertUnder scope.context k store.nextKey).modifyEntity s₁.entities.size
            fun _ => m') := (Step.edit hentity hedited).run trivial
      refine ⟨hfrugal.gains hgains hk hl hedited.kind hnumbered (hproper.run hedit) ?_, ?_⟩
      · intro hkl
        subst hkl
        rcases hl.naturalKey p with ⟨n, hn⟩
        have hbears := hpresents n hn hedited.deleted
        rcases hmissing rfl n hn with ⟨hnone, hrows⟩
        refine ⟨⟨_, hbears⟩, ?_, hrows⟩
        -- whatever is seen with a key of the new entity would be seen with that of the plain value
        rintro value hbears' key e he ⟨m₀, hm₀, hbears₀⟩
        exact hnone key e he ⟨m₀, hm₀, (bears_iff hbears' hbears₀ _).2 hbears⟩
      · exact hretains.trans (hgains.retains)

theorem Frugal.stage (hfrugal : Frugal base scope.context l s) (hl : l.IsKeyed) (hk : k.IsBlog)
    {p : Plain k} {found : Option (Handle k)}
    (hfound : mapping.findOrInsertUnique (T := model) (k := k) scope p s = (found, s'))
    (hkeys : s'.KeysLeft) : Staged base scope.context l p s found s' := by
  have hs := hfrugal.sound
  rcases hfind : mapping.findUnique (T := model) (k := k) scope p s with ⟨hit, s₁⟩
  have hloads := Mapping.loads_findUnique (M := mapping) hs scope p
  have hrun := reaches_findByKey scope k (Plain.naturalKey p) s hs
  have hend : (scope.findByKey (T := model) k (Plain.naturalKey p) s).2 = s₁ :=
    congrArg Prod.snd hfind
  rw [hfind] at hloads
  rw [hend] at hrun
  have hfrugal₁ : Frugal base scope.context l s₁ := hfrugal.loads hl hk hloads hrun
  have hretains : Retains scope.context l s s₁ := retains_of_loads hloads
  cases hit with
  | some h =>
    rw [Mapping.findOrInsertUnique_of_found hfind] at hfound
    cases hfound
    rcases Mapping.entry_of_findUnique hs hfind with ⟨key, e, he, hslot, hkind⟩
    refine hfrugal₁.stage_found hl hk hretains he hslot hkind ?_
    intro hkl n hn
    subst hkl
    exact (hfrugal.searchable.find hl hs hn hfind).1 h rfl
  | none =>
    rw [Mapping.findOrInsertUnique_of_none hfind] at hfound
    refine hfrugal₁.stage_inserted hl hk hretains ?_ hfound hkeys
    intro hkl n hn
    subst hkl
    exact (hfrugal.searchable.find hl hs hn hfind).2 rfl

end Reconcile.Sample
