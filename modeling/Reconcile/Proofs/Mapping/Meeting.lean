import Reconcile.Mapping.Relationships
import Reconcile.Proofs.Mapping.Synchronizing
import Reconcile.Proofs.Session.Clashes
import Reconcile.Proofs.Session.Rebinding
import Reconcile.Proofs.Session.Removing
import Reconcile.Proofs.Session.Visibility

/-!
# Members that are met

Looking up a member of a relationship meets the value that the context sees under its id, if the
member is bound in the context already, or if its field was read there and the member has only its
id (`Meets`).  Afterwards the member is bound to an entity of the context that has the value.

The lookup may read rows.  As long as no key clashes (`ClashFree`), that changes nothing about what
the context sees of any type, so relationships can be looked up one after the other.
-/

namespace Reconcile

open Session

variable {T : Model} {k l : T.Kind} {s s₁ s' : Session T} {c : ContextId}
  {source : Option ContextId} {m : Member k} {ms : List (Member k)} {v : T.Value k}
  {vs : List (T.Value k)}

/-! ## Contexts without clashes -/

/-- In the context no two rows share a key, and no row shares one with an entity of another id. -/
structure Session.ClashFree (s : Session T) (c : ContextId) : Prop where
  apart : KeysApart (s.rowsOf c)
  registered : ∀ id e, ((s.rowsOf c).row? id).isSome → (s.registry c).get? id.key = some e →
    e.id = id

namespace Session

theorem ClashFree.loads (hfree : s.ClashFree c) (hs : Sound s)
    (hloads : Loads s s' c k (s.rowsNamed c k)) : s'.ClashFree c where
  apart := by
    rw [hloads.rowsOf]
    exact hfree.apart
  registered id e hrow he := by
    rw [hloads.rowsOf] at hrow
    rcases hloads.entry c _ e he with hold | ⟨_, _, _, row, hmem, hread⟩
    · exact hfree.registered id e hrow hold
    · have hget := mem_rowsNamed_iff.1 hmem
      have hid : e.id = ⟨T.entityName k, id.key⟩ :=
        hread.id_eq.trans (hs.filed_rowsOf c _ row hget)
      rw [hid]
      exact hfree.apart _ _ (by rw [hget]; rfl) hrow rfl

/-- Reading rows of one type changes nothing about what is seen of it, or of a type of another
name. -/
theorem ClashFree.seen?_loads (hfree : s.ClashFree c) (hs : Sound s)
    (hloads : Loads s s' c l (s.rowsNamed c l)) (hname : T.entityName k = T.entityName l → k = l)
    (key : UInt64) : s'.seen? c k key = s.seen? c k key := by
  by_cases hkind : k = l
  · subst hkind
    exact hloads.seen?_eq hs
  cases he : (s.registry c).get? key with
  | some e =>
    exact seen?_congr he (hloads.registry _ _ _ he) (hloads.toGrows.entity?_of_entry hs he)
  | none =>
    rw [seen?_of_row he]
    cases he' : (s'.registry c).get? key with
    | none => rw [seen?_of_row he', hloads.rowsOf]
    | some e =>
      rcases hloads.entry c key e he' with hold | ⟨_, _, _, row, hmem, hread⟩
      · cases he.symm.trans hold
      · -- the key belongs to the row that was read, so there is none of the other name
        have hget := mem_rowsNamed_iff.1 hmem
        have hnone : (s.rowsOf c).row? ⟨T.entityName k, key⟩ = none := by
          cases hrow : (s.rowsOf c).row? ⟨T.entityName k, key⟩ with
          | none => rfl
          | some row' =>
            have hid := hfree.apart ⟨T.entityName k, key⟩ ⟨T.entityName l, key⟩
              (by rw [hrow]; rfl) (by rw [hget]; rfl) rfl
            exact absurd (hname (congrArg EntityId.entity hid)) hkind
        have hother : e.kind ≠ k := fun h => hkind (h.symm.trans hread.kind_eq)
        rw [hnone]
        simp [seen?, he', hother]

theorem isOpen_of_context? {ctx : Context T} (hctx : s.context? c = some ctx) :
    s.isOpen c = true := by
  have hget : s.contexts.get? c = some ctx := hctx
  rw [isOpen, SortedMap.contains, hget]
  rfl

theorem isOpen_of_seen? {key : UInt64} (hv : s.seen? c k key = some v) : s.isOpen c = true := by
  rcases seen?_eq_some hv with ⟨e, _, he, _⟩ | ⟨_, row, hrow, _⟩
  · rcases isOpen_of_registry he with ⟨ctx, hctx, _⟩
    exact isOpen_of_context? hctx
  · rcases storeOf?_of_row? hrow with ⟨store, hstore, _⟩
    rcases isOpen_of_storeOf? hstore with ⟨ctx, hctx, _⟩
    exact isOpen_of_context? hctx

end Session

/-! ## Meeting values -/

/-- Looked up from a field that was read in `source`, the member is an entity of the context with
this value. -/
structure Member.Meets (s : Session T) (c : ContextId) (source : Option ContextId) (m : Member k)
    (v : T.Value k) : Prop where
  name : m.id.entity = T.entityName k
  own : m.Own s c
  source : m.bound = none → source = some c
  seen : s.seen? c k m.id.key = some v

theorem Member.Meets.loads (hm : m.Meets s c source v) (hfree : s.ClashFree c) (hs : Sound s)
    (hloads : Loads s s' c l (s.rowsNamed c l)) (hname : T.entityName k = T.entityName l → k = l) :
    m.Meets s' c source v :=
  ⟨hm.name, hm.own.later (hloads.registry c), hm.source,
    (hfree.seen?_loads hs hloads hname m.id.key).trans hm.seen⟩

/-- The handle is that of an entity of the context. -/
def Session.Lists (s : Session T) (c : ContextId) (h : Handle k) : Prop :=
  ∃ pending, (s.registry c).get? h.id.key = some ⟨k, h, pending⟩

theorem Session.Lists.grows {h : Handle k} (hlisted : s.Lists c h) (hgrows : Grows s s') :
    s'.Lists c h := by
  rcases hlisted with ⟨pending, he⟩
  exact ⟨pending, hgrows.registry c _ _ he⟩

/-- The handle is that of an entity of the context, which sees this value of it. -/
structure Session.Shows (s : Session T) (c : ContextId) (h : Handle k) (v : T.Value k) : Prop where
  listed : s.Lists c h
  seen : s.seen? c k h.id.key = some v

theorem Session.Shows.name {h : Handle k} (hshows : s.Shows c h v) (hs : Sound s) :
    h.id.entity = T.entityName k := by
  rcases hshows.listed with ⟨_, he⟩
  exact (hs.lodged he).name

/-- An entry of the entity's slot is the entity's own. -/
theorem Session.Shows.entry_of_slot {h : Handle k} (hshows : s.Shows c h v) (hs : Sound s)
    {key : UInt64} {e : Entry T} (he : (s.registry c).get? key = some e) (hslot : e.slot = h.slot) :
    ∃ pending, e = ⟨k, h, pending⟩ := by
  rcases hshows.listed with ⟨pending, hentry⟩
  rcases hs.slots he hentry hslot with ⟨_, rfl⟩
  exact ⟨pending, Option.some.inj (he.symm.trans hentry)⟩

theorem Session.Shows.meets {h : Handle k} (hshows : s.Shows c h v) (hs : Sound s)
    (source : Option ContextId) : (Member.ofHandle h).Meets s c source v := by
  refine ⟨hshows.name hs, ?_, nofun, hshows.seen⟩
  intro h' hbound
  rcases hshows.listed with ⟨pending, he⟩
  cases hbound
  exact ⟨rfl, pending, he⟩

/-- The member is bound to an entity of the context that has its id. -/
def Member.Bound (s : Session T) (c : ContextId) (m : Member k) : Prop :=
  ∃ h, m = .ofHandle h ∧ s.Lists c h

theorem Member.Bound.isSome {m : Member k} (hbound : m.Bound s c) : m.bound.isSome := by
  rcases hbound with ⟨h, rfl, _⟩
  rfl

theorem Member.Bound.grows {m : Member k} (hbound : m.Bound s c) (hgrows : Grows s s') :
    m.Bound s' c := by
  rcases hbound with ⟨h, hm, hlisted⟩
  exact ⟨h, hm, hlisted.grows hgrows⟩

/-- Members were looked up and came out as these handles.  Where all were bound already, that
changes nothing. -/
structure Meeting (s : Session T) (c : ContextId) (ms : List (Member k)) (vs : List (T.Value k))
    (hs : List (Handle k)) (s' : Session T) : Prop where
  sound : Sound s'
  loads : Loads s s' c k (s.rowsNamed c k)
  ids : hs.map Handle.id = ms.map Member.id
  listed : ∀ h ∈ hs, s'.Lists c h
  values : hs.map (fun h => s'.value h) = vs
  kept : (∀ m ∈ ms, m.bound.isSome) → s' = s ∧ hs.map Member.ofHandle = ms

theorem Meeting.bound {hs : List (Handle k)} (hmeeting : Meeting s c ms vs hs s') :
    ∀ m ∈ hs.map Member.ofHandle, m.Bound s' c := by
  intro m hm
  rcases List.mem_map.1 hm with ⟨h, hh, rfl⟩
  exact ⟨h, rfl, hmeeting.listed h hh⟩

theorem Session.Loads.value (hloads : Loads s s' c k (s.rowsNamed c k)) (hs : Sound s)
    {h : Handle k} (hlisted : s.Lists c h) : s'.value h = s.value h := by
  rcases hlisted with ⟨_, he⟩
  have hentity : s'.entity? h.slot = s.entity? h.slot := hloads.toGrows.entity?_of_entry hs he
  rw [Session.value, hentity, Session.value]

/-- A member that meets a value is bound to an entity with it. -/
theorem Member.Meets.bind (hm : m.Meets s c source v) (hs : Sound s) : ∃ h s',
    m.bind source s = ((some h, .ofHandle h), s') ∧ Meeting s c [m] [v] [h] s' := by
  rcases m with ⟨id, bound⟩
  -- a bound member refers to the entity itself, and any other one is looked up where it was read
  cases bound with
  | some h =>
    rcases hm.own h rfl with ⟨hid, pending, he⟩
    have hid : h.id = id := hid
    subst hid
    refine ⟨h, s, rfl, hs, Loads.refl s c k _, rfl, ?_, ?_, fun _ => ⟨rfl, rfl⟩⟩
    · intro h' hh'
      cases List.mem_singleton.1 hh'
      exact ⟨pending, he⟩
    · exact congrArg (fun w => [w]) (Mapping.value_of_seen? he hm.seen)
  | none =>
    have hsource : source = some c := hm.source rfl
    subst hsource
    have hfilter : (some c).filter s.isOpen = some c :=
      Option.filter_eq_some_iff.2 ⟨rfl, isOpen_of_seen? hm.seen⟩
    have hthere : s.seen? (Scope.within c).context k id.key = some v := hm.seen
    rcases locate_of_seen? hm.name hthere with ⟨h, s', hlocate⟩
    have hlocates := locates hs (.within c) k id
    rw [hlocate] at hlocates
    have hs' : Sound s' := hlocates.run.sound hs
    rcases delivers_locate hs hlocate with ⟨hdelivers, hid⟩
    rcases hdelivers.enrolled with ⟨pending, he⟩
    rw [hdelivers.context] at he
    have hid : h.id = id := hid
    subst hid
    have hseen : s'.seen? c k h.id.key = some v := (hlocates.loads.seen?_eq hs).trans hm.seen
    refine ⟨h, s', ?_, hs', hlocates.loads, rfl, ?_, ?_, ?_⟩
    · unfold Member.bind Member.bindIn
      simp only [Work.bind_apply, Work.get_apply, hfilter, hlocate]
      rfl
    · intro h' hh'
      cases List.mem_singleton.1 hh'
      exact ⟨pending, he⟩
    · exact congrArg (fun w => [w]) (Mapping.value_of_seen? he hseen)
    · intro hbound
      cases hbound _ (List.mem_singleton_self _)

theorem meeting_bindAll (hmeets : List.Forall₂ (fun m v => m.Meets s c source v) ms vs)
    (hs : Sound s) : ∃ found s', Member.bindAll source ms s =
      ((found, found.map Member.ofHandle), s') ∧ Meeting s c ms vs found s' := by
  induction ms generalizing s vs with
  | nil =>
    cases hmeets
    exact ⟨[], s, rfl, hs, Loads.refl s c k _, rfl, fun _ hh => absurd hh List.not_mem_nil, rfl,
      fun _ => ⟨rfl, rfl⟩⟩
  | cons m rest ih =>
    rcases List.forall₂_cons_left_iff.1 hmeets with ⟨v, vs, hm, hrest, rfl⟩
    rcases hm.bind hs with ⟨h, s₁, hbind, hfirst⟩
    have hrows : s₁.rowsNamed c k = s.rowsNamed c k := rowsNamed_of_grows hfirst.loads.toGrows
    have hrest₁ : List.Forall₂ (fun m v => m.Meets s₁ c source v) rest vs := by
      refine hrest.imp fun m' v' hm' => ⟨hm'.name, hm'.own.later (hfirst.loads.registry c),
        hm'.source, (hfirst.loads.seen?_eq hs).trans hm'.seen⟩
    rcases ih hrest₁ hfirst.sound with ⟨found, s', hall, hothers⟩
    have hlisted : s₁.Lists c h := hfirst.listed h (List.mem_singleton_self h)
    refine ⟨h :: found, s', ?_, hothers.sound, hfirst.loads.trans (hrows ▸ hothers.loads), ?_, ?_,
      ?_, ?_⟩
    · rw [Member.bindAll, Work.bind_apply, hbind]
      dsimp only
      rw [Work.bind_apply, hall]
      rfl
    · have hids := List.cons.inj hfirst.ids
      exact congrArg₂ List.cons hids.1 hothers.ids
    · intro h' hh'
      rcases List.mem_cons.1 hh' with rfl | htail
      · exact hlisted.grows hothers.loads.toGrows
      · exact hothers.listed h' htail
    · have hvalue : s₁.value h = v := (List.cons.inj hfirst.values).1
      exact congrArg₂ List.cons ((hothers.loads.value hfirst.sound hlisted).trans hvalue)
        hothers.values
    · intro hbound
      rcases hfirst.kept fun m' hm' =>
        hbound m' (List.mem_cons.2 (Or.inl (List.mem_singleton.1 hm'))) with ⟨rfl, hkept⟩
      rcases hothers.kept fun m' hm' => hbound m' (List.mem_cons_of_mem _ hm') with ⟨rfl, hkept'⟩
      exact ⟨rfl, congrArg₂ List.cons (List.cons.inj hkept).1 hkept'⟩

/-! ## Fields -/

theorem ToOne.target_of_meets {r : ToOne k} (hmeets : r.member.Meets s c r.source v)
    (hs : Sound s) : ∃ h s', r.target s = ((some h, { r with member := .ofHandle h }), s') ∧
      Meeting s c [r.member] [v] [h] s' := by
  rcases hmeets.bind hs with ⟨h, s', hbind, hmeeting⟩
  refine ⟨h, s', ?_, hmeeting⟩
  rw [ToOne.target, Work.bind_apply, hbind]
  rfl

theorem ToMany.handles_of_meets {R : T.Kind → Type} [ToMany R] {r : R k}
    (hmeets : List.Forall₂ (fun m v => m.Meets s c (ToMany.source r) v) (ToMany.members r) vs)
    (hs : Sound s) : ∃ found s', ToMany.handles r s =
        ((found, ToMany.withMembers r (found.map Member.ofHandle)), s') ∧
      Meeting s c (ToMany.members r) vs found s' := by
  rcases meeting_bindAll hmeets hs with ⟨found, s', hbind, hmeeting⟩
  refine ⟨found, s', ?_, hmeeting⟩
  rw [ToMany.handles, Work.bind_apply, hbind]
  rfl

namespace MemberSet

variable (r : MemberSet k)

theorem withMembers_members : ToMany.withMembers r r.members = r := by
  have hmembers := r.members_withMembers r.map_id_members
  rcases r with ⟨bindings, source⟩
  have hbindings : SortedMap.ofList ((members ⟨bindings, source⟩).map fun m =>
      (m.id, (m.bound : Option (Handle k)))) = bindings := by
    have hpairs : (members ⟨bindings, source⟩).map (fun m => (m.id, m.bound)) =
        bindings.toList := by
      rw [members, List.map_map]
      exact List.map_id _
    rw [hpairs]
    exact SortedMap.ext (Entries.ofList_of_sorted bindings.sorted)
  exact congrArg (fun b => MemberSet.mk b source) hbindings

end MemberSet

theorem Meeting.members_withMembers {r : MemberSet k} {hs : List (Handle k)}
    (hmeeting : Meeting s c r.members vs hs s') :
    (ToMany.withMembers r (hs.map Member.ofHandle)).members = hs.map Member.ofHandle := by
  refine r.members_withMembers ?_
  rw [List.map_map, ← r.map_id_members, ← hmeeting.ids]
  rfl

/-! ## Finding what was stored -/

namespace Mapping

variable {M : Mapping T} {p : M.Plain k} {n : NaturalKey} {key : UInt64} {row : Row}

/-- A context that has read nothing yet finds the only row of a type by its natural key. -/
theorem findUnique_of_only_row (scope : Scope) (hT : T.Faithful) (hs : Sound s)
    (hfresh : ∀ key, (s.registry scope.context).get? key = none)
    (hkey : M.naturalKey p = some n) {d : Description}
    (hd : (s.schemaOf scope.context).require (T.entityName k) = .ok d)
    (hattribute : (d.attribute? n.key).isSome) (hlegible : s.Legible scope.context k)
    (hrow : (s.rowsOf scope.context).row? ⟨T.entityName k, key⟩ = some row)
    (honly : ∀ key' row', (s.rowsOf scope.context).row? ⟨T.entityName k, key'⟩ = some row' →
      key' = key)
    (hwritten : T.Written (T.entityName k) row.payload)
    (hcarries : (row.payload.valueAt n.key).same n.value = true) : ∃ h s',
    M.findUnique scope p s = (some h, s') ∧ h.id = ⟨T.entityName k, key⟩ ∧ Sound s' ∧
      s'.Lists scope.context h ∧ Loads s s' scope.context k (s.rowsNamed scope.context k) := by
  have haskable : s.Askable scope.context k (.matching (T.entityName k) n.filter) :=
    askable_matching hd hattribute n.value
  have hread : HasRead s s scope.context [] :=
    ⟨Grows.refl s, fun key e he => by cases (hfresh key).symm.trans he⟩
  rcases fetch_ok hs scope haskable
    (fun key row hrow _ => hlegible.isSome_decode hrow)
    (fun s₁ hloads e he => (hread.loads hloads).fetchable hs hlegible
      (fun _ hl => absurd hl List.not_mem_nil) _ _ he) with ⟨found, s', hfetch⟩
  have hspec := fetch_spec hs scope k (.matching (T.entityName k) n.filter)
  rw [hfetch] at hspec
  have hs' : Sound s' := hspec.1.sound hs
  have hfetches := hspec.2 found s' rfl
  -- the row is among the results
  rcases hfetches.entry_of_row (hfresh key) rfl hrow with ⟨e, he, hfrom⟩
  have hid : e.id = ⟨T.entityName k, key⟩ :=
    hfrom.id_eq.trans (hs.filed_rowsOf scope.context _ row hrow)
  have hmem : (⟨T.entityName k, key⟩ : EntityId) ∈ found.map Handle.id :=
    (hfetches.mem_ids_iff_of_stands hT hs' he hid rfl hfrom.stands.1 hwritten).2 hcarries
  have hne : found ≠ [] := by
    rintro rfl
    cases hmem
  rcases (hfetches.mem_iff hs').1 (List.getLast_mem hne) with ⟨⟨kind, h, pending⟩, _, he', hmatch⟩
  rcases matchOf?_eq_some hmatch with ⟨hhandle, hkind, heligible, _⟩
  cases hkind
  have hhandle : found.getLast hne = h := hhandle
  rw [hhandle] at he'
  have hlast : found.getLast? = some h :=
    (List.getLast?_eq_some_getLast hne).trans (congrArg some hhandle)
  refine ⟨h, s', ?_, ?_, hs', ⟨pending, he'⟩, hfetches.loads⟩
  · rw [findUnique_of_fetch hkey hfetch, hlast]
  · -- nothing but rows of the type is called so, and there is only this one
    rcases (hread.loads hfetches.loads).entry_named hs (fun _ hl => absurd hl List.not_mem_nil) he'
      (eligible_iff.1 heligible).1 with ⟨row', hrow', hfrom'⟩
    have hget := mem_rowsNamed_iff.1 hrow'
    refine hfrom'.id_eq.trans ((hs.filed_rowsOf scope.context _ row' hget).trans ?_)
    rw [honly _ row' hget]

/-- Reading a plain value off an entity puts the value back with its relationships bound. -/
theorem plainOf_of_toPlain {h : Handle k} (hplain : M.toPlain (s.value h) s = ((p, v), s')) :
    M.plainOf h s = (p, s'.rebind h v) := by
  simp only [plainOf, Work.bind_apply, Work.get_apply, hplain]
  rfl

end Mapping

/-! ## Putting values back -/

namespace Session

theorem value_rebind {h : Handle k} (hholds : s.Holds h) (v : T.Value k) :
    (s.rebind h v).value h = v := by
  rcases hholds with ⟨m, hm, rfl⟩
  rw [rebind, value_of_entity? (entity?_modifyEntity_self hm _)]
  exact Entity.value_self (m.withState v)

theorem rebind_value {h : Handle k} (hholds : s.Holds h) : s.rebind h (s.value h) = s := by
  rcases hholds with ⟨m, hm, rfl⟩
  refine modifyEntity_of_fixed ?_
  intro m' hm'
  cases hm.symm.trans hm'
  rw [value_of_entity? hm, Entity.value_self]
  rfl

theorem Lists.holds {h : Handle k} (hlisted : s.Lists c h) (hs : Sound s) : s.Holds h := by
  rcases hlisted with ⟨_, he⟩
  exact (hs.lodged he).entity

end Session

end Reconcile
