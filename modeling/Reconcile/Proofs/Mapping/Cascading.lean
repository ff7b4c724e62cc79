import Reconcile.Mapping.Relationships
import Reconcile.Proofs.Session.Answering
import Reconcile.Proofs.Session.Deleting
import Reconcile.Proofs.Session.Rebinding
import Reconcile.Proofs.Session.Rehosting

/-!
# Deleting all members of a relationship

First the members are looked up, one for each id, and then what was found is deleted.  The first part
can read rows and bind members, but it changes nothing about what can be looked up (`Binds`).  So the
entities that are taken away are those of the members that could be looked up before, each once
(`Deletes`), whichever member of an id comes first and whatever it is bound to.
-/

namespace Reconcile

open Session

variable {T : Model} {k : T.Kind} {s s₁ s' : Session T} {scope : Scope} {c : ContextId}
  {m m' : Member k} {ms ms' : List (Member k)} {h : Handle k} {hs found : List (Handle k)}
  {id : EntityId} {seen : List EntityId}

namespace Session

/-! ## Ids that can be looked up -/

/-- Looking up the id finds an entity of the type. -/
def Resolves (s : Session T) (scope : Scope) (k : T.Kind) (id : EntityId) : Prop :=
  ∃ h, ((scope.locate k id).outcome s).1 = .ok h

theorem resolves_iff (hsound : Sound s) : s.Resolves scope k id ↔
    id.entity = T.entityName k ∧ (s.seen? scope.context k id.key).isSome = true := by
  constructor
  · rintro ⟨h, hok⟩
    have hlocate : (scope.locate k id).outcome s = (.ok h, ((scope.locate k id).outcome s).2) :=
      Prod.ext hok rfl
    rcases delivers_locate hsound hlocate with ⟨hdelivers, hid⟩
    have hname : id.entity = T.entityName k := hid ▸ hdelivers.name
    exact ⟨hname, (isSome_seen?_iff hsound scope hname).2 ⟨h, hok⟩⟩
  · rintro ⟨hname, hseen⟩
    exact (isSome_seen?_iff hsound scope hname).1 hseen

/-- What stands live in the registry is seen. -/
theorem isSome_seen?_of_entry (hsound : Sound s) {pending : Bool}
    (he : (s.registry c).get? h.id.key = some ⟨k, h, pending⟩) :
    (s.seen? c k h.id.key).isSome = !s.isDeleted h := by
  rcases (hsound.lodged he).entity with ⟨m, hm, _⟩
  have hslot : s.entity? h.slot = some m := hm
  have hdeleted : s.entryDeleted ⟨k, h, pending⟩ = s.isDeleted h := rfl
  unfold seen?
  rw [he]
  dsimp only
  rw [hdeleted, Entry.slot, hslot]
  cases s.isDeleted h <;> simp

/-! ## Looking up the members -/

/-- How looking up members leaves them, where ids in `seen` are passed over: there is one handle for
an id, the members keep their ids and are bound to what the context has registered, and the only new
entities are those that were found. -/
structure Binds (s : Session T) (c : ContextId) (seen : List EntityId) (ms : List (Member k))
    (found : List (Handle k)) (ms' : List (Member k)) (s' : Session T) : Prop where
  once : (found.map Handle.id).Nodup
  unseen : ∀ h ∈ found, h.id ∉ seen
  ids : ms'.map Member.id = ms.map Member.id
  own : ∀ m ∈ ms', m.Own s' c
  registry : ∀ key e, (s.registry c).get? key = some e → (s'.registry c).get? key = some e
  fresh : ∀ n, s.entities.size ≤ n → n < s'.entities.size → n ∈ found.map Handle.slot
  keysLeft : s.KeysLeft → s'.KeysLeft

/-- A lookup puts no entity into memory but the one that it finds. -/
theorem slot_of_locate (hsound : Sound s) (hlocate : (scope.locate k id).outcome s = (.ok h, s'))
    {n : Nat} (hle : s.entities.size ≤ n) (hlt : n < s'.entities.size) : n = h.slot := by
  rcases locate_cases hsound scope k id with ⟨_, hout⟩ | ⟨_, _, _, _, _, _, hout⟩ |
    ⟨_, _, _, _, _, _, _, hout⟩
  · cases hout.symm.trans hlocate
  · cases hout.symm.trans hlocate
    exact absurd hlt (Nat.not_lt.2 hle)
  · cases hout.symm.trans hlocate
    rw [size_enroll] at hlt
    exact Nat.le_antisymm (Nat.le_of_lt_succ hlt) hle

theorem own_bindIn (hsound : Sound s) (hown : m.Own s scope.context) {o : Option (Handle k)}
    (hbind : m.bindIn scope s = ((o, m'), s')) : m'.Own s' scope.context ∧
      ∀ n, s.entities.size ≤ n → n < s'.entities.size → n ∈ o.toList.map Handle.slot := by
  unfold Member.bindIn at hbind
  cases hbound : m.bound with
  | some h =>
    -- what is bound stays bound, and nothing is looked up
    rw [hbound] at hbind
    cases hbind
    exact ⟨hown, fun n hle hlt => absurd hlt (Nat.not_lt.2 hle)⟩
  | none =>
    rw [hbound] at hbind
    rcases hlocate : (scope.locate k m.id).outcome s with ⟨fault | h, s₁⟩
    · -- a failed lookup is only reported
      have hsame := locate_error hsound (congrArg Prod.fst hlocate)
      rw [hlocate] at hsame
      simp only [Work.bind_apply, hlocate] at hbind
      cases hbind
      subst hsame
      refine ⟨?_, fun n hle hlt => absurd hlt (Nat.not_lt.2 hle)⟩
      intro h hh
      cases hbound.symm.trans hh
    · rcases delivers_locate hsound hlocate with ⟨hdelivers, hid⟩
      rcases hdelivers.enrolled with ⟨pending, he⟩
      rw [hdelivers.context] at he
      simp only [Work.bind_apply, hlocate] at hbind
      cases hbind
      constructor
      · intro h' hh'
        cases hh'
        exact ⟨hid, pending, hid ▸ he⟩
      · intro n hle hlt
        exact List.mem_singleton.2 (slot_of_locate hsound hlocate hle hlt)

/-- Binding a member takes no key. -/
theorem keysLeft_bindIn (hsound : Sound s) (scope : Scope) (m : Member k) (hkeys : s.KeysLeft) :
    (m.bindIn scope s).2.KeysLeft := by
  unfold Member.bindIn
  cases m.bound with
  | some h => exact hkeys
  | none =>
    dsimp only
    rw [Work.bind_apply]
    rcases locate_cases hsound scope k m.id with ⟨fault, hout⟩ | ⟨_, _, _, _, _, _, hout⟩ |
      ⟨_, _, _, _, _, _, _, hout⟩
    · rw [hout]
      exact hkeys.report trivial
    · rw [hout]
      exact hkeys
    · rw [hout]
      intro event hevent
      exact hkeys event (by simpa [journal_enroll] using hevent)

/-- Binding one member. -/
theorem binds_bindIn (hsound : Sound s) (hown : m.Own s scope.context) (hseen : m.id ∉ seen) :
    ∃ o m' s₁, m.bindIn scope s = ((o, m'), s₁) ∧ Sound s₁ ∧ (∀ h ∈ o.toList, h.id = m.id) ∧
      Binds s scope.context seen [m] o.toList [m'] s₁ := by
  rcases finds_bindIn hsound hown with ⟨o, m', s₁, hbind, hsound₁, hfinds⟩
  rcases own_bindIn hsound hown hbind with ⟨hown', hfresh⟩
  have hid : m'.id = m.id := by
    have hkept := Member.id_bindIn scope m s
    rwa [hbind] at hkept
  have hids : ∀ h ∈ o.toList, h.id = m.id := by
    intro h hh
    rcases hfinds.member h hh with ⟨m₁, hm₁, hsame⟩
    rw [hsame, List.mem_singleton.1 hm₁]
  refine ⟨o, m', s₁, hbind, hsound₁, hids, ?_⟩
  constructor
  case once => cases o <;> simp
  case unseen => exact fun h hh => hids h hh ▸ hseen
  case ids => simp [hid]
  case own => simpa using hown'
  case registry => exact hfinds.loads.registry _
  case fresh => exact hfresh
  case keysLeft =>
    intro hkeys
    have hkeys₁ := keysLeft_bindIn hsound scope m hkeys
    rwa [hbind] at hkeys₁

/-- One member is bound and then the others, which leave out those of its id. -/
theorem Binds.cons {rest rest' : List (Member k)} {others : List (Handle k)}
    (hfirst : Binds s c seen [m] found [m'] s₁) (hids : ∀ h ∈ found, h.id = m.id)
    (hrest : Binds s₁ c (m.id :: seen) rest others rest' s') :
    Binds s c seen (m :: rest) (found ++ others) (m' :: rest') s' where
  once := by
    rw [List.map_append, List.nodup_append]
    refine ⟨hfirst.once, hrest.once, ?_⟩
    intro x hx y hy hsame
    rcases List.mem_map.1 hx with ⟨h, hh, rfl⟩
    rcases List.mem_map.1 hy with ⟨h', hh', rfl⟩
    rw [hids h hh] at hsame
    exact hrest.unseen h' hh' (hsame ▸ List.mem_cons_self)
  unseen h hh := by
    rcases List.mem_append.1 hh with hfound | hothers
    · exact hfirst.unseen h hfound
    · exact fun hmem => hrest.unseen h hothers (List.mem_cons_of_mem _ hmem)
  ids := congrArg₂ List.cons (List.cons.inj hfirst.ids).1 hrest.ids
  own := by
    have hown' : m'.Own s₁ c := hfirst.own m' (List.mem_singleton_self m')
    exact List.forall_mem_cons.2 ⟨hown'.later hrest.registry, hrest.own⟩
  registry key e he := hrest.registry key e (hfirst.registry key e he)
  fresh n hle hlt := by
    rw [List.map_append, List.mem_append]
    rcases Nat.lt_or_ge n s₁.entities.size with hbefore | hafter
    · exact Or.inl (hfirst.fresh n hle hbefore)
    · exact Or.inr (hrest.fresh n hafter hlt)
  keysLeft hkeys := hrest.keysLeft (hfirst.keysLeft hkeys)

/-- Each further member is looked up where the ones before it have left the session. -/
theorem binds_bindDistinctIn (hsound : Sound s) (seen : List EntityId)
    (hown : ∀ m ∈ ms, m.Own s scope.context) : ∃ found ms' s',
      Member.bindDistinctIn scope seen ms s = ((found, ms'), s') ∧
        Binds s scope.context seen ms found ms' s' := by
  induction ms generalizing s seen with
  | nil =>
    exact ⟨[], [], s, rfl, List.nodup_nil, nofun, rfl, nofun, fun _ _ he => he,
      fun n hle hlt => absurd hlt (Nat.not_lt.2 hle), id⟩
  | cons m rest ih =>
    rcases List.forall_mem_cons.1 hown with ⟨hownFirst, hownRest⟩
    by_cases hseen : m.id ∈ seen
    · -- the member stays as it is
      rcases ih hsound seen hownRest with ⟨found, ms', s', hbound, hbinds⟩
      refine ⟨found, m :: ms', s', bindDistinctIn_of_seen hseen hbound,
        { hbinds with ids := ?_, own := ?_ }⟩
      · rw [List.map_cons, List.map_cons, hbinds.ids]
      · exact List.forall_mem_cons.2 ⟨hownFirst.later hbinds.registry, hbinds.own⟩
    · rcases binds_bindIn hsound hownFirst hseen with ⟨o, m', s₁, hbind, hsound₁, hids, hfirst⟩
      rcases ih hsound₁ (m.id :: seen) fun m₁ hm₁ => (hownRest m₁ hm₁).later hfirst.registry with
        ⟨others, ms', s', hbound, hbinds⟩
      exact ⟨o.toList ++ others, m' :: ms', s', bindDistinctIn_of_unseen hseen hbind hbound,
        hfirst.cons hids hbinds⟩

/-! ## Deleting what was found -/

/-- Those of the entities that are not deleted. -/
def liveAmong (s : Session T) (hs : List (Handle k)) : List (Handle k) :=
  hs.filter fun h => !s.isDeleted h

theorem mem_liveAmong : h ∈ s.liveAmong hs ↔ h ∈ hs ∧ s.isDeleted h = false := by
  simp [liveAmong]

/-- Handles of different ids that are registered are handles of different entities. -/
theorem nodup_slots (hsound : Sound s)
    (hentry : ∀ h ∈ hs, ∃ pending, (s.registry c).get? h.id.key = some ⟨k, h, pending⟩)
    (honce : (hs.map Handle.id).Nodup) : (hs.map Handle.slot).Nodup := by
  rw [List.nodup_iff_pairwise_ne, List.pairwise_map] at honce ⊢
  refine honce.imp_of_mem ?_
  intro h h' hh hh' hne hslot
  rcases hentry h hh with ⟨pending, he⟩
  rcases hentry h' hh' with ⟨pending', he'⟩
  rw [← (hsound.slots he he' hslot).2] at he'
  cases he.symm.trans he'
  exact hne rfl

theorem isDeleted_markDeleted_of_ne {x : Handle k} (hslot : x.slot ≠ h.slot) :
    (s.markDeleted h).isDeleted x = s.isDeleted x := by
  rw [isDeleted, isDeleted, markDeleted, entity?_modifyEntity_of_ne s hslot]

/-- Deleting registered entities takes those away that are live, and counts them. -/
theorem deleteEach_eq (hsound : Sound s)
    (hentry : ∀ h ∈ hs, ∃ pending,
      (s.registry scope.context).get? h.id.key = some ⟨k, h, pending⟩)
    (hslots : (hs.map Handle.slot).Nodup) :
    scope.deleteEach hs s = ((s.liveAmong hs).length, s.markAll (s.liveAmong hs)) := by
  induction hs generalizing s with
  | nil => rfl
  | cons h rest ih =>
    rcases hentry h List.mem_cons_self with ⟨pending, he⟩
    rcases List.nodup_cons.1 hslots with ⟨hfirst, hrest⟩
    -- the rest is in other slots, so taking the first away leaves its flags alone
    have hothers : (s.markDeleted h).liveAmong rest = s.liveAmong rest := by
      refine List.filter_congr ?_
      intro x hx
      rw [isDeleted_markDeleted_of_ne fun hsame => hfirst (hsame ▸ List.mem_map_of_mem hx)]
    have hsound' : Sound (s.markDeleted h) := (Step.delete s h.slot).sound hsound
    have hlater := ih hsound' (fun h' hh' => hentry h' (List.mem_cons_of_mem _ hh')) hrest
    rw [Scope.deleteEach, Work.bind_apply, deleteOrReport_of_registered hsound he]
    dsimp only
    rw [Work.bind_apply, hlater, hothers]
    -- what was live is counted, and nothing changes for the others
    cases hdeleted : s.isDeleted h with
    | false =>
      have hlive : s.liveAmong (h :: rest) = h :: s.liveAmong rest :=
        List.filter_cons_of_pos (by simp [hdeleted])
      rw [hlive, List.length_cons, Nat.add_comm]
      rfl
    | true =>
      have hlive : s.liveAmong (h :: rest) = s.liveAmong rest :=
        List.filter_cons_of_neg (by simp [hdeleted])
      rw [hlive, markDeleted_of_deleted hdeleted]
      exact congrArg (fun n => (n, _)) (Nat.zero_add _)

/-- What is deleted already can be left out. -/
theorem markAll_liveAmong (hsound : Sound s)
    (hentry : ∀ h ∈ hs, ∃ pending, (s.registry c).get? h.id.key = some ⟨k, h, pending⟩)
    (hslots : (hs.map Handle.slot).Nodup) : s.markAll (s.liveAmong hs) = s.markAll hs := by
  have hall : ((Scope.within c).deleteEach hs s).2 = s.markAll hs :=
    deleteEach_of_registered hsound hentry
  have hlive : (Scope.within c).deleteEach hs s =
      ((s.liveAmong hs).length, s.markAll (s.liveAmong hs)) := deleteEach_eq hsound hentry hslots
  rwa [hlive] at hall

/-! ## Deleting all members -/

/-- These entities are those of the members that can be looked up, each once, and all that happens is
that they are deleted, after they were read if they were not in memory.  Afterwards no member is
found any more. -/
structure Deletes (s : Session T) (scope : Scope) (ms : List (Member k)) (hs : List (Handle k))
    (s' : Session T) : Prop where
  exact : ∀ id, id ∈ hs.map Handle.id ↔ (∃ m ∈ ms, m.id = id) ∧ s.Resolves scope k id
  once : (hs.map Handle.id).Nodup
  registered : ∀ h ∈ hs, ∃ pending,
    (s'.registry scope.context).get? h.id.key = some ⟨k, h, pending⟩
  deleted : ∀ h ∈ hs, s'.isDeleted h = true
  /-- Entities in memory stay as they are, but for the mark on these. -/
  entity : ∀ n m, s.entity? n = some m →
    s'.entity? n = some (if n ∈ hs.map Handle.slot then { m with deleted := true } else m)
  /-- No other entity was read. -/
  fresh : ∀ n, s.entity? n = none → (s'.entity? n).isSome → n ∈ hs.map Handle.slot
  registry : ∀ d key e, (s'.registry d).get? key = some e ↔ (s.registry d).get? key = some e ∨
    (d = scope.context ∧ (s.registry d).get? key = none ∧
      ∃ h ∈ hs, h.id.key = key ∧ e = ⟨k, h, false⟩)
  stores : s'.stores = s.stores
  contexts : ∀ d, s'.storeIdOf? d = s.storeIdOf? d
  unresolved : ∀ m ∈ ms, ¬ s'.Resolves scope k m.id
  unfetched : ∀ (binding : Bool) (q : Query) (fetched : List (Handle k)) (s'' : Session T),
    ((Scope.mk scope.context binding).fetch k q).outcome s' = (.ok fetched, s'') →
      ∀ x ∈ fetched, ∀ m ∈ ms, x.id ≠ m.id

/-- What a fetch answers with can be looked up by its id. -/
theorem resolves_of_fetch (hsound : Sound s) {binding : Bool} {q : Query}
    (hfetch : ((Scope.mk scope.context binding).fetch k q).outcome s = (.ok hs, s'))
    (hmem : h ∈ hs) : s.Resolves scope k h.id := by
  have hdelivers := delivers_fetch hsound hfetch hmem
  have hloads : Loads s s' scope.context k (s.rowsNamed scope.context k) := by
    simpa [hfetch] using loads_fetch hsound ⟨scope.context, binding⟩ k q
  have hsound' : Sound s' := by
    simpa [hfetch] using (run_fetch hsound ⟨scope.context, binding⟩ k q).sound hsound
  rcases hdelivers.enrolled with ⟨pending, he⟩
  rw [hdelivers.context] at he
  refine (resolves_iff hsound).2 ⟨hdelivers.name, ?_⟩
  rw [← hloads.seen?_eq hsound, isSome_seen?_of_entry hsound' he, hdelivers.live]
  rfl

/-- What was found and has not been in the registry before is as it was read. -/
theorem Finds.read (hfinds : Finds s c ms found s₁) (hh : h ∈ found)
    (hnew : (s.registry c).get? h.id.key = none) :
    (s₁.registry c).get? h.id.key = some ⟨k, h, false⟩ ∧ s₁.isDeleted h = false := by
  rcases hfinds.entry h hh with ⟨pending, he⟩
  rcases hfinds.loads.entry _ _ _ he with hold | ⟨_, _, _, row, _, ⟨n, hentry⟩, v, _, hm⟩
  · cases hnew.symm.trans hold
  · cases hentry
    exact ⟨he, entryDeleted_of_entity? hm⟩

/-- What was found and has not been in memory before is live. -/
theorem Finds.fresh (hfinds : Finds s c ms found s₁) (hsound : Sound s) {n : Nat}
    (hmem : n ∈ found.map Handle.slot) (hle : s.entities.size ≤ n) :
    ∃ h ∈ s₁.liveAmong found, h.slot = n ∧
      (s₁.registry c).get? h.id.key = some ⟨k, h, false⟩ := by
  rcases List.mem_map.1 hmem with ⟨h, hh, rfl⟩
  have hnone : (s.registry c).get? h.id.key = none := by
    cases hold : (s.registry c).get? h.id.key with
    | none => rfl
    | some e =>
      rcases hfinds.entry h hh with ⟨pending, he⟩
      cases (hfinds.loads.registry _ _ _ hold).symm.trans he
      rcases (hsound.lodged hold).entity with ⟨m, hm, _⟩
      exact absurd (lt_size_of_entity? hm) (Nat.not_lt.2 hle)
  rcases hfinds.read hh hnone with ⟨he, hlive⟩
  exact ⟨h, mem_liveAmong.2 ⟨hh, hlive⟩, rfl, he⟩

/-- The live ones among what was found are the members that could be looked up before. -/
theorem Finds.mem_ids_iff (hfinds : Finds s scope.context ms found s₁) (hsound : Sound s)
    (hsound₁ : Sound s₁) : id ∈ (s₁.liveAmong found).map Handle.id ↔
      (∃ m ∈ ms, m.id = id) ∧ s.Resolves scope k id := by
  rw [resolves_iff hsound]
  constructor
  · intro hid
    rcases List.mem_map.1 hid with ⟨h, hh, rfl⟩
    rcases mem_liveAmong.1 hh with ⟨hfound, hlive⟩
    rcases hfinds.member h hfound with ⟨m, hm, hsame⟩
    rcases hfinds.entry h hfound with ⟨pending, he⟩
    refine ⟨⟨m, hm, hsame.symm⟩, (hsound₁.lodged he).name, ?_⟩
    rw [← hfinds.loads.seen?_eq hsound, isSome_seen?_of_entry hsound₁ he, hlive]
    rfl
  · rintro ⟨⟨m, hm, rfl⟩, hname, hseen⟩
    rcases hfinds.live m hm hname hseen with ⟨h, hh, hid⟩
    rcases hfinds.entry h hh with ⟨pending, he⟩
    rw [← hfinds.loads.seen?_eq hsound, ← hid, isSome_seen?_of_entry hsound₁ he] at hseen
    exact hid ▸ List.mem_map_of_mem (mem_liveAmong.2 ⟨hh, by simpa using hseen⟩)

theorem Clears.unresolved (hclears : Clears s scope.context ms hs s') (hsound' : Sound s')
    (hm : m ∈ ms) : ¬ s'.Resolves scope k m.id := by
  intro hstill
  rcases (resolves_iff hsound').1 hstill with ⟨hname, hseen⟩
  -- either its key is that of a deleted entity, or nothing happened under the key
  by_cases hfound : ∃ h ∈ hs, h.id.key = m.id.key
  · rcases hfound with ⟨h, hh, hkey⟩
    rcases hclears.entry h hh with ⟨pending, he⟩
    rw [← hkey, isSome_seen?_of_entry hsound' he, hclears.deleted h hh] at hseen
    cases hseen
  · rw [hclears.others _ fun h hh hkey => hfound ⟨h, hh, hkey⟩] at hseen
    rcases hclears.live m hm hname hseen with ⟨h, hh, hid⟩
    exact hfound ⟨h, hh, congrArg EntityId.key hid⟩

/-- The members that were found are deleted, whether they were in memory or had to be read. -/
theorem deletes_of_finds (hsound : Sound s) (hsound₁ : Sound s₁)
    (hfinds : Finds s scope.context ms found s₁)
    (hbinds : Binds s scope.context seen ms found ms' s₁) :
    Deletes s scope ms (s₁.liveAmong found) (s₁.markAll (s₁.liveAmong found)) := by
  have hclears : Clears s scope.context ms found (s₁.markAll (s₁.liveAmong found)) := by
    rw [markAll_liveAmong hsound₁ hfinds.entry (nodup_slots hsound₁ hfinds.entry hbinds.once)]
    exact hfinds.clears hsound hsound₁
  have hsound' : Sound (s₁.markAll (s₁.liveAmong found)) := hsound₁.markAll _
  constructor
  case exact => exact fun id => hfinds.mem_ids_iff hsound hsound₁
  case once => exact hbinds.once.sublist (List.filter_sublist.map _)
  case registered => exact fun h hh => hclears.entry h (mem_liveAmong.1 hh).1
  case deleted => exact fun h hh => hclears.deleted h (mem_liveAmong.1 hh).1
  case entity =>
    intro n m hm
    rw [entity?_markAll, hfinds.loads.entity hm]
    split <;> rfl
  case fresh =>
    intro n hnone hsome
    -- a slot that is new after the deletion was new when the members had been found
    have hle : s.entities.size ≤ n := by
      by_contra hlt
      simp [entity?, Nat.not_le.1 hlt] at hnone
    have hlt : n < s₁.entities.size := by
      by_contra hge
      have hnone₁ : s₁.entity? n = none := Array.getElem?_eq_none (Nat.not_lt.1 hge)
      simp [entity?_markAll, hnone₁] at hsome
    rcases hfinds.fresh hsound (hbinds.fresh n hle hlt) hle with ⟨h, hh, rfl, _⟩
    exact List.mem_map_of_mem hh
  case registry =>
    intro d key e
    rw [registry_markAll]
    constructor
    · intro he
      rcases hfinds.loads.entry _ _ _ he with hold | ⟨rfl, hle, hnone, _⟩
      · exact Or.inl hold
      · -- the entity of a new entry is new, so it is one of those that were found
        rcases (hsound₁.lodged he).entity with ⟨m, hm, _⟩
        have hmem := hbinds.fresh e.slot hle (lt_size_of_entity? hm)
        rcases hfinds.fresh hsound hmem hle with ⟨h, hh, hslot, hentry⟩
        have hkey : h.id.key = key := (hsound₁.slots hentry he hslot).2
        rw [hkey] at hentry
        exact Or.inr ⟨rfl, hnone, h, hh, hkey, Option.some.inj (he.symm.trans hentry)⟩
    · rintro (hold | ⟨rfl, hnone, h, hh, rfl, rfl⟩)
      · exact hfinds.loads.registry _ _ _ hold
      · exact (hfinds.read (mem_liveAmong.1 hh).1 hnone).1
  case stores => exact (congrArg Session.stores (markAll_eq _ _)).trans hfinds.loads.stores
  case contexts => exact hclears.confined.leaves.storeIdOf?
  case unresolved => exact fun m hm => hclears.unresolved hsound' hm
  case unfetched =>
    intro binding q fetched s'' hfetch x hx m hm hid
    exact hclears.unresolved hsound' hm (hid ▸ resolves_of_fetch hsound' hfetch hx)

/-- What is reported on the way does not matter. -/
theorem Deletes.report (hdeletes : Deletes s scope ms hs s') (hsound' : Sound s') (event : Event) :
    Deletes s scope ms hs (s'.report event) := by
  have hunresolved : ∀ m ∈ ms, ¬ (s'.report event).Resolves scope k m.id := by
    intro m hm hstill
    exact hdeletes.unresolved m hm
      ((resolves_iff hsound').2 ((resolves_iff (hsound'.report event)).1 hstill))
  refine { hdeletes with unresolved := hunresolved, unfetched := ?_ }
  intro binding q fetched s'' hfetch x hx m hm hid
  exact hunresolved m hm (hid ▸ resolves_of_fetch (hsound'.report event) hfetch hx)

/-- Deleting all members counts what it takes away. -/
theorem deleteAll_eq {R : T.Kind → Type} [ToMany R] (hsound : Sound s) (r : R k)
    (hown : ∀ m ∈ ToMany.members r, m.Own s scope.context) : ∃ hs ms' s',
      scope.deleteAll r s = ((hs.length, ToMany.withMembers r ms'), s') ∧
      Deletes s scope (ToMany.members r) hs s' ∧
      ms'.map Member.id = (ToMany.members r).map Member.id ∧
      (∀ m ∈ ms', m.Own s' scope.context) ∧ (s.KeysLeft → s'.KeysLeft) := by
  rcases finds_bindDistinctIn hsound [] hown with ⟨found, ms', s₁, hbound, hsound₁, hfinds⟩
  rcases binds_bindDistinctIn hsound [] hown with ⟨_, _, _, hbound', hbinds⟩
  cases hbound.symm.trans hbound'
  have hfinds' : Finds s scope.context (ToMany.members r) found s₁ := by simpa using hfinds
  have hslots : (found.map Handle.slot).Nodup := nodup_slots hsound₁ hfinds'.entry hbinds.once
  refine ⟨s₁.liveAmong found, ms', s₁.markAll (s₁.liveAmong found), ?_,
    deletes_of_finds hsound hsound₁ hfinds' hbinds, hbinds.ids, ?_, ?_⟩
  · simp only [Scope.deleteAll, ToMany.resolveIn, Work.bind_apply, hbound, Work.pure_apply,
      deleteEach_eq hsound₁ hfinds'.entry hslots]
  · intro m hm
    exact (hbinds.own m hm).later fun key e he => by rwa [registry_markAll]
  · intro hkeys
    rw [markAll_eq]
    exact hbinds.keysLeft hkeys

/-- None of the members is left to be deleted. -/
theorem Deletes.again {R : T.Kind → Type} [ToMany R] (hdeletes : Deletes s scope ms hs s')
    (hsound' : Sound s') (r : R k) (hown : ∀ m ∈ ToMany.members r, m.Own s' scope.context)
    (hsub : ∀ m ∈ ToMany.members r, ∃ m₁ ∈ ms, m₁.id = m.id) :
    (scope.deleteAll r s').1.1 = 0 := by
  rcases deleteAll_eq hsound' r hown with ⟨hs', _, _, hdelete', hdeletes', _⟩
  rw [hdelete']
  refine List.length_eq_zero_iff.2 (List.eq_nil_iff_forall_not_mem.2 ?_)
  intro h hh
  rcases (hdeletes'.exact h.id).1 (List.mem_map_of_mem hh) with ⟨⟨m, hm, hid⟩, hresolves⟩
  rcases hsub m hm with ⟨m₁, hm₁, hid₁⟩
  exact hdeletes.unresolved m₁ hm₁ (hid₁.trans hid ▸ hresolves)

/-- The context knows the entity: it can be looked up, or is registered as deleted. -/
def Knows (s : Session T) (scope : Scope) (k : T.Kind) (id : EntityId) : Prop :=
  s.Resolves scope k id ∨ ∃ e, (s.registry scope.context).get? id.key = some e ∧ e.id = id ∧
    s.entryDeleted e = true

/-- Members that the context knew are gone, and stay so until it is saved. -/
theorem Deletes.gone (hdeletes : Deletes s scope ms hs s') (hnative : Run Deed.Native .empty s)
    (hrun : Run Deed.Native s s') (hkeys' : s'.KeysLeft) (hm : m ∈ ms)
    (hknown : s.Knows scope k m.id) : s'.Gone scope.context m.id ∧
      ∀ s₂, Run (fun deed => deed.Native ∧ deed ≠ .saved scope.context) s' s₂ → s₂.KeysLeft →
        (s₂.context? scope.context).isSome → s₂.Gone scope.context m.id := by
  have hnative' : Run Deed.Native .empty s' := hnative.trans hrun
  have hentry : ∃ e, (s'.registry scope.context).get? m.id.key = some e ∧
      s'.entryDeleted e = true := by
    rcases hknown with hresolves | ⟨e, he, _, hdeleted⟩
    · rcases List.mem_map.1 ((hdeletes.exact m.id).2 ⟨⟨m, hm, rfl⟩, hresolves⟩) with ⟨h, hh, hid⟩
      rcases hdeletes.registered h hh with ⟨pending, he⟩
      exact ⟨⟨k, h, pending⟩, hid ▸ he, hdeletes.deleted h hh⟩
    · have hstill : s'.isDeleted e.handle = true := hrun.deleted hdeleted
      exact ⟨e, (hdeletes.registry _ _ _).2 (Or.inl he), hstill⟩
  rcases hentry with ⟨e, he, hdeleted⟩
  refine ⟨gone_of_deleted hnative' hkeys' he fun _ => hdeleted, ?_⟩
  intro s₂ hlater hkeys₂ hopen
  have hsound' : Sound s' := hnative'.sound sound_empty
  have hnumbered' : Numbered s' := hnative'.numbered sound_empty numbered_empty hkeys'
  have he₂ := hlater.registered (fun _ hdeed => hdeed.2) hsound' hnumbered' hkeys₂ hopen he
  have hnative₂ : Run Deed.Native .empty s₂ := hnative'.trans (hlater.mono fun _ hdeed => hdeed.1)
  have hdeleted₂ : s₂.isDeleted e.handle = true := hlater.deleted hdeleted
  exact gone_of_deleted hnative₂ hkeys₂ he₂ fun _ => hdeleted₂

/-- Deleting the members of a relationship, of which each is unbound or the context's own, takes
those entities away that the members can be looked up as, each once, and answers their number.
Doing so again takes nothing away, whether the field is as it was or as the first time has left it.
A cascade does the same, and leaves the field absent. -/
theorem delete_members (hnative : Run Deed.Native .empty s) (hkeys : s.KeysLeft) (scope : Scope)
    {R : T.Kind → Type} [ToMany R] [LawfulToMany R] (r : R k)
    (hown : ∀ m ∈ ToMany.members r, m.Own s scope.context) : ∃ hs r' s' s'',
    scope.deleteAll r s = ((hs.length, r'), s') ∧
    (scope.deleteAll r s').1.1 = 0 ∧ (scope.deleteAll r' s').1.1 = 0 ∧
    s'' = s'.report (.cascaded (T.entityName k) scope.context hs.length) ∧
    scope.deleteCascade (some r) s = ((), s'') ∧ scope.replaceAll (some r) none s = (none, s'') ∧
    ∀ a, a = s' ∨ a = s'' → Deletes s scope (ToMany.members r) hs a ∧
      ∀ m ∈ ToMany.members r, s.Knows scope k m.id → a.Gone scope.context m.id ∧
        ∀ s₂, Run (fun deed => deed.Native ∧ deed ≠ .saved scope.context) a s₂ → s₂.KeysLeft →
          (s₂.context? scope.context).isSome → s₂.Gone scope.context m.id := by
  have hsound : Sound s := hnative.sound sound_empty
  rcases deleteAll_eq hsound r hown with ⟨hs, ms', s', hdelete, hdeletes, hids, hown', hkeysLeft⟩
  have hrun : Run Deed.Native s s' := by
    have hadvances := reads_advances.deleteAll advances_markDeleted trivial scope r s hsound
    rw [hdelete] at hadvances
    exact hadvances.run
  have hsound' : Sound s' := hrun.sound hsound
  have hmembers : ToMany.members (ToMany.withMembers r ms') = ms' :=
    LawfulToMany.members_withMembers r ms' hids
  have hcascade : scope.deleteCascade (some r) s =
      ((), s'.report (.cascaded (T.entityName k) scope.context hs.length)) := by
    simp only [Scope.deleteCascade, Work.bind_apply, hdelete]
    rfl
  refine ⟨hs, ToMany.withMembers r ms', s', _, hdelete, ?again, ?againBound, rfl, hcascade, ?absent,
    ?after⟩
  case again =>
    refine hdeletes.again hsound' r ?_ fun m hm => ⟨m, hm, rfl⟩
    intro m hm
    exact (hown m hm).later fun key e he => (hdeletes.registry _ _ _).2 (Or.inl he)
  case againBound =>
    -- the members are bound now, but have the ids they had
    refine hdeletes.again hsound' _ ?_ ?_
    · rwa [hmembers]
    · rw [hmembers]
      intro m hm
      exact List.mem_map.1 (hids ▸ List.mem_map_of_mem hm)
  case absent =>
    simp only [Scope.replaceAll, Work.bind_apply, hcascade]
    rfl
  case after =>
    rintro a (rfl | rfl)
    · exact ⟨hdeletes, fun m hm => hdeletes.gone hnative hrun (hkeysLeft hkeys) hm⟩
    · -- the cascade reports how many it has deleted, and that takes no key
      have hreported := hdeletes.report hsound' (.cascaded (T.entityName k) scope.context hs.length)
      refine ⟨hreported, fun m hm => hreported.gone hnative ?_ ?_ hm⟩
      · exact hrun.trans ((Step.report s' _).run trivial)
      · exact (hkeysLeft hkeys).report trivial

section Listed

open Sample

/-- A tag twice, and one that does not exist. -/
def listedTags : MemberList Kind.tag :=
  ⟨[.unbound tagId, .unbound tagId, .unbound ⟨"Tag", 9⟩], none⟩

/-- The second context has not read the tag yet.  It is read, deleted and counted once. -/
theorem delete_listedTags : ∃ hs r' s',
    (Scope.within ⟨2⟩).deleteAll listedTags redSaved = ((1, r'), s') ∧ hs.length = 1 ∧
    Deletes redSaved (.within ⟨2⟩) listedTags.members hs s' ∧ s'.Gone ⟨2⟩ tagId := by
  have hown : ∀ m ∈ listedTags.members, m.Own redSaved (Scope.within ⟨2⟩).context := by
    simp [listedTags, Member.Own, Member.unbound]
  rcases delete_members run_redSaved (by decide +kernel) (.within ⟨2⟩) listedTags hown with
    ⟨hs, r', s', s'', hdelete, _, _, _, _, _, hafter⟩
  have hcount : ((Scope.within ⟨2⟩).deleteAll listedTags redSaved).1.1 = 1 := rfl
  have hone : hs.length = 1 := by rwa [hdelete] at hcount
  have hresolves : redSaved.Resolves (.within ⟨2⟩) Kind.tag tagId := ⟨⟨1, tagId, ⟨2⟩⟩, rfl⟩
  rcases hafter s' (Or.inl rfl) with ⟨hdeletes, hgone⟩
  refine ⟨hs, r', s', hone ▸ hdelete, hone, hdeletes, ?_⟩
  exact (hgone (.unbound tagId) List.mem_cons_self (Or.inl hresolves)).1

end Listed

end Session

end Reconcile
