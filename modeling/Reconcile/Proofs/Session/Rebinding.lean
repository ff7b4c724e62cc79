import Reconcile.Proofs.Relation.Codec
import Reconcile.Proofs.Session.Operations

/-!
# Binding changes no payload

Looking up the members of a relationship leaves the ids of the field as they are.  So putting the
field back into the entity that it was read from (`Session.rebind`) leaves the payload as it is, and
going through a relationship only reads.
-/

namespace Reconcile

variable {T : Model} {k : T.Kind} {s s' : Session T}

/-! ## Ids -/

namespace Member

theorem id_bindIn (scope : Scope) (m : Member k) (s : Session T) :
    (m.bindIn scope s).1.2.id = m.id := by
  rcases m with ⟨id, bound⟩
  cases bound with
  | some h => rfl
  | none =>
    show ((Member.unbound id : Member k).bindIn scope s).1.2.id = id
    unfold bindIn
    dsimp only [Member.unbound]
    rw [Work.bind_apply]
    rcases (scope.locate k id).outcome s with ⟨fault | h, s'⟩ <;> rfl

theorem id_bind (source : Option ContextId) (m : Member k) (s : Session T) :
    (m.bind source s).1.2.id = m.id := by
  rcases m with ⟨id, bound⟩
  cases bound with
  | some h => rfl
  | none =>
    unfold bind
    dsimp only
    rw [Work.bind_apply]
    dsimp only [Work.get_apply]
    cases source.filter s.isOpen with
    | none => rfl
    | some c => exact id_bindIn (.within c) ⟨id, none⟩ s

theorem ids_bindAll (source : Option ContextId) (ms : List (Member k)) (s : Session T) :
    (bindAll source ms s).1.2.map id = ms.map id := by
  induction ms generalizing s with
  | nil => rfl
  | cons m rest ih =>
    unfold bindAll
    rw [Work.bind_apply]
    rcases hm : m.bind source s with ⟨⟨found, m'⟩, s₁⟩
    have hid := id_bind source m s
    rw [hm] at hid
    have hrest := ih s₁
    rcases hbound : bindAll source rest s₁ with ⟨⟨others, rest'⟩, s₂⟩
    rw [hbound] at hrest
    dsimp only
    rw [Work.bind_apply, hbound]
    simp only [Work.pure_apply, List.map_cons]
    rw [hrest]
    exact congrArg (· :: rest.map Member.id) hid

end Member

theorem MemberList.toJson_handles (l : MemberList k) (s : Session T) :
    (ToMany.handles l s).1.2.toJson = l.toJson := by
  have hids : (ToMany.handles l s).1.2.ids = l.ids := Member.ids_bindAll l.source l.members s
  rw [toJson, toJson, hids]

section Members

variable {K : Type} {k : K} {ms : List (Member k)}

namespace MemberSet

theorem map_id_members (r : MemberSet k) : r.members.map Member.id = r.ids := by
  rw [members, List.map_map]
  rfl

theorem members_withMembers (r : MemberSet k) (hids : ms.map Member.id = r.ids) :
    (ToMany.withMembers r ms).members = ms := by
  have hkeys : (ms.map fun m => (m.id, m.bound)).map (·.1) = r.ids := by
    rw [List.map_map]
    exact hids
  have hsorted : Entries.Sorted (ms.map fun m => (m.id, m.bound)) := by
    have hpairwise : (r.ids).Pairwise fun a b => compare a b = .lt :=
      List.pairwise_map.2 r.bindings.sorted
    rw [← hkeys] at hpairwise
    exact List.pairwise_map.1 hpairwise
  have hentries : (ToMany.withMembers r ms).bindings.toList = ms.map fun m => (m.id, m.bound) :=
    Entries.ofList_of_sorted hsorted
  rw [members, hentries, List.map_map]
  exact List.map_id _

end MemberSet

/-- Members of the same ids can take the place of a field's own. -/
class LawfulToMany (R : K → Type) [ToMany R] : Prop where
  members_withMembers {k : K} (r : R k) (ms : List (Member k))
    (hids : ms.map Member.id = (ToMany.members r).map Member.id) :
    ToMany.members (ToMany.withMembers r ms) = ms

instance : LawfulToMany (K := K) MemberSet where
  members_withMembers r _ hids := r.members_withMembers (hids.trans r.map_id_members)

instance : LawfulToMany (K := K) MemberList where
  members_withMembers _ _ _ := rfl

end Members

/-! ## Putting fields back -/

namespace Session

/-- What reading leaves of an entity: everything but bindings, and who holds it. -/
theorem Run.regards (h : Run Deed.Reading s s') {n : Nat} {m : Entity T}
    (hm : s.entity? n = some m) : ∃ m', s'.entity? n = some m' ∧ m'.kind = m.kind ∧
      T.encode m'.state = T.encode m.state := by
  refine h.induct (P := fun s' => ∃ m', s'.entity? n = some m' ∧ m'.kind = m.kind ∧
    T.encode m'.state = T.encode m.state) ?_ ⟨m, hm, rfl, rfl⟩
  rintro a b deed hdeed hstep ⟨m', hm', hkind, hencode⟩
  rcases hstep.entityFate hm' with ⟨m'', hm'', hfate⟩
  refine ⟨m'', hm'', ?_⟩
  cases hfate with
  | regarded hregarded =>
    exact ⟨hregarded.kind.trans hkind, hregarded.encode.trans hencode⟩
  | confirmed => exact ⟨hkind, hencode⟩
  | edited => exact absurd hdeed id
  | deleted => exact absurd hdeed id

theorem run_rebind {h : Handle k} {m : Entity T} (hm : s.entity? h.slot = some m)
    (hkind : m.kind = k) {v : T.Value k} (hencode : T.encode v = T.encode m.state) :
    Run Deed.Reading s (s.rebind h v) := by
  subst hkind
  rw [rebind, modifyEntity_of_entity? hm]
  have hregarded : m.Regarded (m.withState v) :=
    ⟨rfl, rfl, rfl, rfl, rfl, hencode, fun hheld => hheld⟩
  exact (Step.regard hm hregarded).run trivial

theorem run_rebind_after {h : Handle k} (hholds : s.Holds h) (hrun : Run Deed.Reading s s')
    {v : T.Value k} (hencode : T.encode v = T.encode (s.value h)) :
    Run Deed.Reading s' (s'.rebind h v) := by
  rcases hholds with ⟨m, hm, rfl⟩
  rcases hrun.regards hm with ⟨m', hm', hkind, hkept⟩
  rw [value_of_entity? hm, Entity.value_self] at hencode
  exact run_rebind hm' hkind (hencode.trans hkept.symm)

/-- Reading something off the value of an entity only reads, if the value comes back with the same
payload. -/
theorem run_regard {h : Handle k} (hholds : s.Holds h) (hrun : Run Deed.Reading s s')
    {v : T.Value k} (hencode : T.encode v = T.encode (s.value h)) :
    Run Deed.Reading s (s'.rebind h v) := hrun.trans (run_rebind_after hholds hrun hencode)

end Session

end Reconcile
