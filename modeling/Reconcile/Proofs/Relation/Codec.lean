import Reconcile.Proofs.Json.Decode
import Reconcile.Relation.Basic

/-!
# Relationships as payloads

A relationship is written as ids.  What is read back (`reread`) has the same ids, none of them
bound.
-/

namespace Reconcile

variable {K : Type} {k : K} (source : Option ContextId)

namespace ToOne

def reread (r : ToOne k) : ToOne k := ⟨.unbound r.id, source⟩

theorem ofJson?_toJson (r : ToOne k) : ofJson? source r.toJson = some (r.reread source) := by
  rw [ofJson?, toJson, EntityId.ofJson?_toJson]
  rfl

theorem optional?_toJson (o : Option (ToOne k)) :
    Json.optional? (ofJson? source) (some (.ofOption toJson o)) = some (o.map (reread source)) :=
  Json.optional?_ofOption_map (ofJson?_toJson source) (fun _ => rfl) o

theorem ofOption_reread (o : Option (ToOne k)) :
    Json.ofOption toJson (o.map (reread source)) = .ofOption toJson o :=
  Json.ofOption_map (f := reread source) (fun _ => rfl) o

end ToOne

namespace MemberList

def reread (l : MemberList k) : MemberList k := ⟨l.ids.map .unbound, source⟩

theorem members_reread (l : MemberList k) :
    (l.reread source).members = l.members.map fun x => .unbound x.id := by
  rw [reread, ids, List.map_map]
  rfl

theorem ids_reread (l : MemberList k) : (l.reread source).ids = l.ids := by
  simp [reread, ids, Member.unbound, Function.comp_def]

theorem ofJson?_toJson (l : MemberList k) : ofJson? source l.toJson = some (l.reread source) := by
  rw [ofJson?, toJson, Json.listOf?_map EntityId.ofJson?_toJson]
  rfl

theorem optional?_toJson (o : Option (MemberList k)) :
    Json.optional? (ofJson? source) (some (.ofOption toJson o)) = some (o.map (reread source)) :=
  Json.optional?_ofOption_map (ofJson?_toJson source) (fun _ => rfl) o

theorem ofOption_reread (o : Option (MemberList k)) :
    Json.ofOption toJson (o.map (reread source)) = .ofOption toJson o :=
  Json.ofOption_map (fun l => by rw [toJson, toJson, ids_reread]) o

end MemberList

namespace MemberSet

def reread (m : MemberSet k) : MemberSet k := ⟨.ofList (m.ids.map fun id => (id, none)), source⟩

theorem toList_reread (m : MemberSet k) :
    (m.reread source).bindings.toList = m.ids.map fun id => (id, none) := by
  have hsorted : Entries.Sorted (m.ids.map fun id => (id, (none : Option (Handle k)))) := by
    rw [Entries.Sorted, List.pairwise_map]
    exact List.pairwise_map.2 m.bindings.sorted
  exact Entries.ofList_of_sorted hsorted

theorem ids_reread (m : MemberSet k) : (m.reread source).ids = m.ids := by
  have hids : (m.reread source).ids = (m.reread source).bindings.toList.map (·.1) := rfl
  rw [hids, toList_reread, List.map_map]
  exact List.map_id _

theorem members_reread (m : MemberSet k) :
    (m.reread source).members = m.members.map fun x => .unbound x.id := by
  have hids : m.ids = m.bindings.toList.map (·.1) := rfl
  rw [members, toList_reread, hids, members, List.map_map, List.map_map, List.map_map]
  rfl

theorem ofJson?_toJson (m : MemberSet k) : ofJson? source m.toJson = some (m.reread source) := by
  rw [ofJson?, toJson, Json.listOf?_map EntityId.ofJson?_toJson]
  rfl

theorem optional?_toJson (o : Option (MemberSet k)) :
    Json.optional? (ofJson? source) (some (.ofOption toJson o)) = some (o.map (reread source)) :=
  Json.optional?_ofOption_map (ofJson?_toJson source) (fun _ => rfl) o

theorem ofOption_reread (o : Option (MemberSet k)) :
    Json.ofOption toJson (o.map (reread source)) = .ofOption toJson o :=
  Json.ofOption_map (fun m => by rw [toJson, toJson, ids_reread]) o

end MemberSet

end Reconcile
