import Mathlib.Data.Finset.Card
import Reconcile.Proofs.Relation.Settling

/-!
# What relationship fields stand for

A set stands for the finite set of its ids, a list for the sequence of its ids.  The fields that a
program holds are numbered here, and `SetOp` and `ListOp` are what it can do to one of them; `run`
does it to the fields and `spec` to the ids alone.  The replies are the same and so are the ids
afterwards (`SetOp.mapM_spec`, `ListOp.mapM_spec`): no sequence of operations can tell a field from
what it stands for, whatever its members are bound to.
-/

namespace Reconcile

open Session

variable {T : Model} {k : T.Kind} {s : Session T}

/-! ## Programs -/

/-- The answer to an operation on a field. -/
inductive Reply where
  | done
  | said (answer : Bool)
  | counted (number : Nat)
  deriving DecidableEq

/-- A session as a program meets it. -/
abbrev Reached (T : Model) := {s : Session T // Run (fun _ => True) .empty s}

section Simulation

variable {σ τ α β : Type} {run : α → StateM σ β} {spec : α → StateM τ β} {stands : σ → τ}

/-- Where each operation does to what a state stands for what it does to the state, so does every
sequence of them. -/
theorem mapM_simulates (h : ∀ a x, spec a (stands x) = ((run a x).1, stands (run a x).2))
    (as : List α) (x : σ) :
    as.mapM spec (stands x) = ((as.mapM run x).1, stands (as.mapM run x).2) := by
  induction as generalizing x with
  | nil => rfl
  | cons a rest ih =>
    simp only [List.mapM_cons]
    show ((rest.mapM spec (spec a (stands x)).2).1.cons (spec a (stands x)).1,
      (rest.mapM spec (spec a (stands x)).2).2) = _
    rw [h, ih]
    rfl

theorem mapM_preserves {P : σ → Prop} {as : List α} (h : ∀ a ∈ as, ∀ x, P x → P (run a x).2)
    {x : σ} (hx : P x) : P (as.mapM run x).2 := by
  induction as generalizing x with
  | nil => exact hx
  | cons a rest ih =>
    rw [List.mapM_cons]
    exact ih (fun b hb => h b (List.mem_cons_of_mem _ hb)) (h a List.mem_cons_self x hx)

end Simulation

/-! ## Sets -/

namespace MemberSet

variable {set : MemberSet k} {h : Handle k} {id : EntityId}

theorem mem_ids_iff : id ∈ set.ids ↔ (set.bindings.get? id).isSome := SortedMap.mem_keys_iff

theorem contains_iff : set.contains h = true ↔ h.id ∈ set.ids := by
  rw [mem_ids_iff, contains, SortedMap.contains]

/-- By entity name, then by key. -/
def Precedes (a b : EntityId) : Prop :=
  a.entity < b.entity ∨ (a.entity = b.entity ∧ a.key < b.key)

theorem precedes_of_compare {a b : EntityId} (h : compare a b = .lt) : Precedes a b := by
  have hlex : (compare a.entity b.entity).then (compare a.key b.key) = .lt := h
  rcases Ordering.then_eq_lt.1 hlex with hlt | ⟨heq, hlt⟩
  · exact Or.inl (compareOfLessAndEq_eq_lt.1 hlt)
  · exact Or.inr ⟨Std.LawfulEqOrd.eq_of_compare heq, Std.compare_eq_lt.1 hlt⟩

theorem pairwise_ids (set : MemberSet k) : set.ids.Pairwise Precedes := by
  have hsorted : set.ids.Pairwise fun a b => compare a b = .lt :=
    List.pairwise_map.2 set.bindings.sorted
  exact hsorted.imp precedes_of_compare

theorem nodup_ids (set : MemberSet k) : set.ids.Nodup := set.bindings.nodup_keys

/-- What the set stands for. -/
def idSet (set : MemberSet k) : Finset EntityId := set.ids.toFinset

theorem mem_idSet : id ∈ set.idSet ↔ (set.bindings.get? id).isSome := by
  rw [idSet, List.mem_toFinset, mem_ids_iff]

theorem size_eq_card (set : MemberSet k) : set.size = set.idSet.card := by
  rw [idSet, List.toFinset_card_of_nodup set.nodup_ids]
  exact (List.length_map _).symm

theorem contains_eq_decide (set : MemberSet k) (h : Handle k) :
    set.contains h = decide (h.id ∈ set.idSet) := by
  rw [Bool.eq_iff_iff, decide_eq_true_iff, contains_iff, idSet, List.mem_toFinset]

theorem insert_of_mem (hmem : h.id ∈ set.ids) : set.insert h = (false, set) := by
  rw [insert, if_pos (contains_iff.2 hmem)]

theorem insert_of_not_mem (hmem : h.id ∉ set.ids) :
    set.insert h = (true, { set with bindings := set.bindings.insert h.id (some h) }) := by
  rw [insert, if_neg (mt contains_iff.1 hmem)]

theorem get?_insert (set : MemberSet k) (h : Handle k) (id : EntityId) :
    (set.insert h).2.bindings.get? id =
      (set.bindings.get? id).or (if id = h.id then some (some h) else none) := by
  by_cases hmem : h.id ∈ set.ids
  · rw [insert_of_mem hmem]
    split
    · next heq =>
      rcases Option.isSome_iff_exists.1 (mem_ids_iff.1 hmem) with ⟨bound, hbound⟩
      rw [heq, hbound, Option.some_or]
    · rw [Option.or_none]
  · rw [insert_of_not_mem hmem]
    split
    · next heq =>
      have hnone : set.bindings.get? h.id = none := by
        simpa using mt mem_ids_iff.2 hmem
      rw [heq, hnone, Option.none_or, SortedMap.get?_insert_self]
    · next hne => rw [Option.or_none, SortedMap.get?_insert_of_ne _ _ hne]

theorem idSet_insert (set : MemberSet k) (h : Handle k) :
    (set.insert h).2.idSet = Insert.insert h.id set.idSet := by
  ext id
  rw [mem_idSet, get?_insert, Finset.mem_insert, mem_idSet, Option.isSome_or, Bool.or_eq_true,
    or_comm]
  refine or_congr ?_ Iff.rfl
  split <;> simp_all

theorem idSet_erase (set : MemberSet k) (h : Handle k) :
    (set.erase h).2.idSet = set.idSet.erase h.id := by
  ext id
  rw [mem_idSet, Finset.mem_erase, mem_idSet, erase]
  by_cases hid : id = h.id
  · simp [hid]
  · simp [hid, SortedMap.get?_erase_of_ne _ hid]

theorem idSet_ofHandles (hs : List (Handle k)) :
    (ofHandles hs).idSet = (hs.map Handle.id).toFinset := by
  ext id
  rw [mem_idSet, Mapping.get?_ofHandles]
  simp

theorem fst_insert (set : MemberSet k) (h : Handle k) :
    (set.insert h).1 = decide (h.id ∉ set.idSet) := by
  rw [decide_not, ← contains_eq_decide, insert]
  split <;> simp_all

/-! ### Sets that were read -/

/-- A key is kept if it was among the entries, whichever entry it is. -/
theorem isSome_find?_ofList {β : Type} {entries : List (EntityId × β)} :
    (Entries.find? id (Entries.ofList entries)).isSome ↔ id ∈ entries.map (·.1) := by
  have hfold : ∀ acc : List (EntityId × β),
      (Entries.find? id (entries.foldl (fun acc e => Entries.insert e.1 e.2 acc) acc)).isSome ↔
        (Entries.find? id acc).isSome ∨ id ∈ entries.map (·.1) := by
    induction entries with
    | nil => simp
    | cons e rest ih =>
      intro acc
      rw [List.foldl_cons, ih, List.map_cons, List.mem_cons]
      by_cases hid : id = e.1
      · simp [hid, Entries.find?_insert_self]
      · simp [hid, Entries.find?_insert_of_ne hid]
  rw [Entries.ofList, hfold]
  simp [Entries.find?]

section Read

variable {source : Option ContextId} {j : Json} {read : List EntityId}

theorem ofJson?_eq_some (hread : j.listOf? EntityId.ofJson? = some read) :
    ofJson? source j = some (⟨.ofList (read.map fun id => (id, none)), source⟩ : MemberSet k) := by
  rw [ofJson?, hread]
  rfl

theorem ofJson?_eq_none (hread : j.listOf? EntityId.ofJson? = none) :
    ofJson? source j = (none : Option (MemberSet k)) := by
  rw [ofJson?, hread]
  rfl

theorem idSet_read (read : List EntityId) (source : Option ContextId) :
    (⟨.ofList (read.map fun id => (id, none)), source⟩ : MemberSet k).idSet = read.toFinset := by
  ext id
  rw [mem_idSet, List.mem_toFinset]
  have hkeys : (read.map fun id => (id, (none : Option (Handle k)))).map (·.1) = read := by
    rw [List.map_map]
    exact List.map_id _
  exact isSome_find?_ofList.trans (by rw [hkeys])

theorem allNamed_read (read : List EntityId) (source : Option ContextId) :
    ToMany.AllNamed (⟨.ofList (read.map fun id => (id, none)), source⟩ : MemberSet k) := by
  intro m hm
  rcases List.mem_map.1 hm with ⟨entry, hentry, rfl⟩
  rcases List.mem_map.1 (Entries.mem_ofList hentry) with ⟨id, _, rfl⟩
  exact Member.named_unbound id

end Read

/-! ### Names -/

theorem allNamed_iff : ToMany.AllNamed set ↔
    ∀ id h, set.bindings.get? id = some (some h) → h.id = id := by
  constructor
  · intro hnamed id h hget
    exact hnamed ⟨id, some h⟩ (Mapping.mem_members_iff.2 hget) h rfl
  · intro hget m hm h hbound
    refine hget m.id h ?_
    rw [Mapping.mem_members_iff.1 hm]
    exact congrArg some hbound

theorem allNamed_insert (hnamed : ToMany.AllNamed set) (h : Handle k) :
    ToMany.AllNamed (set.insert h).2 := by
  rw [allNamed_iff] at hnamed ⊢
  intro id h' hget
  rw [get?_insert, Option.or_eq_some_iff] at hget
  rcases hget with hold | ⟨_, hnew⟩
  · exact hnamed id h' hold
  · split at hnew
    · next heq =>
      cases hnew
      exact heq.symm
    · cases hnew

theorem allNamed_erase (hnamed : ToMany.AllNamed set) (h : Handle k) :
    ToMany.AllNamed (set.erase h).2 := by
  rw [allNamed_iff] at hnamed ⊢
  intro id h' hget
  by_cases hid : id = h.id
  · subst hid
    simp [erase] at hget
  · exact hnamed id h' ((SortedMap.get?_erase_of_ne _ hid).symm.trans hget)

theorem allNamed_ofHandles (hs : List (Handle k)) : ToMany.AllNamed (ofHandles hs) := by
  rw [allNamed_iff]
  intro id h hget
  rw [Mapping.get?_ofHandles, Option.map_eq_some_iff] at hget
  rcases hget with ⟨x, hfind, heq⟩
  cases heq
  simpa using List.find?_some hfind

/-! ### Lookups -/

theorem idSet_leave (hsound : Sound s) (lookup : ToMany.Lookup) (set : MemberSet k) :
    (lookup.leave set s).idSet = set.idSet := by
  have hids : (lookup.leave set s).members.map Member.id = set.members.map Member.id :=
    ToMany.ids_leave hsound lookup set
  rw [idSet, idSet, ← map_id_members, hids, map_id_members]

/-- A bound member is bound to the same handle after a lookup. -/
theorem get?_leave (hsound : Sound s) (lookup : ToMany.Lookup)
    (hget : set.bindings.get? id = some (some h)) :
    (lookup.leave set s).bindings.get? id = some (some h) := by
  have hmem : (⟨id, some h⟩ : Member k) ∈ set.members := Mapping.mem_members_iff.2 hget
  rcases exists_mem_right (ToMany.settles_leave hsound lookup set) hmem with
    ⟨⟨id', bound⟩, hm, hsettles⟩
  obtain rfl : id' = id := hsettles.id
  obtain rfl : bound = some h := hsettles.bound h rfl
  exact Mapping.mem_members_iff.1 hm

end MemberSet

/-- What a program can do to its sets. -/
inductive SetOp (k : T.Kind) where
  | insert (i : Nat) (h : Handle k)
  | erase (i : Nat) (h : Handle k)
  | contains (i : Nat) (h : Handle k)
  | size (i : Nat)
  | collect (i : Nat) (hs : List (Handle k))
  /-- Another set is cloned. -/
  | clone (i j : Nat)
  | decode (i : Nat) (source : Option ContextId) (j : Json)
  | lookUp (i : Nat) (lookup : ToMany.Lookup) (s : Reached T)

namespace SetOp

variable {sets : Nat → MemberSet k} {op : SetOp k} {ops : List (SetOp k)} {i : Nat}

def run : SetOp k → StateM (Nat → MemberSet k) Reply
  | insert i h => fun sets =>
    (.said ((sets i).insert h).1, Function.update sets i ((sets i).insert h).2)
  | erase i h => fun sets =>
    (.said ((sets i).erase h).1, Function.update sets i ((sets i).erase h).2)
  | contains i h => fun sets => (.said ((sets i).contains h), sets)
  | size i => fun sets => (.counted (sets i).size, sets)
  | collect i hs => fun sets => (.done, Function.update sets i (.ofHandles hs))
  | clone i j => fun sets => (.done, Function.update sets i (sets j))
  | decode i source j => fun sets =>
    match MemberSet.ofJson? source j with
    | some set => (.said true, Function.update sets i set)
    | none => (.said false, sets)
  | lookUp i lookup s => fun sets => (.done, Function.update sets i (lookup.leave (sets i) s.1))

/-- The same on finite sets of ids. -/
def spec : SetOp k → StateM (Nat → Finset EntityId) Reply
  | insert i h => fun ids =>
    (.said (decide (h.id ∉ ids i)), Function.update ids i (Insert.insert h.id (ids i)))
  | erase i h => fun ids =>
    (.said (decide (h.id ∈ ids i)), Function.update ids i ((ids i).erase h.id))
  | contains i h => fun ids => (.said (decide (h.id ∈ ids i)), ids)
  | size i => fun ids => (.counted (ids i).card, ids)
  | collect i hs => fun ids => (.done, Function.update ids i (hs.map Handle.id).toFinset)
  | clone i j => fun ids => (.done, Function.update ids i (ids j))
  | decode i _ j => fun ids =>
    match j.listOf? EntityId.ofJson? with
    | some read => (.said true, Function.update ids i read.toFinset)
    | none => (.said false, ids)
  | lookUp _ _ _ => fun ids => (.done, ids)

theorem run_spec (op : SetOp k) (sets : Nat → MemberSet k) :
    op.spec (MemberSet.idSet ∘ sets) = ((op.run sets).1, MemberSet.idSet ∘ (op.run sets).2) := by
  cases op with
  | insert i h =>
    simp only [spec, run, Function.comp_update, MemberSet.fst_insert, MemberSet.idSet_insert,
      Function.comp_apply]
  | erase i h =>
    have hreply : ((sets i).erase h).1 = decide (h.id ∈ (sets i).idSet) :=
      (sets i).contains_eq_decide h
    simp only [spec, run, Function.comp_update, hreply, MemberSet.idSet_erase, Function.comp_apply]
  | contains i h => simp only [spec, run, MemberSet.contains_eq_decide, Function.comp_apply]
  | size i => simp only [spec, run, MemberSet.size_eq_card, Function.comp_apply]
  | collect i hs => simp only [spec, run, Function.comp_update, MemberSet.idSet_ofHandles]
  | clone i j => simp only [spec, run, Function.comp_update, Function.comp_apply]
  | decode i source j =>
    cases hread : j.listOf? EntityId.ofJson? with
    | none => simp only [spec, run, hread, MemberSet.ofJson?_eq_none hread]
    | some read =>
      simp only [spec, run, hread, MemberSet.ofJson?_eq_some hread, Function.comp_update,
        MemberSet.idSet_read]
  | lookUp i lookup s =>
    -- the members may be bound now, but to the ids it makes no difference
    have hsound : Sound s.1 := s.2.sound sound_empty
    simp only [spec, run, Function.comp_update, MemberSet.idSet_leave hsound]
    rw [← Function.comp_apply (f := MemberSet.idSet) (x := i), Function.update_eq_self]

/-- The sets stand for finite sets of ids, whatever is done to them. -/
theorem mapM_spec (ops : List (SetOp k)) (sets : Nat → MemberSet k) :
    ops.mapM spec (MemberSet.idSet ∘ sets) =
      ((ops.mapM run sets).1, MemberSet.idSet ∘ (ops.mapM run sets).2) :=
  mapM_simulates run_spec ops sets

theorem allNamed_run (op : SetOp k) (hnamed : ∀ i, ToMany.AllNamed (sets i)) :
    ∀ i, ToMany.AllNamed ((op.run sets).2 i) := by
  have hupdate : ∀ i set, ToMany.AllNamed set →
      ∀ j, ToMany.AllNamed (Function.update sets i set j) := by
    intro i set hset
    exact (Function.forall_update_iff sets fun _ x => ToMany.AllNamed x).2
      ⟨hset, fun j _ => hnamed j⟩
  cases op with
  | insert i h => exact hupdate i _ (MemberSet.allNamed_insert (hnamed i) h)
  | erase i h => exact hupdate i _ (MemberSet.allNamed_erase (hnamed i) h)
  | contains i h => exact hnamed
  | size i => exact hnamed
  | collect i hs => exact hupdate i _ (MemberSet.allNamed_ofHandles hs)
  | clone i j => exact hupdate i _ (hnamed j)
  | decode i source j =>
    cases hread : j.listOf? EntityId.ofJson? with
    | none =>
      simp only [run, MemberSet.ofJson?_eq_none hread]
      exact hnamed
    | some read =>
      simp only [run, MemberSet.ofJson?_eq_some hread]
      exact hupdate i _ (MemberSet.allNamed_read read source)
  | lookUp i lookup s => exact hupdate i _ ((hnamed i).leave (s.2.sound sound_empty) lookup)

/-- The operation neither takes the id out of the set nor puts another set in its place. -/
def Spares (i : Nat) (id : EntityId) : SetOp k → Prop
  | erase j h => j = i → h.id ≠ id
  | collect j _ => j ≠ i
  | clone j _ => j ≠ i
  | decode j _ _ => j ≠ i
  | _ => True

/-- What was stored first stays. -/
theorem get?_run {id : EntityId} {h : Handle k} (hspares : op.Spares i id)
    (hget : (sets i).bindings.get? id = some (some h)) :
    ((op.run sets).2 i).bindings.get? id = some (some h) := by
  have hother : ∀ {j : Nat} {set : MemberSet k}, j ≠ i →
      (Function.update sets j set i).bindings.get? id = some (some h) := by
    intro j set hne
    rw [Function.update_of_ne hne.symm]
    exact hget
  have hsame : ∀ {j : Nat} {set : MemberSet k},
      (j = i → set.bindings.get? id = some (some h)) →
        (Function.update sets j set i).bindings.get? id = some (some h) := by
    intro j set hset
    by_cases hj : j = i
    · subst hj
      rw [Function.update_self]
      exact hset rfl
    · exact hother hj
  cases op with
  | insert j x =>
    refine hsame ?_
    rintro rfl
    rw [MemberSet.get?_insert, hget, Option.some_or]
  | erase j x =>
    refine hsame ?_
    rintro rfl
    exact (SortedMap.get?_erase_of_ne _ (hspares rfl).symm).trans hget
  | contains j x => exact hget
  | size j => exact hget
  | collect j hs => exact hother hspares
  | clone j l => exact hother hspares
  | decode j source json =>
    cases hread : json.listOf? EntityId.ofJson? with
    | none =>
      simp only [run, MemberSet.ofJson?_eq_none hread]
      exact hget
    | some read =>
      simp only [run, MemberSet.ofJson?_eq_some hread]
      exact hother hspares
  | lookUp j lookup s =>
    refine hsame ?_
    rintro rfl
    exact MemberSet.get?_leave (s.2.sound sound_empty) lookup hget

end SetOp

/-! ## Lists -/

namespace MemberList

variable {source : Option ContextId} {j : Json} {read : List EntityId}

theorem contains_eq_decide (l : MemberList k) (h : Handle k) :
    l.contains h = decide (h.id ∈ l.ids) := by
  rw [Bool.eq_iff_iff, decide_eq_true_iff, contains, ids]
  simp

theorem ids_push (l : MemberList k) (h : Handle k) : (l.push h).ids = l.ids ++ [h.id] := by
  rw [ids, ids, push, List.map_append]
  rfl

theorem ids_ofHandles (hs : List (Handle k)) : (ofHandles hs).ids = hs.map Handle.id := by
  rw [ids, ofHandles, List.map_map]
  rfl

theorem ids_read (read : List EntityId) (source : Option ContextId) :
    (⟨read.map .unbound, source⟩ : MemberList k).ids = read := by
  rw [ids, List.map_map]
  exact List.map_id _

theorem ofJson?_eq_some (hread : j.listOf? EntityId.ofJson? = some read) :
    ofJson? source j = some (⟨read.map .unbound, source⟩ : MemberList k) := by
  rw [ofJson?, hread]
  rfl

theorem ofJson?_eq_none (hread : j.listOf? EntityId.ofJson? = none) :
    ofJson? source j = (none : Option (MemberList k)) := by
  rw [ofJson?, hread]
  rfl

theorem ids_leave (hsound : Sound s) (lookup : ToMany.Lookup) (l : MemberList k) :
    (lookup.leave l s).ids = l.ids :=
  ToMany.ids_leave hsound lookup l

theorem named_ofHandle (h : Handle k) : (Member.ofHandle h).Named := by
  intro x hx
  cases hx
  rfl

theorem allNamed_push {l : MemberList k} (hnamed : ToMany.AllNamed l) (h : Handle k) :
    ToMany.AllNamed (l.push h) := by
  intro m hm
  rcases List.mem_append.1 hm with hold | hnew
  · exact hnamed m hold
  · rw [List.mem_singleton.1 hnew]
    exact named_ofHandle h

theorem allNamed_ofHandles (hs : List (Handle k)) : ToMany.AllNamed (ofHandles hs) := by
  intro m hm
  rcases List.mem_map.1 hm with ⟨h, _, rfl⟩
  exact named_ofHandle h

theorem allNamed_read (read : List EntityId) (source : Option ContextId) :
    ToMany.AllNamed (⟨read.map .unbound, source⟩ : MemberList k) := by
  intro m hm
  rcases List.mem_map.1 hm with ⟨id, _, rfl⟩
  exact Member.named_unbound id

end MemberList

/-- What a program can do to its lists. -/
inductive ListOp (k : T.Kind) where
  | push (i : Nat) (h : Handle k)
  | contains (i : Nat) (h : Handle k)
  | length (i : Nat)
  | collect (i : Nat) (hs : List (Handle k))
  /-- Another list is cloned. -/
  | clone (i j : Nat)
  | decode (i : Nat) (source : Option ContextId) (j : Json)
  | lookUp (i : Nat) (lookup : ToMany.Lookup) (s : Reached T)

namespace ListOp

variable {lists : Nat → MemberList k}

def run : ListOp k → StateM (Nat → MemberList k) Reply
  | push i h => fun lists => (.done, Function.update lists i ((lists i).push h))
  | contains i h => fun lists => (.said ((lists i).contains h), lists)
  | length i => fun lists => (.counted (lists i).length, lists)
  | collect i hs => fun lists => (.done, Function.update lists i (.ofHandles hs))
  | clone i j => fun lists => (.done, Function.update lists i (lists j))
  | decode i source j => fun lists =>
    match MemberList.ofJson? source j with
    | some l => (.said true, Function.update lists i l)
    | none => (.said false, lists)
  | lookUp i lookup s => fun lists => (.done, Function.update lists i (lookup.leave (lists i) s.1))

/-- The same on sequences of ids. -/
def spec : ListOp k → StateM (Nat → List EntityId) Reply
  | push i h => fun ids => (.done, Function.update ids i (ids i ++ [h.id]))
  | contains i h => fun ids => (.said (decide (h.id ∈ ids i)), ids)
  | length i => fun ids => (.counted (ids i).length, ids)
  | collect i hs => fun ids => (.done, Function.update ids i (hs.map Handle.id))
  | clone i j => fun ids => (.done, Function.update ids i (ids j))
  | decode i _ j => fun ids =>
    match j.listOf? EntityId.ofJson? with
    | some read => (.said true, Function.update ids i read)
    | none => (.said false, ids)
  | lookUp _ _ _ => fun ids => (.done, ids)

theorem run_spec (op : ListOp k) (lists : Nat → MemberList k) :
    op.spec (MemberList.ids ∘ lists) = ((op.run lists).1, MemberList.ids ∘ (op.run lists).2) := by
  cases op with
  | push i h =>
    simp only [spec, run, Function.comp_update, MemberList.ids_push, Function.comp_apply]
  | contains i h => simp only [spec, run, MemberList.contains_eq_decide, Function.comp_apply]
  | length i =>
    have hlength : (lists i).length = (lists i).ids.length := (List.length_map _).symm
    simp only [spec, run, hlength, Function.comp_apply]
  | collect i hs => simp only [spec, run, Function.comp_update, MemberList.ids_ofHandles]
  | clone i j => simp only [spec, run, Function.comp_update, Function.comp_apply]
  | decode i source j =>
    cases hread : j.listOf? EntityId.ofJson? with
    | none => simp only [spec, run, hread, MemberList.ofJson?_eq_none hread]
    | some read =>
      simp only [spec, run, hread, MemberList.ofJson?_eq_some hread, Function.comp_update,
        MemberList.ids_read]
  | lookUp i lookup s =>
    have hsound : Sound s.1 := s.2.sound sound_empty
    simp only [spec, run, Function.comp_update, MemberList.ids_leave hsound]
    rw [← Function.comp_apply (f := MemberList.ids) (x := i), Function.update_eq_self]

/-- The lists stand for sequences of ids, whatever is done to them. -/
theorem mapM_spec (ops : List (ListOp k)) (lists : Nat → MemberList k) :
    ops.mapM spec (MemberList.ids ∘ lists) =
      ((ops.mapM run lists).1, MemberList.ids ∘ (ops.mapM run lists).2) :=
  mapM_simulates run_spec ops lists

theorem allNamed_run (op : ListOp k) (hnamed : ∀ i, ToMany.AllNamed (lists i)) :
    ∀ i, ToMany.AllNamed ((op.run lists).2 i) := by
  have hupdate : ∀ i l, ToMany.AllNamed l →
      ∀ j, ToMany.AllNamed (Function.update lists i l j) := by
    intro i l hl
    exact (Function.forall_update_iff lists fun _ x => ToMany.AllNamed x).2
      ⟨hl, fun j _ => hnamed j⟩
  cases op with
  | push i h => exact hupdate i _ (MemberList.allNamed_push (hnamed i) h)
  | contains i h => exact hnamed
  | length i => exact hnamed
  | collect i hs => exact hupdate i _ (MemberList.allNamed_ofHandles hs)
  | clone i j => exact hupdate i _ (hnamed j)
  | decode i source j =>
    cases hread : j.listOf? EntityId.ofJson? with
    | none =>
      simp only [run, MemberList.ofJson?_eq_none hread]
      exact hnamed
    | some read =>
      simp only [run, MemberList.ofJson?_eq_some hread]
      exact hupdate i _ (MemberList.allNamed_read read source)
  | lookUp i lookup s => exact hupdate i _ ((hnamed i).leave (s.2.sound sound_empty) lookup)

end ListOp

/-! ## Fields keep their ids -/

/-- The sets that a program has after these operations, where all were empty before. -/
def setsAfter (ops : List (SetOp k)) : Nat → MemberSet k := (ops.mapM SetOp.run fun _ => .empty).2

def listsAfter (ops : List (ListOp k)) : Nat → MemberList k :=
  (ops.mapM ListOp.run fun _ => .empty).2

theorem allNamed_setsAfter (ops : List (SetOp k)) (i : Nat) :
    ToMany.AllNamed (setsAfter ops i) := by
  have hempty : ∀ i : Nat, ToMany.AllNamed (R := MemberSet) (k := k) .empty :=
    fun _ m hm => by cases hm
  exact mapM_preserves (P := fun sets : Nat → MemberSet k => ∀ i, ToMany.AllNamed (sets i))
    (fun op _ _ hnamed => op.allNamed_run hnamed) hempty i

theorem allNamed_listsAfter (ops : List (ListOp k)) (i : Nat) :
    ToMany.AllNamed (listsAfter ops i) := by
  have hempty : ∀ i : Nat, ToMany.AllNamed (R := MemberList) (k := k) .empty :=
    fun _ m hm => by cases hm
  exact mapM_preserves (P := fun lists : Nat → MemberList k => ∀ i, ToMany.AllNamed (lists i))
    (fun op _ _ hnamed => op.allNamed_run hnamed) hempty i

theorem listOf?_eq_some {items : List Json} {ids : List EntityId}
    (h : List.Forall₂ (fun item id => EntityId.ofJson? item = some id) items ids) :
    (Json.array items).listOf? EntityId.ofJson? = some ids := by
  show items.mapM EntityId.ofJson? = some ids
  induction h with
  | nil => rfl
  | cons hitem _ ih =>
    rw [List.mapM_cons, hitem, ih]
    rfl

/-- Whatever is done to relationship fields, a set stands for the finite set of its ids, in order
and each with the member that was stored first, and a list for the sequence of its ids.  Writing and
reading keep what a field stands for, and iterating where it was read gives one handle for each
member that there is one for, in order. -/
theorem fields_stand_for_ids (k : T.Kind) :
    (∀ ops : List (SetOp k), ops.mapM SetOp.spec (fun _ => ∅) =
      ((ops.mapM SetOp.run fun _ => .empty).1, fun i => (setsAfter ops i).ids.toFinset)) ∧
    (∀ set : MemberSet k, set.ids.Pairwise MemberSet.Precedes) ∧
    (∀ (set : MemberSet k) (h : Handle k), ((set.insert h).1 = true ↔ h.id ∉ set.ids) ∧
      (h.id ∉ set.ids → (set.insert h).2.bindings.get? h.id = some (some h)) ∧
      (h.id ∈ set.ids → (set.insert h).2 = set)) ∧
    (∀ (ops : List (SetOp k)) (sets : Nat → MemberSet k) (i : Nat) (id : EntityId) (h : Handle k),
      (sets i).bindings.get? id = some (some h) → (∀ op ∈ ops, op.Spares i id) →
        ((ops.mapM SetOp.run sets).2 i).bindings.get? id = some (some h)) ∧
    (∀ ops : List (ListOp k), ops.mapM ListOp.spec (fun _ => []) =
      ((ops.mapM ListOp.run fun _ => .empty).1, fun i => (listsAfter ops i).ids)) ∧
    (∀ source : Option ContextId,
      (∀ r : ToOne k, (ToOne.ofJson? source r.toJson).map (ToOne.id (k := k)) = some r.id) ∧
      (∀ set : MemberSet k,
        (MemberSet.ofJson? source set.toJson).map (MemberSet.ids (k := k)) = some set.ids) ∧
      (∀ l : MemberList k,
        (MemberList.ofJson? source l.toJson).map (MemberList.ids (k := k)) = some l.ids) ∧
      ∀ items ids, List.Forall₂ (fun item id => EntityId.ofJson? item = some id) items ids →
        (∃ set : MemberSet k, MemberSet.ofJson? source (.array items) = some set ∧
          ∃ sorted : List EntityId, set.toJson = .array (sorted.map EntityId.toJson) ∧
            sorted.Pairwise MemberSet.Precedes ∧ ∀ id, id ∈ sorted ↔ id ∈ ids) ∧
        ∃ l : MemberList k, MemberList.ofJson? source (.array items) = some l ∧ l.ids = ids ∧
          l.toJson = .array (ids.map EntityId.toJson)) ∧
    ∀ (s : Session T) (c : ContextId), Run (fun _ => True) .empty s →
      (∀ (ops : List (SetOp k)) (i : Nat), (setsAfter ops i).source = some c →
        ToMany.Iterates s c (setsAfter ops i)) ∧
      ∀ (ops : List (ListOp k)) (i : Nat), (listsAfter ops i).source = some c →
        ToMany.Iterates s c (listsAfter ops i) := by
  refine ⟨?sets, ?sorted, ?insert, ?stays, ?lists, ?codec, ?iterate⟩
  case sets => exact fun ops => SetOp.mapM_spec ops fun _ => .empty
  case sorted => exact MemberSet.pairwise_ids
  case insert =>
    intro set h
    refine ⟨?_, ?_, ?_⟩
    · rw [MemberSet.fst_insert, decide_eq_true_iff, MemberSet.idSet, List.mem_toFinset]
    · intro hmem
      rw [MemberSet.insert_of_not_mem hmem]
      exact SortedMap.get?_insert_self _ _ _
    · intro hmem
      rw [MemberSet.insert_of_mem hmem]
  case stays =>
    intro ops sets i id h hget hspares
    exact mapM_preserves
      (P := fun sets : Nat → MemberSet k => (sets i).bindings.get? id = some (some h))
      (fun op hop _ hx => SetOp.get?_run (hspares op hop) hx) hget
  case lists => exact fun ops => ListOp.mapM_spec ops fun _ => .empty
  case codec =>
    intro source
    refine ⟨?_, ?_, ?_, ?_⟩
    · intro r
      rw [ToOne.ofJson?_toJson]
      rfl
    · intro set
      rw [MemberSet.ofJson?_toJson, Option.map_some, MemberSet.ids_reread]
    · intro l
      rw [MemberList.ofJson?_toJson, Option.map_some, MemberList.ids_reread]
    · intro items ids hitems
      have hread := listOf?_eq_some hitems
      constructor
      · refine ⟨_, MemberSet.ofJson?_eq_some hread, _, rfl, MemberSet.pairwise_ids _, ?_⟩
        intro id
        rw [← List.mem_toFinset, ← List.mem_toFinset]
        exact Finset.ext_iff.1 (MemberSet.idSet_read ids source) id
      · have hids := MemberList.ids_read (k := k) ids source
        refine ⟨_, MemberList.ofJson?_eq_some hread, hids, ?_⟩
        rw [MemberList.toJson, hids]
  case iterate =>
    intro s c hrun
    have hsound : Sound s := hrun.sound sound_empty
    constructor
    · intro ops i hsource
      exact ToMany.iterates ((allNamed_setsAfter ops i).readThere hsource) hsound
    · intro ops i hsource
      exact ToMany.iterates ((allNamed_listsAfter ops i).readThere hsource) hsound

end Reconcile
