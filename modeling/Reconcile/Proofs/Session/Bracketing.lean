import Reconcile.Proofs.Session.Refusing

/-!
# Entities that fill

While an entity fills, a stand-in is in its place, and only the one who took the value out may end
that.  Whatever else happens in the meantime leaves the entity filling and showing the same, and
leaves nothing else filling (`Brackets`).

Of the steps that sessions take, only changes of values can break this.
-/

namespace Reconcile

/-- To others the entity shows the same as before. -/
structure Entity.Unchanged {T : Model} (m m' : Entity T) : Prop where
  kind : m'.kind = m.kind
  published : m'.published = m.published
  encode : T.encode m'.state = T.encode m.state

namespace Entity.Unchanged

variable {T : Model} {m m' m'' : Entity T}

theorem refl (m : Entity T) : m.Unchanged m := ⟨rfl, rfl, rfl⟩

theorem trans (h : m.Unchanged m') (h' : m'.Unchanged m'') : m.Unchanged m'' :=
  ⟨h'.kind.trans h.kind, h'.published.trans h.published, h'.encode.trans h.encode⟩

end Entity.Unchanged

/-- What happens besides fills: nothing is inserted, changed or imported. -/
def Deed.Aside : Deed → Prop
  | quiet | loaded _ _ | deleted _ | saved _ => True
  | _ => False

theorem Deed.Reading.aside {deed : Deed} (h : deed.Reading) : deed.Aside := by
  cases deed <;> trivial

namespace Session

variable {T : Model} {s s' s'' : Session T} {deed : Deed}

/-- What fills goes on filling and shows the same, and nothing else fills. -/
structure Brackets (s s' : Session T) : Prop where
  kept : ∀ n m, s.entity? n = some m → ∃ m', s'.entity? n = some m' ∧ m'.filling = m.filling ∧
    (m.filling = true → m.Unchanged m')
  fresh : ∀ n m, s'.entity? n = some m → s.entities.size ≤ n → m.filling = false

namespace Brackets

theorem refl (s : Session T) : Brackets s s := by
  refine ⟨fun n m hm => ⟨m, hm, rfl, fun _ => .refl m⟩, ?_⟩
  intro n m hm hn
  exact absurd (lt_size_of_entity? hm) (Nat.not_lt.2 hn)

theorem trans (h : Brackets s s') (h' : Brackets s' s'') : Brackets s s'' := by
  constructor
  · intro n m hm
    rcases h.kept n m hm with ⟨m', hm', hfilling, hshown⟩
    rcases h'.kept n m' hm' with ⟨m'', hm'', hfilling', hshown'⟩
    refine ⟨m'', hm'', hfilling'.trans hfilling, ?_⟩
    intro hfills
    exact (hshown hfills).trans (hshown' (hfilling.trans hfills))
  · intro n m'' hm'' hn
    by_cases hn' : s'.entities.size ≤ n
    · exact h'.fresh n m'' hm'' hn'
    · rcases entity?_of_lt_size (Nat.not_le.1 hn') with ⟨m', hm'⟩
      rcases h'.kept n m' hm' with ⟨_, hm, hfilling, _⟩
      cases hm''.symm.trans hm
      exact hfilling.trans (h.fresh n m' hm' hn)

theorem of_entities (h : s'.entities = s.entities) : Brackets s s' := by
  have hentity : ∀ n, s'.entity? n = s.entity? n := fun n => by rw [entity?, h, entity?]
  constructor
  · intro n m hm
    exact ⟨m, (hentity n).trans hm, rfl, fun _ => .refl m⟩
  · intro n m hm hn
    rw [hentity] at hm
    exact absurd (lt_size_of_entity? hm) (Nat.not_lt.2 hn)

end Brackets

/-- A step that changes no value leaves alone what fills. -/
theorem Step.brackets (h : Step s deed s') (hdeed : ∀ slot, deed ≠ .changed slot) :
    Brackets s s' := by
  constructor
  · intro n m hm
    rcases h.entityFate hm with ⟨m', hm', hfate⟩
    refine ⟨m', hm', ?_⟩
    cases hfate with
    | regarded hregarded =>
      exact ⟨hregarded.filling, fun _ =>
        ⟨hregarded.kind, hregarded.published, hregarded.encode⟩⟩
    | confirmed => exact ⟨rfl, fun _ => ⟨rfl, rfl, rfl⟩⟩
    | edited => exact absurd rfl (hdeed _)
    | deleted => exact ⟨rfl, fun _ => ⟨rfl, rfl, rfl⟩⟩
  · intro n m hm hn
    rcases h.added hm hn with ⟨k, _, rfl⟩ | ⟨k, v, _, _, _, _, _, _, rfl⟩ <;> rfl

theorem Run.brackets {allow : Deed → Prop} (h : Run allow s s')
    (hallow : ∀ deed, allow deed → ∀ slot, deed ≠ .changed slot) : Brackets s s' := by
  refine h.induct (P := Brackets s) ?_ (Brackets.refl s)
  intro a b deed hdeed hstep ih
  exact ih.trans (hstep.brackets (hallow deed hdeed))

/-! ## Around a fill -/

/-- The same with the exception of one entity, of which no more is known than that it is there. -/
structure BracketsBut (slot : Nat) (s s' : Session T) : Prop where
  kept : ∀ n m, s.entity? n = some m → ∃ m', s'.entity? n = some m' ∧
    (n ≠ slot → m'.filling = m.filling ∧ (m.filling = true → m.Unchanged m'))
  fresh : ∀ n m, s'.entity? n = some m → s.entities.size ≤ n → n ≠ slot → m.filling = false

theorem Brackets.but (h : Brackets s s') (slot : Nat) : BracketsBut slot s s' := by
  refine ⟨?_, fun n m hm hn _ => h.fresh n m hm hn⟩
  intro n m hm
  rcases h.kept n m hm with ⟨m', hm', hkept⟩
  exact ⟨m', hm', fun _ => hkept⟩

namespace BracketsBut

variable {slot : Nat}

theorem trans (h : BracketsBut slot s s') (h' : BracketsBut slot s' s'') :
    BracketsBut slot s s'' := by
  constructor
  · intro n m hm
    rcases h.kept n m hm with ⟨m', hm', hkept⟩
    rcases h'.kept n m' hm' with ⟨m'', hm'', hkept'⟩
    refine ⟨m'', hm'', ?_⟩
    intro hn
    rcases hkept hn with ⟨hfilling, hshown⟩
    rcases hkept' hn with ⟨hfilling', hshown'⟩
    refine ⟨hfilling'.trans hfilling, ?_⟩
    intro hfills
    exact (hshown hfills).trans (hshown' (hfilling.trans hfills))
  · intro n m'' hm'' hn hslot
    -- what fills in the end was new to the second part, or was there after the first
    by_cases hn' : s'.entities.size ≤ n
    · exact h'.fresh n m'' hm'' hn' hslot
    · rcases entity?_of_lt_size (Nat.not_le.1 hn') with ⟨m', hm'⟩
      rcases h'.kept n m' hm' with ⟨_, hm, hkept⟩
      cases hm''.symm.trans hm
      exact (hkept hslot).1.trans (h.fresh n m' hm' hn hslot)

theorem modifyEntity (s : Session T) (slot : Nat) (f : Entity T → Entity T) :
    BracketsBut slot s (s.modifyEntity slot f) := by
  constructor
  · intro n m hm
    refine exists_modifyEntity hm (fun _ => ⟨rfl, fun _ => .refl m⟩) ?_
    exact fun hslot hn => absurd hslot.symm hn
  · intro n m hm hn _
    have hlt := lt_size_of_entity? hm
    rw [size_modifyEntity] at hlt
    exact absurd hlt (Nat.not_lt.2 hn)

/-- An entity that fills neither before nor after is no exception. -/
theorem close (h : BracketsBut slot s s') {m : Entity T} (hm : s.entity? slot = some m)
    (hbefore : m.filling = false) (hafter : ∀ m', s'.entity? slot = some m' → m'.filling = false) :
    Brackets s s' := by
  constructor
  · intro n e he
    rcases h.kept n e he with ⟨e', he', hkept⟩
    by_cases hn : n = slot
    · subst hn
      cases hm.symm.trans he
      refine ⟨e', he', (hafter e' he').trans hbefore.symm, ?_⟩
      intro hfills
      cases hbefore.symm.trans hfills
    · exact ⟨e', he', hkept hn⟩
  · intro n e he hn
    refine h.fresh n e he hn ?_
    rintro rfl
    exact absurd (lt_size_of_entity? hm) (Nat.not_lt.2 hn)

end BracketsBut

/-! ## Fills in progress -/

/-- The fills in progress, of which each entity that fills has one. -/
structure Stack (s : Session T) (slots : List Nat) : Prop where
  nodup : slots.Nodup
  mem_iff : ∀ n, n ∈ slots ↔ ∃ m, s.entity? n = some m ∧ m.filling = true

namespace Stack

variable {slots : List Nat}

theorem brackets (hstack : s.Stack slots) (h : Brackets s s') : s'.Stack slots := by
  refine ⟨hstack.nodup, ?_⟩
  intro n
  rw [hstack.mem_iff]
  constructor
  · rintro ⟨m, hm, hfills⟩
    rcases h.kept n m hm with ⟨m', hm', hfilling, _⟩
    exact ⟨m', hm', hfilling.trans hfills⟩
  · rintro ⟨m', hm', hfills⟩
    by_cases hn : s.entities.size ≤ n
    · cases (h.fresh n m' hm' hn).symm.trans hfills
    · rcases entity?_of_lt_size (Nat.not_le.1 hn) with ⟨m, hm⟩
      rcases h.kept n m hm with ⟨_, hm'', hfilling, _⟩
      cases hm'.symm.trans hm''
      exact ⟨m, hm, hfilling.symm.trans hfills⟩

theorem free (hstack : s.Stack slots) {n : Nat} {m : Entity T} (hm : s.entity? n = some m)
    (hfree : m.filling = false) : n ∉ slots := by
  intro hmem
  rcases (hstack.mem_iff n).1 hmem with ⟨m', hm', hfills⟩
  cases hm.symm.trans hm'
  cases hfree.symm.trans hfills

/-- A fill that begins comes on top. -/
theorem push (hstack : s.Stack slots) {n : Nat} {m : Entity T} (hm : s.entity? n = some m)
    (hfree : m.filling = false) {f : Entity T → Entity T} (hf : (f m).filling = true) :
    (s.modifyEntity n f).Stack (n :: slots) := by
  refine ⟨List.nodup_cons.2 ⟨hstack.free hm hfree, hstack.nodup⟩, ?_⟩
  intro i
  rw [List.mem_cons, hstack.mem_iff, entity?_modifyEntity]
  by_cases hi : n = i
  · subst hi
    rw [if_pos rfl, hm]
    exact ⟨fun _ => ⟨f m, rfl, hf⟩, fun _ => Or.inl rfl⟩
  · rw [if_neg hi]
    exact ⟨fun hmem => hmem.resolve_left (Ne.symm hi), Or.inr⟩

/-- Whatever is changed of an entity that goes on filling. -/
theorem modifyEntity (hstack : s.Stack slots) {n : Nat} {f : Entity T → Entity T}
    (hf : ∀ m, (f m).filling = m.filling) : (s.modifyEntity n f).Stack slots := by
  refine ⟨hstack.nodup, ?_⟩
  intro i
  rw [hstack.mem_iff, entity?_modifyEntity]
  split
  · constructor
    · rintro ⟨m, hm, hfills⟩
      exact ⟨f m, congrArg (Option.map f) hm, (hf m).trans hfills⟩
    · rintro ⟨m', hm', hfills⟩
      rcases Option.map_eq_some_iff.1 hm' with ⟨m, hm, rfl⟩
      exact ⟨m, hm, (hf m).symm.trans hfills⟩
  · exact Iff.rfl

/-- There is a list of the entities that fill. -/
theorem exists_stack (s : Session T) : ∃ slots, s.Stack slots := by
  refine ⟨(List.range s.entities.size).filter fun n => (s.entity? n).any Entity.filling,
    List.nodup_range.filter _, ?_⟩
  intro n
  rw [List.mem_filter, List.mem_range, Option.any_eq_true]
  constructor
  · rintro ⟨_, m, hm, hfills⟩
    exact ⟨m, hm, hfills⟩
  · rintro ⟨m, hm, hfills⟩
    exact ⟨lt_size_of_entity? hm, m, hm, hfills⟩

end Stack

/-! ## When nothing fills -/

/-- Every value is in its entity. -/
def Idle (s : Session T) : Prop := ∀ n m, s.entity? n = some m → m.filling = false

theorem Idle.brackets (hidle : s.Idle) (h : Brackets s s') : s'.Idle := by
  intro n m' hm'
  by_cases hn : s.entities.size ≤ n
  · exact h.fresh n m' hm' hn
  · rcases entity?_of_lt_size (Nat.not_le.1 hn) with ⟨m, hm⟩
    rcases h.kept n m hm with ⟨_, hm'', hfilling, _⟩
    cases hm'.symm.trans hm''
    exact hfilling.trans (hidle n m hm)

/-- What others see of a free entity is its value. -/
theorem Idle.live (hidle : s.Idle) {n : Nat} {m : Entity T} (hm : s.entity? n = some m)
    (hfree : m.guard = .free) : m.live? = some (Model.payload m.state) := by
  rw [Entity.live?, hidle n m hm, Entity.isHeld_eq_false_iff.2 hfree]
  rfl

theorem Idle.published (hidle : s.Idle) (hs : Sound s) {n : Nat} {m : Entity T}
    (hm : s.entity? n = some m) (hguard : m.guard ≠ .held true) :
    m.published = Model.published m.state := hs.settled hm (hidle n m hm) hguard

/-- A save that is refused is refused for an entity that does not fill. -/
theorem Idle.refused (hidle : s.Idle) (hs : Sound s) {scope : Scope} {fault : Fault}
    (hfault : ((scope.save (T := T)).outcome s).1 = .error fault) :
    ∃ key e m, (s.registry scope.context).get? key = some e ∧ s.entity? e.slot = some m ∧
      m.filling = false ∧ s.Obstacle scope.context e fault := by
  rcases save_cases scope s with ⟨fault', hcollect, hsave⟩ | ⟨changes, _, hsave⟩
  · rw [hsave] at hfault
    cases hfault
    rcases hs.refused_of_collect hcollect with ⟨key, e, he, _, hobstacle, _⟩
    rcases (hs.lodged he).entity with ⟨m, hm, _⟩
    exact ⟨key, e, m, he, hm, hidle _ m hm, hobstacle⟩
  · rw [hsave] at hfault
    cases hfault

end Session

end Reconcile
