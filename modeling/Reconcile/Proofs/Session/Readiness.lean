import Reconcile.Proofs.Session.Seeing

/-!
# Entities that can be found

A context is *ready* for a type if the entities of the type can be looked up by an attribute, and
the live ones are all of a certain kind (`Ready`): they show the payloads of their values, or nobody
is using them.  Reading rows and inserting leave it ready, and leave everything else as it was
(`Leaves`).
-/

namespace Reconcile

namespace Entity

variable {T : Model}

/-- What others see is the payload of the value. -/
def Shown (m : Entity T) : Prop := m.visible? = some (Model.payload m.state)

/-- Nobody holds or fills the entity. -/
def Unused (m : Entity T) : Prop := m.filling = false ∧ m.guard = .free

theorem Unused.shown {m : Entity T} (h : m.Unused) : m.Shown := by
  rw [Shown, visible?, live?, h.1, isHeld, h.2]
  rfl

theorem unused_new (k : T.Kind) (v : T.Value k) (temporary : Bool) :
    (Entity.new k v temporary).Unused := ⟨rfl, rfl⟩

theorem Unused.checkIn {m : Entity T} (h : m.Unused) {k : T.Kind} (v : T.Value k) :
    (m.checkIn v).Unused := ⟨rfl, h.2⟩

end Entity

namespace Session

variable {T : Model} {k : T.Kind} {s s' s'' : Session T} {c : ContextId} {field : String}
  {P Q : Entity T → Prop}

/-! ## Readiness -/

/-- The entities of a type can be looked up by an attribute, those that are pending too: the rows
that the context has not read can be read, and what is live under the name is of the type and of
this kind. -/
structure Ready (s : Session T) (c : ContextId) (k : T.Kind) (field : String)
    (P : Entity T → Prop) : Prop where
  pending : s.takesPending c = true
  described : ∃ d, (s.schemaOf c).require (T.entityName k) = .ok d ∧
    (d.attribute? field).isSome
  readable : ∀ key row, (s.rowsOf c).row? ⟨T.entityName k, key⟩ = some row →
    (s.registry c).get? key = none → (T.decode k (some c) row.payload).isSome
  live : ∀ key e m, (s.registry c).get? key = some e → e.id.entity = T.entityName k →
    s.entity? e.slot = some m → m.deleted = false → e.kind = k ∧ P m

/-- What comes into the registry has not to be read any more. -/
theorem Ready.readable_of_registry (hready : s.Ready c k field P)
    (hkept : ∀ key e, (s.registry c).get? key = some e → ∃ e', (s'.registry c).get? key = some e')
    (hrows : s'.rowsOf c = s.rowsOf c) {key : UInt64} {row : Row}
    (hrow : (s'.rowsOf c).row? ⟨T.entityName k, key⟩ = some row)
    (hnew : (s'.registry c).get? key = none) : (T.decode k (some c) row.payload).isSome := by
  rw [hrows] at hrow
  refine hready.readable key row hrow ?_
  refine Option.eq_none_iff_forall_ne_some.2 ?_
  intro e he
  rcases hkept key e he with ⟨e', he'⟩
  cases he'.symm.trans hnew

theorem Ready.mono (hready : s.Ready c k field P) (h : ∀ m, P m → Q m) :
    s.Ready c k field Q where
  pending := hready.pending
  described := hready.described
  readable := hready.readable
  live key e m he hname hm hlive := (hready.live key e m he hname hm hlive).imp_right (h m)

theorem Ready.loads (hready : s.Ready c k field P) (hs : Sound s)
    (hnew : ∀ (v : T.Value k) (temporary : Bool), P (.new k v temporary))
    (h : Loads s s' c k (s.rowsNamed c k)) : s'.Ready c k field P where
  pending := by
    rw [takesPending, h.settingsOf]
    exact hready.pending
  described := by
    rw [h.schemaOf]
    exact hready.described
  readable _ _ :=
    hready.readable_of_registry (fun key e he => ⟨e, h.registry c key e he⟩) (h.rowsOf c)
  live key e m he hname hm hlive := by
    rcases h.entry c key e he with hold | ⟨_, _, _, row, _, hread⟩
    · rcases (hs.lodged hold).entity with ⟨m', hm', _⟩
      cases hm.symm.trans (h.entity hm')
      exact hready.live key e m hold hname hm' hlive
    · rcases hread with ⟨⟨n, rfl⟩, v, _, hentity⟩
      cases hm.symm.trans hentity
      exact ⟨rfl, hnew v false⟩

theorem Ready.insertUnder (hready : s.Ready c k field P) (hs : Sound s)
    (hnew : ∀ (v : T.Value k) (temporary : Bool), P (.new k v temporary)) {store : Store}
    (hstore : s.storeOf? c = some store) {key : UInt64} :
    (s.insertUnder c k key).Ready c k field P where
  pending := by
    rw [takesPending, settingsOf_insertUnder_self]
    exact hready.pending
  described := by
    rw [schemaOf_insertUnder_self]
    exact hready.described
  readable _ _ := by
    refine hready.readable_of_registry ?_ rowsOf_insertUnder_self
    intro key' e he
    by_cases hkey : key' = key
    · subst hkey
      exact ⟨_, get?_insertUnder_new hstore⟩
    · exact ⟨e, (get?_insertUnder_of_ne hstore fun _ => hkey).trans he⟩
  live key' e m he hname hm hlive := by
    rcases entry_of_insertUnder hstore he with ⟨_, rfl⟩ | hold
    · cases hm.symm.trans entity?_insertUnder_new
      exact ⟨rfl, hnew _ true⟩
    · rcases (hs.lodged hold).entity with ⟨m', hm', _⟩
      cases hm.symm.trans (entity?_insertUnder hm')
      exact hready.live key' e m hold hname hm' hlive

/-- Whatever is done to one entity, if it stays as it has to be. -/
theorem Ready.modifyEntity (hready : s.Ready c k field P) (slot : Nat) (f : Entity T → Entity T)
    (hdeleted : ∀ m, (f m).deleted = m.deleted)
    (hf : ∀ m, P m → P (f m)) (journal : Array Event) :
    Ready { s.modifyEntity slot f with journal } c k field P where
  pending := hready.pending
  described := hready.described
  readable := hready.readable
  live key e m he hname hm hlive := by
    rcases entity?_of_modifyEntity hm with ⟨m', _, hm', rfl⟩ | ⟨_, hentity⟩
    · rw [hdeleted] at hlive
      exact (hready.live key e m' he hname hm' hlive).imp_right (hf m')
    · exact hready.live key e m he hname hentity hlive

/-! ## What is left alone -/

/-- Nothing was done but to these entities, apart from reading rows and taking keys. -/
structure Leaves (s s' : Session T) (c : ContextId) (slots : List Nat) : Prop where
  storeIdOf? : ∀ d, s'.storeIdOf? d = s.storeIdOf? d
  rows : ∀ i, (s'.store? i).map Store.rows = (s.store? i).map Store.rows
  size : s.entities.size ≤ s'.entities.size
  entity? : ∀ n, n < s.entities.size → n ∉ slots → s'.entity? n = s.entity? n
  registry : ∀ d key e, (s.registry d).get? key = some e → (s'.registry d).get? key = some e
  /-- An entry that was added is one of these entities, or was read from a row. -/
  added : ∀ d key e, (s'.registry d).get? key = some e → (s.registry d).get? key = some e ∨
    (d = c ∧ s.entities.size ≤ e.slot ∧ (e.slot ∈ slots ∨ e.pending = false))

namespace Leaves

variable {slots slots' : List Nat}

theorem refl (s : Session T) (c : ContextId) : Leaves s s c [] :=
  ⟨fun _ => rfl, fun _ => rfl, Nat.le_refl _, fun _ _ _ => rfl, fun _ _ _ he => he,
    fun _ _ _ he => Or.inl he⟩

theorem trans (h : Leaves s s' c slots) (h' : Leaves s' s'' c slots') :
    Leaves s s'' c (slots ++ slots') where
  storeIdOf? d := (h'.storeIdOf? d).trans (h.storeIdOf? d)
  rows i := (h'.rows i).trans (h.rows i)
  size := Nat.le_trans h.size h'.size
  entity? n hn hslots := by
    rw [List.mem_append, not_or] at hslots
    exact (h'.entity? n (Nat.lt_of_lt_of_le hn h.size) hslots.2).trans (h.entity? n hn hslots.1)
  registry d key e he := h'.registry d key e (h.registry d key e he)
  added d key e he := by
    rcases h'.added d key e he with hmid | ⟨hd, hsize, hslots⟩
    · rcases h.added d key e hmid with hold | ⟨hd, hsize, hslots⟩
      · exact Or.inl hold
      · refine Or.inr ⟨hd, hsize, hslots.imp_left ?_⟩
        exact fun hslot => List.mem_append.2 (Or.inl hslot)
    · refine Or.inr ⟨hd, Nat.le_trans h.size hsize, hslots.imp_left ?_⟩
      exact fun hslot => List.mem_append.2 (Or.inr hslot)

theorem mono (h : Leaves s s' c slots) (hsub : ∀ n ∈ slots, n ∈ slots') :
    Leaves s s' c slots' where
  storeIdOf? := h.storeIdOf?
  rows := h.rows
  size := h.size
  entity? n hn hslots := h.entity? n hn fun hslot => hslots (hsub n hslot)
  registry := h.registry
  added d key e he := by
    rcases h.added d key e he with hold | ⟨hd, hsize, hslots⟩
    · exact Or.inl hold
    · exact Or.inr ⟨hd, hsize, hslots.imp_left (hsub _)⟩

theorem of_loads {rows : List (UInt64 × Row)} (h : Loads s s' c k rows) : Leaves s s' c [] := by
  refine ⟨h.storeIdOf?, fun i => by rw [h.store?], h.size, fun n hn _ => h.entity? n hn,
    h.registry, ?_⟩
  intro d key e he
  rcases h.entry d key e he with hold | ⟨hd, hsize, _, row, _, hread⟩
  · exact Or.inl hold
  · rcases hread.entry with ⟨n, rfl⟩
    exact Or.inr ⟨hd, hsize, Or.inr rfl⟩

theorem insertUnder {store : Store} (hstore : s.storeOf? c = some store) {key : UInt64}
    (hnew : (s.registry c).get? key = none) :
    Leaves s (s.insertUnder c k key) c [s.entities.size] where
  storeIdOf? _ := storeIdOf?_insertUnder
  rows i := by
    rw [store?_insertUnder]
    split
    · cases s.store? i <;> rfl
    · rfl
  size := by
    have hnew : (s.insertUnder c k key).entity? s.entities.size = some (.new k (T.blank k) true) :=
      entity?_insertUnder_new
    exact Nat.le_of_lt (lt_size_of_entity? hnew)
  entity? n hn _ := entity?_insertUnder_of_lt hn
  registry d key' e he := by
    refine (get?_insertUnder_of_ne hstore ?_).trans he
    rintro rfl rfl
    cases he.symm.trans hnew
  added d key' e he := by
    rcases entry_of_insertUnder hstore he with ⟨rfl, rfl⟩ | hold
    · exact Or.inr ⟨rfl, Nat.le_refl _, Or.inl List.mem_cons_self⟩
    · exact Or.inl hold

theorem modifyEntity (s : Session T) (c : ContextId) (slot : Nat) (f : Entity T → Entity T)
    (journal : Array Event) : Leaves s { s.modifyEntity slot f with journal } c [slot] := by
  refine ⟨fun _ => rfl, fun _ => rfl, ?_, ?_, fun _ _ _ he => he, fun _ _ _ he => Or.inl he⟩
  · exact Nat.le_of_eq (size_modifyEntity s slot f).symm
  · intro n _ hn
    exact entity?_modifyEntity_of_ne s (fun heq => hn (List.mem_singleton.2 heq)) f

end Leaves

/-- Nothing has come into the registry of the context but what is of the type. -/
structure Adds (s s' : Session T) (c : ContextId) (k : T.Kind) : Prop where
  schemaOf : s'.schemaOf c = s.schemaOf c
  settingsOf : s'.settingsOf c = s.settingsOf c
  kind : ∀ key e, (s'.registry c).get? key = some e →
    (s.registry c).get? key = some e ∨ e.kind = k

namespace Adds

theorem refl (s : Session T) (c : ContextId) (k : T.Kind) : Adds s s c k :=
  ⟨rfl, rfl, fun _ _ he => Or.inl he⟩

theorem trans (h : Adds s s' c k) (h' : Adds s' s'' c k) : Adds s s'' c k where
  schemaOf := h'.schemaOf.trans h.schemaOf
  settingsOf := h'.settingsOf.trans h.settingsOf
  kind key e he := by
    rcases h'.kind key e he with hmid | hkind
    · exact h.kind key e hmid
    · exact Or.inr hkind

theorem of_loads {rows : List (UInt64 × Row)} (h : Loads s s' c k rows) : Adds s s' c k := by
  refine ⟨h.schemaOf c, h.settingsOf c, ?_⟩
  intro key e he
  exact (h.entry c key e he).imp_right fun ⟨_, _, _, _, _, hread⟩ => hread.kind_eq

theorem insertUnder {store : Store} (hstore : s.storeOf? c = some store) {key : UInt64} :
    Adds s (s.insertUnder c k key) c k := by
  refine ⟨schemaOf_insertUnder_self, settingsOf_insertUnder_self, ?_⟩
  intro key' e he
  rcases entry_of_insertUnder hstore he with ⟨_, rfl⟩ | hold
  · exact Or.inr rfl
  · exact Or.inl hold

theorem modifyEntity (s : Session T) (c : ContextId) (k : T.Kind) (slot : Nat)
    (f : Entity T → Entity T) (journal : Array Event) :
    Adds s { s.modifyEntity slot f with journal } c k :=
  ⟨rfl, rfl, fun _ _ he => Or.inl he⟩

end Adds

end Session

end Reconcile
