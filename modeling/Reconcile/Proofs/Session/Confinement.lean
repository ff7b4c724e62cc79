import Reconcile.Proofs.Session.Readiness

/-!
# Work on one type of entities

Work that only touches entities of one type (`Confined`) leaves the other types alone, as long as
they go by other names and no key is shared: the context sees the same of them before and after, and
what could be found before can be found afterwards.
-/

namespace Reconcile

namespace Session

variable {T : Model} {s s' s'' : Session T} {c d : ContextId} {k l : T.Kind} {key : UInt64}
  {e : Entry T} {slots slots' : List Nat} {hs : List (Handle k)}

theorem Leaves.rowsOf (h : Leaves s s' c slots) (d : ContextId) : s'.rowsOf d = s.rowsOf d := by
  have hrows : (s'.storeOf? d).map Store.rows = (s.storeOf? d).map Store.rows := by
    rw [storeOf?_eq, storeOf?_eq, h.storeIdOf?]
    cases s.storeIdOf? d with
    | none => rfl
    | some i => exact h.rows i
  have hread : ∀ a : Session T, a.rowsOf d = ((a.storeOf? d).map Store.rows).getD .empty := by
    intro a
    cases hstore : a.storeOf? d <;> simp [Session.rowsOf, hstore]
  rw [hread, hrows, hread]

/-! ## Contexts in order -/

/-- Ids are numbered, and no row that the context reads shares its key with an entity of another id
in the registry. -/
structure OrderedIn (s : Session T) (c : ContextId) : Prop where
  sound : Sound s
  numbered : Numbered s
  registered : ∀ id e, ((s.rowsOf c).row? id).isSome → (s.registry c).get? id.key = some e →
    e.id = id

theorem Ordered.orderedIn (h : Ordered s) (c : ContextId) : s.OrderedIn c where
  sound := h.sound
  numbered := h.numbered
  registered id e hsome he := by
    rcases Option.isSome_iff_exists.1 hsome with ⟨row, hrow⟩
    exact h.unambiguous.id_eq h.sound hrow he

/-- Whatever is done without imports, the context is in order as long as it reads the same rows and
keys are left. -/
def KeepsOrder (s : Session T) (c : ContextId) : Prop :=
  ∀ s', Run Deed.Native s s' → s'.KeysLeft → s'.rowsOf c = s.rowsOf c → s'.OrderedIn c

theorem KeepsOrder.later (h : s.KeepsOrder c) (hrun : Run Deed.Native s s')
    (hrows : s'.rowsOf c = s.rowsOf c) : s'.KeepsOrder c :=
  fun s'' hrun' hkeys hrows' => h s'' (hrun.trans hrun') hkeys (hrows'.trans hrows)

theorem keepsOrder_of_native (hrun : Run Deed.Native .empty s) (c : ContextId) : s.KeepsOrder c :=
  fun _ hlater hkeys _ => ((hrun.trans hlater).ordered ordered_empty hkeys).orderedIn c

/-- Without rows there is nothing that an entity could share its key with, imports or not. -/
theorem keepsOrder_of_no_rows (hrun : Run (fun _ => True) .empty s) (hrows : s.rowsOf c = .empty) :
    s.KeepsOrder c := by
  intro s' hlater hkeys hsame
  have hrun' := hrun.trans (hlater.mono fun _ _ => trivial)
  refine ⟨hrun'.sound sound_empty, hrun'.numbered sound_empty numbered_empty hkeys, ?_⟩
  intro id e hsome
  rw [hsame, hrows] at hsome
  cases hsome

/-! ## Work on one type -/

/-- These entities, which are all of the type, and what was read or inserted of the type, are all
that work in the context has touched. -/
structure Confined (s s' : Session T) (c : ContextId) (k : T.Kind) (slots : List Nat) : Prop
    extends Adds s s' c k where
  leaves : Leaves s s' c slots
  touched : ∀ key e, (s'.registry c).get? key = some e → e.slot ∈ slots → e.kind = k

/-- The slots of handles that are registered belong to entities of their type. -/
theorem Sound.touched (hsound : Sound s)
    (hentry : ∀ h ∈ hs, ∃ pending, (s.registry c).get? h.id.key = some ⟨k, h, pending⟩)
    (he : (s.registry c).get? key = some e) (hslot : e.slot ∈ hs.map Handle.slot) :
    e.kind = k := by
  rcases List.mem_map.1 hslot with ⟨h, hh, hsame⟩
  rcases hentry h hh with ⟨pending, hregistered⟩
  rcases hsound.slots hregistered he hsame with ⟨_, hkey⟩
  rw [hkey, he] at hregistered
  cases hregistered
  rfl

/-- What the context sees of the type stays, and so do its entities of the type and what it has
registered. -/
structure Bypasses (s s' : Session T) (c : ContextId) (k : T.Kind) : Prop where
  seen : ∀ key, s'.seen? c k key = s.seen? c k key
  registry : ∀ key e, (s.registry c).get? key = some e → (s'.registry c).get? key = some e
  entity? : ∀ key e, (s.registry c).get? key = some e → e.kind = k →
    s'.entity? e.slot = s.entity? e.slot
  size : s.entities.size ≤ s'.entities.size

namespace Bypasses

theorem refl (s : Session T) (c : ContextId) (k : T.Kind) : Bypasses s s c k :=
  ⟨fun _ => rfl, fun _ _ he => he, fun _ _ _ _ => rfl, Nat.le_refl _⟩

theorem trans (h : Bypasses s s' c k) (h' : Bypasses s' s'' c k) : Bypasses s s'' c k where
  seen key := (h'.seen key).trans (h.seen key)
  registry key e he := h'.registry key e (h.registry key e he)
  entity? key e he hkind :=
    (h'.entity? key e (h.registry key e he) hkind).trans (h.entity? key e he hkind)
  size := Nat.le_trans h.size h'.size

end Bypasses

namespace Confined

theorem refl (s : Session T) (c : ContextId) (k : T.Kind) : Confined s s c k [] :=
  ⟨Adds.refl s c k, Leaves.refl s c, fun _ _ _ hslot => absurd hslot List.not_mem_nil⟩

theorem of_loads {rows : List (UInt64 × Row)} (h : Loads s s' c k rows) : Confined s s' c k [] :=
  ⟨Adds.of_loads h, Leaves.of_loads h, fun _ _ _ hslot => absurd hslot List.not_mem_nil⟩

theorem trans (h : Confined s s' c k slots) (h' : Confined s' s'' c k slots') :
    Confined s s'' c k (slots ++ slots') := by
  refine ⟨h.toAdds.trans h'.toAdds, h.leaves.trans h'.leaves, ?_⟩
  intro key e he hslot
  rcases List.mem_append.1 hslot with hfirst | hsecond
  · rcases h'.kind key e he with hmid | hkind
    · exact h.touched key e hmid hfirst
    · exact hkind
  · exact h'.touched key e he hsecond

theorem report (h : Confined s s' c k slots) (event : Event) :
    Confined s (s'.report event) c k slots := by
  have hreport : Confined s' (s'.report event) c k [] :=
    of_loads (Loads.journal s' c k [] _)
  exact List.append_nil slots ▸ h.trans hreport

/-! ## Other types -/

variable (h : Confined s s' c k slots)

include h

theorem entity?_of_other (hsound : Sound s) (he : (s.registry c).get? key = some e)
    (hkind : e.kind ≠ k) : s'.entity? e.slot = s.entity? e.slot := by
  rcases (hsound.lodged he).entity with ⟨m, hm, _⟩
  refine h.leaves.entity? _ (lt_size_of_entity? hm) ?_
  intro hslot
  exact hkind (h.touched key e (h.leaves.registry c key e he) hslot)

/-- What is seen of a type of another name. -/
theorem seen?_of_other (hsound : Sound s) (hordered : s'.OrderedIn c)
    (hname : T.entityName l ≠ T.entityName k) : s'.seen? c l key = s.seen? c l key := by
  have hkind : ∀ e : Entry T, e.kind = k → e.kind ≠ l := by
    rintro e rfl rfl
    exact hname rfl
  cases he : (s.registry c).get? key with
  | some e =>
    have he' := h.leaves.registry c key e he
    by_cases hk : e.kind = k
    · -- an entity of the type is not seen as one of the other, whatever was done to it
      simp [seen?, he, he', hkind e hk]
    · exact seen?_congr he he' (h.entity?_of_other hsound he hk)
  | none =>
    rw [seen?_of_row he]
    cases he' : (s'.registry c).get? key with
    | none => rw [seen?_of_row he', h.leaves.rowsOf]
    | some e =>
      have hk : e.kind = k := by
        rcases h.kind key e he' with hold | hk
        · cases he.symm.trans hold
        · exact hk
      have hlodged := hordered.sound.lodged he'
      -- the key is taken by what came in, so no row of the other name has it
      have hrow : (s.rowsOf c).row? ⟨T.entityName l, key⟩ = none := by
        cases hrow : (s.rowsOf c).row? ⟨T.entityName l, key⟩ with
        | none => rfl
        | some row =>
          rw [← h.leaves.rowsOf] at hrow
          have hid := hordered.registered _ e (by rw [hrow]; rfl) he'
          have hcall := hlodged.name
          rw [hid, hk] at hcall
          exact absurd hcall hname
      rw [hrow]
      simp [seen?, he', hkind e hk]

theorem bypasses (hsound : Sound s) (hordered : s'.OrderedIn c)
    (hname : T.entityName l ≠ T.entityName k) : Bypasses s s' c l where
  seen _ := h.seen?_of_other hsound hordered hname
  registry := h.leaves.registry c
  entity? key e he hkind := by
    refine h.entity?_of_other hsound he ?_
    rintro rfl
    exact hname (congrArg T.entityName hkind.symm)
  size := h.leaves.size

/-- What can be looked up of a type of another name. -/
theorem ready (hsound : Sound s) (hsound' : Sound s') (hname : T.entityName l ≠ T.entityName k)
    {field : String} {P : Entity T → Prop} (hready : s.Ready c l field P) :
    s'.Ready c l field P where
  pending := by
    rw [takesPending, h.settingsOf]
    exact hready.pending
  described := by
    rw [h.schemaOf]
    exact hready.described
  readable _ _ := hready.readable_of_registry
    (fun key e he => ⟨e, h.leaves.registry c key e he⟩) (h.leaves.rowsOf c)
  live key e m he hentity hm hlive := by
    have hcall := (hsound'.lodged he).name
    have hkind : e.kind ≠ k := by
      intro hkind
      exact hname (hentity.symm.trans (hkind ▸ hcall))
    rcases h.kind key e he with hold | hk
    · rw [h.entity?_of_other hsound hold hkind] at hm
      exact hready.live key e m hold hentity hm hlive
    · exact absurd hk hkind

end Confined

end Session

end Reconcile
