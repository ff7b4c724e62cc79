import Mathlib.Data.Set.List
import Reconcile.Mapping.Relationships
import Reconcile.Proofs.Mapping.Finding
import Reconcile.Proofs.Session.Confinement

/-!
# Synchronizing fills a table

If the hook and the fill of a type are functions of the value, synchronizing with plain values does
to the values that the context sees of the type what `Filling.PlacedAll` says, and nothing else but
reading rows, taking keys and reporting.

What a plain value is reconciled with depends on what the plain values before it left in the
registry, so a context in which nobody uses the entities of the type has to stay so.
-/

namespace Reconcile

open Session

variable {T : Model} {k : T.Kind} {s s₁ s' : Session T} {scope : Scope} {field : String}

namespace Mapping

variable {M : Mapping T} {N : Type} {F : Filling (M.Plain k) (T.Value k) N} {hook : Hook T k}
  {p : M.Plain k}

/-- Hook and fill of the type are functions, and come down to filling by a key that is kept in this
field of the payload. -/
structure Functional (M : Mapping T) (k : T.Kind) (field : String) (hook : Hook T k)
    (F : Filling (M.Plain k) (T.Value k) N) : Prop where
  blank : F.blank = T.blank k
  identifies : ∀ p : M.Plain k, M.Identifies F.key? p field (F.keyOf p)
  fill : ∀ (p : M.Plain k) (v : T.Value k), ∃ v', (∀ s, hook v s = (v', s)) ∧
    ∀ nested scope this s, M.fill p nested scope this v' s = (F.fill p v, s)

/-! ## Reconciling -/

/-- A plain value was filled into its entity. -/
structure Places (s : Session T) (c : ContextId) (F : Filling (M.Plain k) (T.Value k) N)
    (p : M.Plain k) (h : Handle k) (s' : Session T) : Prop where
  placed : F.Placed (s.seen? c k) p h.id.key (s'.seen? c k)
  entry : ∃ pending, (s'.registry c).get? h.id.key = some ⟨k, h, pending⟩
  made : s.seen? c k h.id.key = none → s.entities.size ≤ h.slot ∧
    (s'.registry c).get? h.id.key = some ⟨k, h, true⟩
  leaves : s.Leaves s' c [h.slot]
  adds : s.Adds s' c k

/-- The value of the entity that was found or inserted is replaced by the filled one. -/
theorem Functional.reconcile_of_found (hF : M.Functional k field hook F) {h : Handle k}
    {pending : Bool} {v : T.Value k} (hs₁ : Sound s₁)
    (hready₁ : s₁.Ready scope.context k field Entity.Unused)
    (hfound : M.findOrInsertUnique scope p s = (some h, s₁))
    (he : (s₁.registry scope.context).get? h.id.key = some ⟨k, h, pending⟩)
    (hv : s₁.seen? scope.context k h.id.key = some v) : ∃ m journal,
      s₁.entity? h.slot = some m ∧ m.deleted = false ∧ m.Unused ∧
      M.reconcile scope p hook s =
        (some h, { s₁.modifyEntity h.slot (·.checkIn (F.fill p v)) with journal }) := by
  rcases entity_of_seen? he hv with ⟨m, hm, hlive, rfl⟩
  rcases hready₁.live _ _ m he (hs₁.lodged he).name hm hlive with ⟨_, hunused⟩
  rcases hF.fill p (m.value k) with ⟨v', hhook, hfill⟩
  have hweight : M.weight p < M.weight p + 1 := Nat.lt_succ_self _
  rcases reconcileBelow_of_functions hfound hm hunused.1 hhook
    (hfill (M.nested scope hweight) scope h.id) with ⟨journal, hresult⟩
  exact ⟨m, journal, hm, hlive, hunused, hresult⟩

/-- What is put back is what is seen from then on. -/
theorem seen?_checkIn {c : ContextId} {h : Handle k} {v' : T.Value k} {pending : Bool}
    (he : (s.registry c).get? h.id.key = some ⟨k, h, pending⟩)
    (hseen : s.seen? c k h.id.key = some v') (v : T.Value k) (journal : Array Event) :
    Session.seen? { s.checkIn h v with journal } c k h.id.key = some v := by
  rcases entity_of_seen? he hseen with ⟨m, hm, hlive, _⟩
  have hentity : Session.entity? { s.checkIn h v with journal } h.slot = some (m.checkIn v) :=
    entity?_modifyEntity_self hm _
  have hput : Session.seen? { s.checkIn h v with journal } c k h.id.key =
      some ((m.checkIn v).value k) := seen?_of_entry he rfl hentity hlive
  rw [hput]
  exact congrArg some (Entity.value_self (m.checkIn v))

theorem ready_checkIn {c : ContextId} (hready : s.Ready c k field Entity.Unused) (slot : Nat)
    (v : T.Value k) (journal : Array Event) :
    Session.Ready { s.modifyEntity slot (·.checkIn v) with journal } c k field Entity.Unused :=
  hready.modifyEntity slot (fun m => m.checkIn v) (fun _ => rfl) (fun _ hm => hm.checkIn v) journal

theorem Functional.reconcile (hF : M.Functional k field hook F) (p : M.Plain k) (hs : Sound s)
    (hnumbered : Numbered s) (hready : s.Ready scope.context k field Entity.Unused) :
    ∃ h s', M.reconcile scope p hook s = (some h, s') ∧
      s'.Ready scope.context k field Entity.Unused ∧ Places s scope.context F p h s' := by
  -- the entity is found or inserted, and then its value is replaced
  rcases (hF.identifies p).findOrInsert hs hnumbered (fun _ hm => hm.shown)
    (Entity.unused_new k) hready with ⟨h, s₁, hfound, hs₁, hready₁, htargets⟩
  rcases htargets.entry with ⟨pending, he⟩
  rcases hF.reconcile_of_found hs₁ hready₁ hfound he htargets.seen with
    ⟨_, journal, _, _, _, hresult⟩
  refine ⟨h, _, hresult, ready_checkIn hready₁ _ _ _, ⟨htargets.target, ?_, ?_⟩, ⟨pending, he⟩,
    htargets.made, ?_, htargets.adds.trans (Adds.modifyEntity s₁ scope.context k h.slot _ journal)⟩
  · rw [hF.blank]
    exact seen?_checkIn he htargets.seen _ journal
  · intro key hkey
    exact (seen?_modifyEntity_of_ne hs₁ he hkey _ journal).trans (htargets.others key hkey)
  · exact htargets.leaves_modifyEntity _ journal

/-! ## Lists of plain values -/

/-- Plain values were filled into their entities one after the other. -/
structure PlacesAll (s : Session T) (c : ContextId) (F : Filling (M.Plain k) (T.Value k) N)
    (ps : List (M.Plain k)) (hs : List (Handle k)) (s' : Session T) : Prop where
  placed : F.PlacedAll (s.seen? c k) ps (hs.map fun h => h.id.key) (s'.seen? c k)
  entry : ∀ h ∈ hs, ∃ pending, (s'.registry c).get? h.id.key = some ⟨k, h, pending⟩
  made : ∀ h ∈ hs, s.seen? c k h.id.key = none → s.entities.size ≤ h.slot ∧
    (s'.registry c).get? h.id.key = some ⟨k, h, true⟩
  leaves : s.Leaves s' c (hs.map Handle.slot)
  adds : s.Adds s' c k

section Lists

variable {c : ContextId} {h : Handle k} {ps : List (M.Plain k)} {hs : List (Handle k)}

theorem PlacesAll.nil (s : Session T) (c : ContextId) : PlacesAll s c F [] [] s :=
  ⟨.nil _, fun _ hh => absurd hh List.not_mem_nil, fun _ hh => absurd hh List.not_mem_nil,
    Leaves.refl s c, Adds.refl s c k⟩

theorem Places.cons (hplaces : Places s c F p h s₁) (hrest : PlacesAll s₁ c F ps hs s') :
    PlacesAll s c F (p :: ps) (h :: hs) s' := by
  have hkept : ∀ key e, (s₁.registry c).get? key = some e → (s'.registry c).get? key = some e :=
    hrest.leaves.registry c
  refine ⟨.cons hplaces.placed hrest.placed, ?_, ?_, hplaces.leaves.trans hrest.leaves,
    hplaces.adds.trans hrest.adds⟩
  · intro h' hh'
    rcases List.mem_cons.1 hh' with rfl | htail
    · rcases hplaces.entry with ⟨pending, he⟩
      exact ⟨pending, hkept _ _ he⟩
    · exact hrest.entry h' htail
  · intro h' hh' hnone
    rcases List.mem_cons.1 hh' with rfl | htail
    · exact ⟨(hplaces.made hnone).1, hkept _ _ (hplaces.made hnone).2⟩
    · by_cases hkey : h'.id.key = h.id.key
      · -- the entity was made for an earlier plain value of the same key
        rcases hrest.entry h' htail with ⟨pending, he⟩
        rw [hkey] at hnone he ⊢
        have hmade := hkept _ _ (hplaces.made hnone).2
        cases he.symm.trans hmade
        exact ⟨(hplaces.made hnone).1, hmade⟩
      · rw [← hplaces.placed.kept _ hkey] at hnone
        rcases hrest.made h' htail hnone with ⟨hsize, he⟩
        exact ⟨Nat.le_trans hplaces.leaves.size hsize, he⟩

theorem Functional.advances (hF : M.Functional k field hook F) (p : M.Plain k) (v : T.Value k) :
    Work.Leads Advances (hook v) := by
  rcases hF.fill p v with ⟨v', hhook, _⟩
  intro s hs
  rw [hhook]
  exact Proceeds.refl s

theorem Functional.placesAll (hF : M.Functional k field hook F) (hM : M.Lawful)
    (ps : List (M.Plain k))
    (hs : Sound s) (hnumbered : Numbered s) (hready : s.Ready scope.context k field Entity.Unused)
    (hkeys : (resolveEach ps (fun p _ => M.reconcile scope p hook) s).2.KeysLeft) :
    ∃ hs s', resolveEach ps (fun p _ => M.reconcile scope p hook) s = (hs, s') ∧
      PlacesAll s scope.context F ps hs s' := by
  induction ps generalizing s with
  | nil => exact ⟨[], s, rfl, PlacesAll.nil s _⟩
  | cons p ps ih =>
    rcases hF.reconcile p hs hnumbered hready with ⟨h, s₁, hresult, hready₁, hplaces⟩
    have hrun := (hM.reconcile scope p (hF.advances p) s hs).run
    rw [hresult] at hrun
    have hs₁ : Sound s₁ := hrun.sound hs
    rw [reconcileEach_cons hresult] at hkeys ⊢
    have hrest := (reads_advances.resolveEach
      (fun (q : M.Plain k) (_ : q ∈ ps) => hM.reconcile scope q (hF.advances q)) s₁ hs₁).run
    -- keys that are left at the end were left after the first plain value
    have hnumbered₁ := hrun.numbered hs hnumbered (hrest.keysLeft hkeys)
    rcases ih hs₁ hnumbered₁ hready₁ hkeys with ⟨hs', s', hall, hplacesAll⟩
    rw [hall]
    exact ⟨_, _, rfl, hplaces.cons hplacesAll⟩

/-- What synchronizing a list of plain values has done, position by position. -/
structure Synced [DecidableEq N] (s : Session T) (c : ContextId)
    (F : Filling (M.Plain k) (T.Value k) N) (ps : List (M.Plain k)) (hs : List (Handle k))
    (s' : Session T) : Prop where
  length : hs.length = ps.length
  key : ∀ p h, (p, h) ∈ ps.zip hs → F.key? (s'.value h) = some (F.keyOf p)
  same : ∀ p h q h', (p, h) ∈ ps.zip hs → (q, h') ∈ ps.zip hs →
    (h = h' ↔ F.keyOf p = F.keyOf q)
  /-- A key that was there resolves to the last entity that had it. -/
  found : ∀ p h, (p, h) ∈ ps.zip hs → ¬ Table.Missing F.key? (s.seen? c k) (F.keyOf p) →
    Table.Last F.key? (s.seen? c k) (F.keyOf p) h.id.key
  /-- A key that was not there resolves to an entity that was inserted for it. -/
  made : ∀ p h, (p, h) ∈ ps.zip hs → Table.Missing F.key? (s.seen? c k) (F.keyOf p) →
    s.seen? c k h.id.key = none ∧ s.entities.size ≤ h.slot ∧
      (s'.registry c).get? h.id.key = some ⟨k, h, true⟩
  filled : ∀ p h, (p, h) ∈ ps.zip hs →
    s'.value h = F.refill (F.keyOf p) ps ((s.seen? c k h.id.key).getD F.blank)
  kept : ∀ key, (∀ h ∈ hs, h.id.key ≠ key) → s'.seen? c k key = s.seen? c k key
  leaves : s.Leaves s' c (hs.map Handle.slot)

theorem value_of_seen? {v : T.Value k} {pending : Bool}
    (he : (s.registry c).get? h.id.key = some ⟨k, h, pending⟩)
    (hv : s.seen? c k h.id.key = some v) : s.value h = v := by
  rcases seen?_eq_some hv with ⟨e, m, he', _, hm, _, rfl⟩ | ⟨hnone, _⟩
  · cases he.symm.trans he'
    exact value_of_entity? hm
  · cases he.symm.trans hnone

/-- Plain values were filled into the entities of their keys, whatever else was done. -/
structure Fills (s : Session T) (c : ContextId) (F : Filling (M.Plain k) (T.Value k) N)
    (ps : List (M.Plain k)) (hs : List (Handle k)) (s' : Session T) : Prop where
  placed : F.PlacedAll (s.seen? c k) ps (hs.map fun h => h.id.key) (s'.seen? c k)
  entry : ∀ h ∈ hs, ∃ pending, (s'.registry c).get? h.id.key = some ⟨k, h, pending⟩
  made : ∀ h ∈ hs, s.seen? c k h.id.key = none → s.entities.size ≤ h.slot ∧
    (s'.registry c).get? h.id.key = some ⟨k, h, true⟩

/-- What a list of plain values resolved to, position by position. -/
structure Resolved [DecidableEq N] (s : Session T) (c : ContextId)
    (F : Filling (M.Plain k) (T.Value k) N) (ps : List (M.Plain k)) (hs : List (Handle k))
    (s' : Session T) : Prop where
  length : hs.length = ps.length
  key : ∀ p h, (p, h) ∈ ps.zip hs → F.key? (s'.value h) = some (F.keyOf p)
  same : ∀ p h q h', (p, h) ∈ ps.zip hs → (q, h') ∈ ps.zip hs →
    (h = h' ↔ F.keyOf p = F.keyOf q)
  /-- A key that was there resolves to the last entity that had it. -/
  found : ∀ p h, (p, h) ∈ ps.zip hs → ¬ Table.Missing F.key? (s.seen? c k) (F.keyOf p) →
    Table.Last F.key? (s.seen? c k) (F.keyOf p) h.id.key
  /-- A key that was not there resolves to an entity that was inserted for it. -/
  made : ∀ p h, (p, h) ∈ ps.zip hs → Table.Missing F.key? (s.seen? c k) (F.keyOf p) →
    s.seen? c k h.id.key = none ∧ s.entities.size ≤ h.slot ∧
      (s'.registry c).get? h.id.key = some ⟨k, h, true⟩
  filled : ∀ p h, (p, h) ∈ ps.zip hs →
    s'.value h = F.refill (F.keyOf p) ps ((s.seen? c k h.id.key).getD F.blank)
  kept : ∀ key, (∀ h ∈ hs, h.id.key ≠ key) → s'.seen? c k key = s.seen? c k key

theorem PlacesAll.fills (hplaces : PlacesAll s c F ps hs s') : Fills s c F ps hs s' :=
  ⟨hplaces.placed, hplaces.entry, hplaces.made⟩

theorem PlacesAll.confined (hplaces : PlacesAll s c F ps hs s') (hsound : Sound s') :
    Confined s s' c k (hs.map Handle.slot) :=
  ⟨hplaces.adds, hplaces.leaves, fun _ _ he hslot => hsound.touched hplaces.entry he hslot⟩

theorem Fills.report (hfills : Fills s c F ps hs s') (event : Event) :
    Fills s c F ps hs (s'.report event) :=
  ⟨hfills.placed, hfills.entry, hfills.made⟩

/-- What was done before and afterwards may concern other types. -/
theorem Fills.widen {s₂ : Session T} (hfills : Fills s₁ c F ps hs s₂) (hbefore : Bypasses s s₁ c k)
    (hafter : Bypasses s₂ s' c k) : Fills s c F ps hs s' where
  placed := by
    have hfirst : s₁.seen? c k = s.seen? c k := funext hbefore.seen
    have hlast : s'.seen? c k = s₂.seen? c k := funext hafter.seen
    rw [← hfirst, hlast]
    exact hfills.placed
  entry h hh := by
    rcases hfills.entry h hh with ⟨pending, he⟩
    exact ⟨pending, hafter.registry _ _ he⟩
  made h hh hnone := by
    rw [← hbefore.seen] at hnone
    rcases hfills.made h hh hnone with ⟨hsize, he⟩
    exact ⟨Nat.le_trans hbefore.size hsize, hafter.registry _ _ he⟩

/-- One key belongs to one of the entities. -/
theorem Fills.ext (hfills : Fills s c F ps hs s') {h h' : Handle k} (hh : h ∈ hs) (hh' : h' ∈ hs)
    (hkey : h.id.key = h'.id.key) : h = h' := by
  rcases hfills.entry h hh with ⟨pending, he⟩
  rcases hfills.entry h' hh' with ⟨pending', he'⟩
  rw [hkey] at he
  cases he.symm.trans he'
  rfl

/-- The context sees of an entity the plain values of its key, filled into what it saw before. -/
theorem Fills.seen [DecidableEq N] (hfills : Fills s c F ps hs s') (hat : (p, h) ∈ ps.zip hs) :
    s'.seen? c k h.id.key =
      some (F.refill (F.keyOf p) ps ((s.seen? c k h.id.key).getD F.blank)) := by
  rcases List.forall₂_iff_zip.1 (List.forall₂_map_right_iff.1 hfills.placed.resolved) with
    ⟨_, hresolved⟩
  exact hfills.placed.refilled (hresolved hat).1

theorem Fills.resolved [DecidableEq N] (hfills : Fills s c F ps hs s') :
    Resolved s c F ps hs s' := by
  rcases List.forall₂_iff_zip.1 (List.forall₂_map_right_iff.1 hfills.placed.resolved) with
    ⟨hlength, hresolved⟩
  have hmem : ∀ {p h}, (p, h) ∈ ps.zip hs → h ∈ hs := fun hat => (List.of_mem_zip hat).2
  constructor
  case length => exact hlength.symm
  case key =>
    intro p h hat
    rcases (hresolved hat).1.entry with ⟨v, hv, hkey⟩
    rcases hfills.entry h (hmem hat) with ⟨pending, he⟩
    rw [value_of_seen? he hv]
    exact hkey
  case same =>
    intro p h q h' hat hat'
    constructor
    · rintro rfl
      exact (hresolved hat).1.key (hresolved hat').1
    · intro hkey
      have hlast := (hresolved hat).1
      rw [hkey] at hlast
      exact hfills.ext (hmem hat) (hmem hat') (hlast.unique (hresolved hat').1)
  case found =>
    intro p h hat hthere
    rcases (hresolved hat).2 with hlast | ⟨_, hmissing⟩
    · exact hlast
    · exact absurd hmissing hthere
  case made =>
    intro p h hat hmissing
    rcases (hresolved hat).2 with hlast | ⟨hnone, _⟩
    · exact absurd hmissing hlast.not_missing
    · exact ⟨hnone, hfills.made h (hmem hat) hnone⟩
  case filled =>
    intro p h hat
    rcases hfills.entry h (hmem hat) with ⟨pending, he⟩
    exact value_of_seen? he (hfills.seen hat)
  case kept =>
    intro key hkey
    refine hfills.placed.kept ?_
    intro hin
    rcases List.mem_map.1 hin with ⟨h, hh, rfl⟩
    exact hkey h hh rfl

theorem PlacesAll.synced [DecidableEq N] (hplaces : PlacesAll s c F ps hs s') :
    Synced s c F ps hs s' := by
  have hresolved := hplaces.fills.resolved
  exact ⟨hresolved.length, hresolved.key, hresolved.same, hresolved.found, hresolved.made,
    hresolved.filled, hresolved.kept, hplaces.leaves⟩

end Lists

/-! ## Sets and lists -/

/-- Of the handles with one id a set keeps the first. -/
theorem get?_ofHandles (hs : List (Handle k)) (id : EntityId) :
    (MemberSet.ofHandles hs).bindings.get? id = (hs.find? fun h => h.id = id).map some := by
  -- what the set has already stays before what comes
  have hfold : ∀ set : MemberSet k, (hs.foldl (fun s h => (s.insert h).2) set).bindings.get? id =
      (set.bindings.get? id).or ((hs.find? fun h => h.id = id).map some) := by
    induction hs with
    | nil =>
      intro set
      exact (Option.or_none).symm
    | cons h hs ih =>
      intro set
      rw [List.foldl_cons, ih]
      cases hcontains : set.contains h with
      | true =>
        rw [MemberSet.insert, hcontains]
        by_cases hid : h.id = id
        · subst hid
          rcases Option.isSome_iff_exists.1 hcontains with ⟨b, hb⟩
          have hget : set.bindings.get? h.id = some b := hb
          simp [hget]
        · rw [List.find?_cons_of_neg (by simpa using hid)]
          rfl
      | false =>
        rw [MemberSet.insert, hcontains]
        by_cases hid : h.id = id
        · subst hid
          have hnone : set.bindings.get? h.id = none := SortedMap.contains_eq_false_iff.1 hcontains
          simp [hnone, SortedMap.get?_insert_self]
        · rw [List.find?_cons_of_neg (by simpa using hid)]
          have hne : id ≠ h.id := fun heq => hid heq.symm
          simp [SortedMap.get?_insert_of_ne _ _ hne]
  exact hfold .empty

theorem mem_members_iff {set : MemberSet k} {m : Member k} :
    m ∈ set.members ↔ set.bindings.get? m.id = some m.bound := by
  rw [← SortedMap.mem_toList_iff, MemberSet.members, List.mem_map]
  constructor
  · rintro ⟨entry, hin, rfl⟩
    exact hin
  · intro hin
    exact ⟨_, hin, rfl⟩

/-- If ids tell the handles apart, the set has the handles for members. -/
theorem mem_members_ofHandles {hs : List (Handle k)}
    (hext : ∀ h ∈ hs, ∀ h' ∈ hs, h.id = h'.id → h = h') {m : Member k} :
    m ∈ (MemberSet.ofHandles hs).members ↔ ∃ h ∈ hs, m = .ofHandle h := by
  rcases m with ⟨id, bound⟩
  rw [mem_members_iff, get?_ofHandles, Option.map_eq_some_iff]
  constructor
  · rintro ⟨h, hfind, rfl⟩
    have hid : h.id = id := by simpa using List.find?_some hfind
    exact ⟨h, List.mem_of_find?_eq_some hfind, by rw [← hid]; rfl⟩
  · rintro ⟨h, hh, heq⟩
    cases heq
    cases hfind : hs.find? fun h' => h'.id = h.id with
    | none =>
      have hnot := List.find?_eq_none.1 hfind h hh
      simp at hnot
    | some h' =>
      have hid : h'.id = h.id := by simpa using List.find?_some hfind
      exact ⟨h', rfl, congrArg some (hext h' (List.mem_of_find?_eq_some hfind) h hh hid)⟩

theorem Fills.mem_members {c : ContextId} {ps : List (M.Plain k)} {hs : List (Handle k)}
    (hfills : Fills s c F ps hs s') {m : Member k} :
    m ∈ (MemberSet.ofHandles hs).members ↔ ∃ h ∈ hs, m = .ofHandle h :=
  mem_members_ofHandles fun _ hh _ hh' hid => hfills.ext hh hh' (congrArg EntityId.key hid)

/-- The set has each of the entities once, in the order of the ids. -/
theorem Fills.exists_members {c : ContextId} {ps : List (M.Plain k)} {hs : List (Handle k)}
    (hfills : Fills s c F ps hs s') : ∃ members : List (Handle k),
      (MemberSet.ofHandles hs).members = members.map .ofHandle ∧ members.Nodup ∧
      ∀ h, h ∈ members ↔ h ∈ hs := by
  have hrange : (MemberSet.ofHandles hs).members ∈ Set.range (List.map Member.ofHandle) := by
    rw [Set.range_list_map]
    intro m hm
    rcases hfills.mem_members.1 hm with ⟨h, _, rfl⟩
    exact ⟨h, rfl⟩
  rcases hrange with ⟨members, hmembers⟩
  -- the set is sorted by ids, which are distinct
  have hdistinct : (MemberSet.ofHandles hs).members.Nodup := by
    refine List.pairwise_map.2 ((MemberSet.ofHandles hs).bindings.sorted.imp ?_)
    intro a b hlt heq
    have hid : a.1 = b.1 := congrArg Member.id heq
    rw [Entries.compare_eq_iff.2 hid] at hlt
    cases hlt
  refine ⟨members, hmembers.symm, ?_, ?_⟩
  · rw [← hmembers] at hdistinct
    exact hdistinct.of_map
  · intro h
    have hmem : (Member.ofHandle h : Member k) ∈ (MemberSet.ofHandles hs).members ↔ h ∈ members := by
      rw [← hmembers]
      constructor
      · intro hin
        rcases List.mem_map.1 hin with ⟨h', hh', heq⟩
        obtain rfl : h' = h := Option.some.inj (congrArg Member.bound heq)
        exact hh'
      · exact fun hin => List.mem_map.2 ⟨h, hin, rfl⟩
    rw [← hmem, hfills.mem_members]
    constructor
    · rintro ⟨h', hh', heq⟩
      obtain rfl : h = h' := Option.some.inj (congrArg Member.bound heq)
      exact hh'
    · exact fun hh => ⟨h, hh, rfl⟩

/-- Synchronizing a list and synchronizing a set end at the same entities, which the list has at
their positions and the set has once. -/
theorem Functional.sync [DecidableEq N] (hF : M.Functional k field hook F) (hM : M.Lawful)
    (ps : List (M.Plain k)) (hs : Sound s) (hnumbered : Numbered s)
    (hready : s.Ready scope.context k field Entity.Unused)
    (hkeys : (M.syncList scope ps hook s).2.KeysLeft) : ∃ hs s',
      M.syncList scope ps hook s = (MemberList.ofHandles hs,
        s'.report (.reconciled .list (T.entityName k) ps.length hs.length)) ∧
      M.syncSet scope ps hook s = (MemberSet.ofHandles hs,
        s'.report (.reconciled .set (T.entityName k) ps.length (MemberSet.ofHandles hs).size)) ∧
      (∀ m, m ∈ (MemberSet.ofHandles hs).members ↔ ∃ h ∈ hs, m = .ofHandle h) ∧
      Synced s scope.context F ps hs s' := by
  have hkeys' : (resolveEach ps (fun p _ => M.reconcile scope p hook) s).2.KeysLeft :=
    fun event hevent => hkeys event (Array.mem_push.2 (Or.inl hevent))
  rcases hF.placesAll hM ps hs hnumbered hready hkeys' with ⟨hs, s', hall, hplaces⟩
  refine ⟨hs, s', ?_, ?_, fun m => hplaces.fills.mem_members, hplaces.synced⟩
  · rw [syncList, MemberList.build, Work.bind_apply, hall]
    have hlength : (MemberList.ofHandles hs).length = hs.length := List.length_map _
    rw [← hlength]
    rfl
  · rw [syncSet, MemberSet.build, Work.bind_apply, hall]
    rfl

/-- Members that are to be shared by other entities are synchronized within the fill of one of
these, so it matters that nothing else is touched. -/
theorem Functional.syncSet (hF : M.Functional k field hook F) (hM : M.Lawful)
    (ps : List (M.Plain k)) (hs : Sound s) (hnumbered : Numbered s)
    (hready : s.Ready scope.context k field Entity.Unused)
    (hkeys : (M.syncSet scope ps hook s).2.KeysLeft) : ∃ hs s',
      M.syncSet scope ps hook s = (MemberSet.ofHandles hs, s') ∧
      Fills s scope.context F ps hs s' ∧
      Confined s s' scope.context k (hs.map Handle.slot) := by
  have hkeys' : (resolveEach ps (fun p _ => M.reconcile scope p hook) s).2.KeysLeft :=
    fun event hevent => hkeys event (Array.mem_push.2 (Or.inl hevent))
  have hrun := (reads_advances.resolveEach
    (fun (p : M.Plain k) (_ : p ∈ ps) => hM.reconcile scope p (hF.advances p)) s hs).run
  rcases hF.placesAll hM ps hs hnumbered hready hkeys' with ⟨found, s', hall, hplaces⟩
  rw [hall] at hrun
  have hsync : M.syncSet scope ps hook s = (MemberSet.ofHandles found,
      s'.report (.reconciled .set (T.entityName k) ps.length (MemberSet.ofHandles found).size)) := by
    rw [Mapping.syncSet, MemberSet.build, Work.bind_apply, hall]
    rfl
  exact ⟨found, _, hsync, hplaces.fills.report _, (hplaces.confined (hrun.sound hs)).report _⟩

/-- A reference that is shared is synchronized like a list of one value at most. -/
theorem Functional.syncOne (hF : M.Functional k field pure F) (hM : M.Lawful)
    (reference : Option (ToOne k)) (p : Option (M.Plain k)) (hs : Sound s)
    (hnumbered : Numbered s) (hready : s.Ready scope.context k field Entity.Unused) : ∃ hs s',
      M.syncOne scope reference p s = ((hs.head?, ToOne.pointTo reference hs.head?), s') ∧
      Fills s scope.context F p.toList hs s' ∧
      Confined s s' scope.context k (hs.map Handle.slot) := by
  cases p with
  | none =>
    exact ⟨[], s, rfl, (PlacesAll.nil s _).fills, Confined.refl s _ k⟩
  | some p =>
    rcases hF.reconcile p hs hnumbered hready with ⟨h, s', hresult, _, hplaces⟩
    have hrun := (hM.reconcile scope p (hF.advances p) s hs).run
    rw [hresult] at hrun
    have hall : PlacesAll s scope.context F [p] [h] s' := hplaces.cons (PlacesAll.nil s' _)
    refine ⟨[h], s', ?_, hall.fills, hall.confined (hrun.sound hs)⟩
    simp only [Mapping.syncOne, Work.bind_apply, hresult]
    rfl

end Mapping

end Reconcile
