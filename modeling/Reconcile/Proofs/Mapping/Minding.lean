import Reconcile.Proofs.Mapping.Synchronizing
import Reconcile.Proofs.Session.Minding

/-!
# Synchronizing minds its own

Members are looked up in the context that works, whoever read the field.  One that is bound may be
bound to an entity of another context, which no deletion then reaches.  So replacing what a
relationship owns, and synchronizing it, mind the entities of the context, if hooks and fills do
(`Mapping.Minds`).

A fill looks up its own entity, and goes through what stands in for it.  What stands in was read from
a payload in the context, so its relationships are at home there, and the entity is pinned to its key
for the time of the fill.
-/

namespace Reconcile

variable {T : Model} [Bonded T] {α β : Type} {k : T.Kind} {o : Purview} {pre : Prop}
  {scope : Scope}

open Session

/-! ## Bonds -/

theorem vouched_append {owners : Owners} {bonds bonds' : List Bond} :
    Vouched owners (bonds ++ bonds') ↔ Vouched owners bonds ∧ Vouched owners bonds' :=
  List.forall_mem_append

theorem vouched_fieldBonds {R : Type} {owners : Owners} {bonds : R → List Bond}
    {field : Option R} : Vouched owners (fieldBonds bonds field) ↔
      ∀ r, field = some r → Vouched owners (bonds r) := by
  cases field <;> simp [fieldBonds, Vouched]

omit [Bonded T] in
theorem vouched_member_iff {owners : Owners} {m : Member k} :
    Vouched owners m.bonds ↔ ∀ h, m.bound = some h → h.bond.Genuine owners := by
  rcases m with ⟨id, bound⟩
  cases bound <;> simp [Vouched, Member.bonds]

omit [Bonded T] in
theorem vouched_toMany_iff {owners : Owners} {R : T.Kind → Type} [ToMany R] {r : R k} :
    Vouched owners (ToMany.bonds r) ↔ ∀ m ∈ ToMany.members r, Vouched owners m.bonds :=
  List.forall_mem_flatMap

omit [Bonded T] in
theorem vouched_ofHandle {owners : Owners} {h : Handle k} (hgenuine : h.bond.Genuine owners) :
    Vouched owners (ToOne.ofHandle h).bonds :=
  vouched_member_iff.2 fun h' hh' => by cases hh'; exact hgenuine

omit [Bonded T] in
theorem vouched_pointTo {owners : Owners} {field : Option (ToOne k)} {found : Option (Handle k)}
    (hfield : ∀ r, field = some r → Vouched owners r.bonds)
    (hfound : ∀ h, found = some h → h.bond.Genuine owners) :
    ∀ r, ToOne.pointTo field found = some r → Vouched owners r.bonds := by
  intro r hr
  cases found with
  | none => exact hfield r hr
  | some h =>
    cases hr
    exact vouched_ofHandle (hfound h rfl)

omit [Bonded T] in
theorem vouched_list {owners : Owners} {hs : List (Handle k)}
    (hgenuine : ∀ h ∈ hs, h.bond.Genuine owners) :
    Vouched owners (ToMany.bonds (MemberList.ofHandles hs)) := by
  refine vouched_toMany_iff.2 ?_
  intro m hm
  rcases List.mem_map.1 hm with ⟨h, hh, rfl⟩
  exact vouched_ofHandle (hgenuine h hh)

omit [Bonded T] in
theorem vouched_set {owners : Owners} {hs : List (Handle k)}
    (hgenuine : ∀ h ∈ hs, h.bond.Genuine owners) :
    Vouched owners (ToMany.bonds (MemberSet.ofHandles hs)) := by
  refine vouched_toMany_iff.2 ?_
  intro m hm
  have hget := Mapping.mem_members_iff.1 hm
  rw [Mapping.get?_ofHandles] at hget
  rcases Option.map_eq_some_iff.1 hget with ⟨h, hfind, hbound⟩
  refine vouched_member_iff.2 ?_
  intro h' hh'
  cases hbound.trans hh'
  exact hgenuine h (List.mem_of_find?_eq_some hfind)

namespace Work

/-! ## Binding members -/

/-- A member that is bound stays bound, and one that is not is bound to an entity of the context. -/
theorem minds_bindIn (hscope : scope.context = o.context) (m : Member k) :
    Work.Minds (T := T) o (Vouched o.owners m.bonds)
      (fun out => (∀ h, out.1 = some h → h.bond.Genuine o.owners) ∧
        Vouched o.owners out.2.bonds) (m.bindIn scope) := by
  rcases m with ⟨id, bound⟩
  cases bound with
  | some h =>
    refine minds_pure ?_
    intro hvouched
    exact ⟨vouched_member_iff.1 hvouched, hvouched⟩
  | none =>
    refine (minds_locate hscope k id).bind ?_
    intro found
    cases found with
    | ok h =>
      refine minds_pure ?_
      rintro ⟨_, hfound⟩
      have hgenuine : ∀ h', some h = some h' → h'.bond.Genuine o.owners := by
        intro h' hh'
        cases hh'
        exact (hfound h rfl).1.1
      exact ⟨hgenuine, vouched_member_iff.2 hgenuine⟩
    | error fault =>
      refine (minds_report _).bind fun _ => minds_pure ?_
      intro hpre
      exact ⟨fun h hh => (by cases hh), hpre.1.1⟩

/-- A member of a field that was read in the context. -/
theorem minds_bindMember {source : Option ContextId} (hsource : ∀ d ∈ source, d = o.context)
    (m : Member k) : Work.Minds (T := T) o (Vouched o.owners m.bonds)
      (fun out => Vouched o.owners out.2.bonds) (m.bind source) := by
  unfold Member.bind
  split
  · exact minds_pure id
  · refine minds_get ?_
    intro s
    split
    · next c hc =>
      have hhome : (Scope.within c).context = o.context :=
        hsource c (Option.filter_eq_some_iff.1 hc).1
      exact (minds_bindIn hhome m).imp id fun _ _ h => h.2
    · exact (minds_report _).bind fun _ => minds_pure And.left

/-- The entity that a reference which was read in the context points at. -/
theorem minds_target {r : ToOne k} (hsource : ∀ d ∈ r.source, d = o.context) :
    Work.Minds (T := T) o (Vouched o.owners r.bonds) (fun out => Vouched o.owners out.2.bonds)
      r.target := (minds_bindMember hsource r.member).bind fun _ => minds_pure And.right

theorem minds_bindAll {source : Option ContextId} (hsource : ∀ d ∈ source, d = o.context)
    (ms : List (Member k)) :
    Work.Minds (T := T) o (∀ m ∈ ms, Vouched o.owners m.bonds)
      (fun out => ∀ m ∈ out.2, Vouched o.owners m.bonds) (Member.bindAll source ms) := by
  induction ms with
  | nil => exact minds_pure id
  | cons m rest ih =>
    refine ((minds_bindMember hsource m).imp (fun h => h m List.mem_cons_self)
      fun _ _ => id).bind fun found => ?_
    refine (ih.imp (fun h m hm => h.1 m (List.mem_cons_of_mem _ hm))
      fun _ _ => id).bind fun others => minds_pure ?_
    rintro ⟨⟨_, hfirst⟩, hothers⟩
    exact List.forall_mem_cons.2 ⟨hfirst, hothers⟩

/-- The members of a list that was read in the context. -/
theorem minds_handles {l : MemberList k} (hsource : ∀ d ∈ l.source, d = o.context) :
    Work.Minds (T := T) o (Vouched o.owners (ToMany.bonds l))
      (fun out => Vouched o.owners (ToMany.bonds out.2)) (ToMany.handles l) := by
  refine ((minds_bindAll hsource l.members).imp vouched_toMany_iff.1 fun _ _ => id).bind
    fun found => minds_pure ?_
  rintro ⟨_, hbound⟩
  exact vouched_toMany_iff.2 hbound

theorem minds_bindDistinctIn (hscope : scope.context = o.context) (seen : List EntityId)
    (ms : List (Member k)) :
    Work.Minds (T := T) o (∀ m ∈ ms, Vouched o.owners m.bonds)
      (fun out => ∀ h ∈ out.1, h.bond.Genuine o.owners) (Member.bindDistinctIn scope seen ms) := by
  induction ms generalizing seen with
  | nil => exact minds_pure fun _ h hh => absurd hh List.not_mem_nil
  | cons m rest ih =>
    unfold Member.bindDistinctIn
    have hrest : ∀ seen, Work.Minds (T := T) o (∀ m' ∈ m :: rest, Vouched o.owners m'.bonds)
        (fun out => ∀ h ∈ out.1, h.bond.Genuine o.owners)
        (Member.bindDistinctIn scope seen rest) := fun seen =>
      (ih seen).imp (fun h m' hm' => h m' (List.mem_cons_of_mem _ hm')) fun _ _ => id
    split
    · exact (hrest seen).bind fun others => minds_pure And.right
    · refine ((minds_bindIn hscope m).imp (fun h => h m List.mem_cons_self)
        fun _ _ => id).bind fun found => ?_
      refine ((hrest _).imp And.left fun _ _ => id).bind fun others => minds_pure ?_
      rintro ⟨⟨_, hfound, _⟩, hothers⟩ h hh
      rcases List.mem_append.1 hh with hfirst | hlater
      · exact hfound h (Option.mem_toList.1 hfirst)
      · exact hothers h hlater

theorem minds_resolveOne (hscope : scope.context = o.context) (r : ToOne k) :
    Work.Minds (T := T) o (Vouched o.owners r.bonds)
      (fun out => (∀ h, out.1 = some h → h.bond.Genuine o.owners) ∧
        Vouched o.owners out.2.bonds) (r.resolveIn scope) :=
  (minds_bindIn hscope r.member).bind fun _ => minds_pure And.right

section ToMany

variable {R : T.Kind → Type} [ToMany R]

theorem minds_resolveIn (hscope : scope.context = o.context) (r : R k) :
    Work.Minds (T := T) o (Vouched o.owners (ToMany.bonds r))
      (fun out => ∀ h ∈ out.1, h.bond.Genuine o.owners) (ToMany.resolveIn scope r) :=
  ((minds_bindDistinctIn hscope [] (ToMany.members r)).imp vouched_toMany_iff.1
    fun _ _ => id).bind fun _ => minds_pure And.right

/-! ## Deleting and replacing -/

/-- Members that are bound elsewhere are left alone. -/
theorem minds_deleteAll (hscope : scope.context = o.context) (r : R k) :
    Work.Minds (T := T) o (Vouched o.owners (ToMany.bonds r)) (fun _ => True)
      (scope.deleteAll r) := by
  refine (minds_resolveIn hscope r).bind fun found => ?_
  refine ((minds_deleteEach hscope found.1).imp And.right fun _ _ => id).bind fun _ => ?_
  exact minds_pure fun _ => trivial

theorem minds_deleteCascade (hscope : scope.context = o.context) {field : Option (R k)}
    (hfield : pre → ∀ r, field = some r → Vouched o.owners (ToMany.bonds r)) :
    Work.Minds (T := T) o pre (fun _ => True) (scope.deleteCascade field) := by
  cases field with
  | none => exact minds_pure fun _ => trivial
  | some r =>
    exact ((minds_deleteAll hscope r).imp (fun hpre => hfield hpre r rfl) fun _ _ => id).bind
      fun _ => minds_report _

theorem minds_replaceAll (hscope : scope.context = o.context) {field : Option (R k)}
    (hfield : pre → ∀ r, field = some r → Vouched o.owners (ToMany.bonds r))
    {P : R k → Prop} {rebuild : Option (Work T (R k))}
    (hrebuild : ∀ build, rebuild = some build → build.Minds o pre P) :
    Work.Minds (T := T) o pre (fun out => ∀ r, out = some r → P r)
      (scope.replaceAll field rebuild) := by
  refine (minds_deleteCascade hscope hfield).bind fun _ => ?_
  cases rebuild with
  | none => exact minds_pure fun _ r hr => by cases hr
  | some build =>
    refine ((hrebuild build rfl).imp And.left fun _ _ => id).bind fun built => minds_pure ?_
    rintro ⟨_, hbuilt⟩ r hr
    cases hr
    exact hbuilt

end ToMany

theorem minds_pointToRebuilt {rebuild : Option (Work T (Option (Handle k)))} :
    (∀ build, rebuild = some build →
      build.Minds o pre fun found => ∀ h, found = some h → h.Own o) →
    Work.Minds (T := T) o pre (fun out => ∀ r, out.2 = some r → Vouched o.owners r.bonds)
      (match rebuild with
      | some build => do
        let found ← build
        return (found, ToOne.pointTo none found)
      | none => return (none, none) : Work T (Option (Handle k) × Option (ToOne k))) := by
  intro hrebuild
  cases rebuild with
  | none => exact minds_pure fun _ r hr => by cases hr
  | some build =>
    refine (hrebuild build rfl).bind fun found => minds_pure ?_
    rintro ⟨_, hfound⟩
    exact vouched_pointTo (fun r hr => by cases hr) fun h hh => (hfound h hh).1

theorem minds_replaceOne (hscope : scope.context = o.context) {field : Option (ToOne k)}
    (hfield : pre → ∀ r, field = some r → Vouched o.owners r.bonds)
    {rebuild : Option (Work T (Option (Handle k)))}
    (hrebuild : ∀ build, rebuild = some build →
      build.Minds o pre fun found => ∀ h, found = some h → h.Own o) :
    Work.Minds (T := T) o pre (fun out => ∀ r, out.2 = some r → Vouched o.owners r.bonds)
      (scope.replaceOne field rebuild) := by
  have hrest := minds_pointToRebuilt hrebuild
  cases field with
  | none => exact hrest
  | some r =>
    refine ((minds_resolveOne hscope r).imp (fun hpre => hfield hpre r rfl)
      fun _ _ => id).bind fun previous => ?_
    rcases previous with ⟨previous, r'⟩
    cases previous with
    | none => exact hrest.imp And.left fun _ _ => id
    | some h =>
      refine ((minds_deleteOrReport hscope h).imp (fun hpre => hpre.2.1 h rfl)
        fun _ _ => id).bind fun _ => ?_
      exact hrest.imp (fun hpre => hpre.1.1) fun _ _ => id

/-! ## Building -/

section Build

variable {ps : List α} {step : (p : α) → p ∈ ps → Work T (Option (Handle k))}
  (hstep : ∀ p hp, (step p hp).Minds o pre fun found => ∀ h, found = some h → h.Own o)
include hstep

theorem minds_resolveEach : Work.Minds (T := T) o pre (fun found => ∀ h ∈ found, h.Own o)
    (resolveEach ps step) := by
  induction ps with
  | nil => exact minds_pure fun _ h hh => absurd hh List.not_mem_nil
  | cons p rest ih =>
    refine (hstep p List.mem_cons_self).bind fun found => ?_
    refine ((ih fun q hq => hstep q (List.mem_cons_of_mem _ hq)).imp And.left
      fun _ _ => id).bind fun others => minds_pure ?_
    rintro ⟨⟨_, hfound⟩, hothers⟩ h hh
    rcases List.mem_append.1 hh with hfirst | hlater
    · exact hfound h (Option.mem_toList.1 hfirst)
    · exact hothers h hlater

theorem minds_buildSet : Work.Minds (T := T) o pre (fun set => Vouched o.owners (ToMany.bonds set))
    (MemberSet.build ps step) := by
  refine (minds_resolveEach hstep).bind fun found => (minds_report _).bind fun _ => minds_pure ?_
  rintro ⟨⟨_, hfound⟩, _⟩
  exact vouched_set fun h hh => (hfound h hh).1

theorem minds_buildList : Work.Minds (T := T) o pre
    (fun list => Vouched o.owners (ToMany.bonds list)) (MemberList.build ps step) := by
  refine (minds_resolveEach hstep).bind fun found => (minds_report _).bind fun _ => minds_pure ?_
  rintro ⟨⟨_, hfound⟩, _⟩
  exact vouched_list fun h hh => (hfound h hh).1

end Build

end Work

/-! ## Reconciling -/

/-- The hook minds the context's own if the value that it is given refers to genuine handles. -/
structure Hook.Minds (o : Purview) (pre : Prop) (hook : Hook T k) : Prop where
  advances : ∀ v, (hook v).Leads Advances
  minds : ∀ v, Work.Minds o (pre ∧ Genuine o.owners v) (Genuine o.owners) (hook v)

theorem Hook.Minds.imp {pre' : Prop} {hook : Hook T k} (hhook : hook.Minds o pre)
    (hpre : pre' → pre) : hook.Minds o pre' where
  advances := hhook.advances
  minds v := (hhook.minds v).imp (fun h => ⟨hpre h.1, h.2⟩) fun _ _ => id

/-- A hook that only changes the value. -/
theorem Hook.minds_of_function {g : T.Value k → T.Value k}
    (hg : pre → ∀ v, Genuine o.owners v → Genuine o.owners (g v)) :
    Hook.Minds o pre fun v => return g v where
  advances v := reads_advances.pure (g v)
  minds v := Work.minds_pure fun hpre => hg hpre.1 v hpre.2

namespace Mapping

variable {M : Mapping T} {s s₁ s₂ : Session T} {h : Handle k} {p : M.Plain k} {bound : Nat}
  {hook : Hook T k}

omit [Bonded T] in
/-- What is found or inserted is in the registry. -/
theorem registered_of_findOrInsertUnique (hs : Sound s)
    (hfound : M.findOrInsertUnique scope p s = (some h, s₁)) :
    ∃ e, (s₁.registry scope.context).get? h.id.key = some e ∧ e.slot = h.slot := by
  rcases hfind : M.findUnique scope p s with ⟨found, s'⟩
  cases found with
  | some h' =>
    rw [findOrInsertUnique_of_found hfind] at hfound
    cases hfound
    rcases findUnique_eq_some hfind with ⟨key, found, _, hfetch, hlast⟩
    have hspec := fetch_spec hs scope k (.matching (T.entityName k) key.filter)
    rw [hfetch] at hspec
    rcases ((hspec.2 found s₁ rfl).mem_iff (hspec.1.sound hs)).1 (List.mem_of_getLast? hlast) with
      ⟨e, payload, he, hmatch⟩
    refine ⟨e, he, ?_⟩
    have hhandle : h = ⟨e.handle.slot, e.handle.id, e.handle.context⟩ := (matchOf?_eq_some hmatch).1
    rw [hhandle]
    rfl
  | none =>
    rw [findOrInsertUnique_of_none hfind] at hfound
    rcases insert_cases scope k s' with ⟨fault, hfault, _⟩ | ⟨store, hstore, hinsert⟩
    · simp only [Scope.insertOrReport, Work.bind_apply, hfault] at hfound
      cases hfound
    · simp only [Scope.insertOrReport, Work.bind_apply, hinsert] at hfound
      cases hfound
      exact ⟨_, get?_insertUnder_new hstore, rfl⟩

/-- An entity that was taken out to be filled. -/
structure Taken (o : Purview) (s : Session T) (h : Handle k) : Prop where
  own : h.Own o
  entry : ∃ e, (s.registry o.context).get? h.id.key = some e ∧ e.slot = h.slot
  unpinned : ∀ key, (key, h.slot) ∉ o.pins

omit [Bonded T] in
theorem Taken.apart (htaken : Taken o s h) (hapart : Apart o.owners o.context s s₁) :
    Taken o s₁ h := by
  rcases htaken.entry with ⟨e, he, hslot⟩
  exact ⟨htaken.own, ⟨e, hapart.kept _ _ he, hslot⟩, htaken.unpinned⟩

/-- Shows a preview of the entity and then fills it. -/
def showAndFill (M : Mapping T) (scope : Scope) (p : M.Plain k)
    (nested : Reconciler T M.Plain M.weight (M.weight p)) (item : Handle k) (v : T.Value k) :
    Work T (T.Value k) := do
  scope.showPreview item v (M.naturalKey p)
  M.fill p nested scope item.id v

/-- Reconciling minds the context's own, whatever is pinned meanwhile. -/
def Nests (M : Mapping T) (scope : Scope) {bound : Nat}
    (nested : Reconciler T M.Plain M.weight bound) : Prop :=
  ∀ {o : Purview} {pre : Prop}, scope.context = o.context →
    ∀ (k : T.Kind) (q : M.Plain k) (hq : M.weight q < bound) (hook : Hook T k), hook.Minds o pre →
      Work.Minds o pre (fun found => ∀ h, found = some h → h.Own o) (nested k q hq hook)

/-- Fills that mind their own, if what they reconcile does. -/
structure Minds (M : Mapping T) : Prop where
  lawful : M.Lawful
  fill : ∀ {scope : Scope} {o : Purview} {pre : Prop} {k : T.Kind} (p : M.Plain k)
    (nested : Reconciler T M.Plain M.weight (M.weight p)) (item : Handle k) (v : T.Value k)
    {s : Session T}, scope.context = o.context →
    (∀ l (q : M.Plain l) hq (hook : Hook T l), (∀ v, (hook v).Leads Advances) →
      (nested l q hq hook).Leads Advances) →
    M.Nests scope nested → CheckedOut s item → (pre → Taken o s item ∧ Genuine o.owners v) →
    Session.Minds o pre (Genuine o.owners) s (M.showAndFill scope p nested item v s)

/-- A preview is read from a payload. -/
theorem minds_showPreview (scope : Scope) (hout : CheckedOut s h)
    (htaken : pre → Taken o s h) (v : T.Value k) (key : Option NaturalKey) :
    Session.Minds o pre (fun _ => True) s (scope.showPreview h v key s) := by
  cases hpreview : scope.preview v key with
  | error fault =>
    rw [showPreview_of_error hpreview]
    exact .report _ fun _ => trivial
  | ok out =>
    rcases out with ⟨shown, payload⟩
    have hproceeds := proceeds_showPreview scope hout v key
    rw [showPreview_of_ok hpreview] at hproceeds ⊢
    refine .modify (fun _ => hproceeds.run) (fun hpre => (htaken hpre).own.owner) ?_ fun _ => trivial
    intro hpre _ m hm
    refine ⟨?_, fun key hpin => absurd hpin ((htaken hpre).unpinned key)⟩
    rcases Scope.decode_of_preview hpreview with ⟨_, _, _, hdecode⟩
    exact genuine_of_decode o.owners hdecode

theorem minds_findOrInsertUnique (hscope : scope.context = o.context) (p : M.Plain k) :
    Work.Minds o pre (fun found => ∀ h, found = some h → h.Own o)
      (M.findOrInsertUnique scope p) := by
  refine (Work.minds_findByKey hscope k (M.naturalKey p)).bind ?_
  intro found
  cases found with
  | some h => exact Work.minds_pure And.right
  | none => exact Work.minds_insertOrReport hscope k

section Minds

variable (hM : M.Minds) (hscope : scope.context = o.context)
include hM hscope

/-- From the hook on to putting the filled value back. -/
theorem Minds.refill {hp : M.weight p < bound + 1} (hhook : hook.Minds o pre)
    (hadvances : ∀ l (q : M.Plain l) hq (hook : Hook T l), (∀ v, (hook v).Leads Advances) →
      (M.nested scope hp l q hq hook).Leads Advances)
    (hnested : M.Nests scope (M.nested scope hp)) (hout : CheckedOut s h) {v : T.Value k}
    (htaken : pre → Taken o s h ∧ Genuine o.owners v) :
    Session.Minds o pre (fun _ => True) s (M.refill scope hp hook h v s) := by
  have hhooked := (hhook.minds v s).imp (fun hpre => ⟨hpre, (htaken hpre).2⟩) fun _ _ => id
  refine hhooked.next fun hs => ?_
  -- whatever the hook did, the entity is still out, and registered if the hook was calm
  have hproceeds := hhook.advances v s hs
  have hs₁ := hproceeds.run.sound hs
  have hout₁ : CheckedOut (hook v s).2 h := hout.proceeds hproceeds
  rcases hshown : scope.showPreview h (hook v s).1 (M.naturalKey p) (hook v s).2 with ⟨_, s₂⟩
  have hshow : Proceeds (hook v s).2 s₂ := by
    have hshow := proceeds_showPreview scope hout₁ (hook v s).1 (M.naturalKey p)
    rwa [hshown] at hshow
  have hfill := hM.lawful.fill k p (M.nested scope hp) scope h.id (hook v s).1 hadvances s₂
    (hshow.run.sound hs₁)
  have hfilled : Session.Minds o (pre ∧ s.Kept o ∧ Apart o.owners o.context s (hook v s).2 ∧
      Genuine o.owners (hook v s).1) (Genuine o.owners) (hook v s).2
      (M.showAndFill scope p (M.nested scope hp) h (hook v s).1 (hook v s).2) :=
    hM.fill p (M.nested scope hp) h (hook v s).1 hscope hadvances hnested hout₁
      fun hpre => ⟨(htaken hpre.1).1.apart hpre.2.2.1, hpre.2.2.2⟩
  refine hfilled.after ?_
  have hout₃ : CheckedOut (M.showAndFill scope p (M.nested scope hp) h (hook v s).1
      (hook v s).2).2 h := by
    have hend : (M.showAndFill scope p (M.nested scope hp) h (hook v s).1 (hook v s).2).2 =
        (M.fill p (M.nested scope hp) scope h.id (hook v s).1 s₂).2 := by
      rw [showAndFill, Work.bind_apply, hshown]
    rw [hend]
    exact (hout₁.proceeds hshow).proceeds hfill
  refine .modify (fun _ => run_checkIn hout₃ _) (fun hpre => (htaken hpre.1.1).1.own.owner) ?_
    fun _ => trivial
  intro hpre _ m hm
  exact ⟨hpre.2, fun key hpin => absurd hpin ((htaken hpre.1.1).1.unpinned key)⟩

theorem Minds.reconcileBelow (bound : Nat) (k : T.Kind) (p : M.Plain k)
    (hp : M.weight p < bound) (hook : Hook T k) (hhook : hook.Minds o pre) :
    Work.Minds o pre (fun found => ∀ h, found = some h → h.Own o)
      (M.reconcileBelow scope bound k p hp hook) := by
  induction bound generalizing k o pre with
  | zero => exact absurd hp (Nat.not_lt_zero _)
  | succ bound ih =>
    intro s
    refine .sound fun hs => ?_
    have hfirst : ∀ {found s₁}, M.findOrInsertUnique scope p s = (found, s₁) →
        Session.Minds o pre (fun found => ∀ h, found = some h → h.Own o) s (found, s₁) :=
      fun hfound => hfound ▸ minds_findOrInsertUnique hscope p s
    rcases reconcileBelow_cases hs scope hp hook with ⟨s₁, hfound, hend⟩ |
      ⟨h, s₁, m, hfound, _, _, _, hend⟩ | ⟨h, s₁, m, hfound, hm, rfl, hfree, hend⟩
    · rw [hend]
      exact hfirst hfound
    · rw [hend]
      exact (hfirst hfound).after (.report _ And.right)
    · rw [hend]
      refine (hfirst hfound).next fun _ => ?_
      rcases registered_of_findOrInsertUnique hs hfound with ⟨e, he, hslot⟩
      rw [hscope] at he
      -- what is pinned fills already
      have hunpinned : s₁.Kept o → ∀ key, (key, h.slot) ∉ o.pins := by
        intro hkept key hpin
        rcases (hkept.pinned key h.slot hpin).2 with ⟨m', hm', hfilling, _⟩
        cases hm.symm.trans hm'
        cases hfree.symm.trans hfilling
      have htaken : Session.Minds o (pre ∧ s.Kept o ∧ Apart o.owners o.context s s₁ ∧
          ∀ h', some h = some h' → h'.Own o) (fun _ => True) s₁
          ((), s₁.modifyEntity h.slot fun _ =>
            { m.withState (T.blank m.kind) with filling := true }) := by
        refine .modify (fun _ => (Step.edit hm (Entity.edited_checkOut m _)).run trivial)
          (fun hpre => (hpre.2.2.2 h rfl).owner) ?_ fun _ => trivial
        intro _ hkept _ _
        exact ⟨genuine_blank o.owners m.kind, fun key hpin => absurd hpin (hunpinned hkept key)⟩
      refine htaken.next fun _ => ?_
      have hcheckedOut : CheckedOut (s₁.modifyEntity h.slot fun _ =>
          { m.withState (T.blank m.kind) with filling := true }) h :=
        ⟨_, entity?_modifyEntity_self hm _, rfl, rfl⟩
      -- what the fill reconciles is lighter, so it stays below the smaller bound
      refine Session.Minds.after (P := fun _ => True) (hM.refill hscope
        (hhook.imp fun hpre => hpre.1.1)
        (fun l q hq hook hhook => hM.lawful.reconcileBelow scope bound l q _ hook hhook)
        (fun hscope' l q hq hook hhook => ih hscope' l q _ hook hhook) hcheckedOut ?_)
        (.pure fun hpre => hpre.1.1.2.2.2)
      intro hpre
      refine ⟨⟨hpre.1.2.2.2 h rfl, ⟨e, he, hslot⟩, hunpinned hpre.2.1⟩, ?_⟩
      rw [Entity.value_self]
      exact hpre.2.1.genuine _ m hm

end Minds

end Mapping

end Reconcile
