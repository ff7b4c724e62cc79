import Reconcile.Proofs.Mapping.Synchronizing

/-!
# Around a fill

Reconciling a plain value opens an entity for it: the entity is found or inserted, its value is
taken out, and a preview stands in (`Opens`).  Then the plain value is filled in, which may do all
kinds of things to entities of other types, and the value that comes out of this is put back
(`Opens.close`).
-/

namespace Reconcile

open Session

variable {T : Model} {k : T.Kind} {s s₁ s₂ : Session T} {scope : Scope} {c : ContextId}
  {h : Handle k} {v v' shown : T.Value k} {m : Entity T} {payload : Json}

/-- The entity is open for a fill: this value stands in for its own. -/
structure Opens (s : Session T) (c : ContextId) (h : Handle k) (shown : T.Value k)
    (s₁ : Session T) : Prop where
  confined : Confined s s₁ c k [h.slot]
  entry : ∃ pending, (s₁.registry c).get? h.id.key = some ⟨k, h, pending⟩
  seen : s₁.seen? c k h.id.key = some shown
  others : ∀ key, key ≠ h.id.key → s₁.seen? c k key = s.seen? c k key

/-- A handle that is registered is all that a change of its entity touches. -/
theorem confined_modifyEntity (hsound : Sound s) {pending : Bool}
    (he : (s.registry c).get? h.id.key = some ⟨k, h, pending⟩) (f : Entity T → Entity T) :
    Confined s (s.modifyEntity h.slot f) c k [h.slot] := by
  refine ⟨Adds.modifyEntity s c k h.slot f s.journal, Leaves.modifyEntity s c h.slot f s.journal, ?_⟩
  intro key e he' hslot
  have hhandle : ∀ h' ∈ [h], ∃ pending, (s.registry c).get? h'.id.key = some ⟨k, h', pending⟩ := by
    intro h' hh'
    cases List.mem_singleton.1 hh'
    exact ⟨pending, he⟩
  exact hsound.touched hhandle he' hslot

namespace Mapping

variable {M : Mapping T} {p : M.Plain k} {hook : Hook T k} {field : String}
  {N : Type} {key? : T.Value k → Option N} {n : N} {bound : Nat}
  {hp : M.weight p < bound + 1}

/-! ## Opening -/

/-- The session with the value of an entity taken out and a preview in its place. -/
def opened (s : Session T) (h : Handle k) (m : Entity T) (shown : T.Value k) (payload : Json) :
    Session T :=
  (s.modifyEntity h.slot fun _ => { m.withState (T.blank k) with filling := true }).standIn h shown
    payload

theorem opened_eq (s : Session T) (h : Handle k) (m : Entity T) (shown : T.Value k)
    (payload : Json) : opened s h m shown payload = s.modifyEntity h.slot fun _ =>
      { m.withState (T.blank k) with filling := true }.standIn shown payload :=
  modifyEntity_twice s h.slot _ _

theorem run_opened (hm : s.entity? h.slot = some m) (hkind : m.kind = k) (shown : T.Value k)
    (payload : Json) : Run Deed.Native s (opened s h m shown payload) := by
  subst hkind
  let out : Entity T := { m.withState (T.blank m.kind) with filling := true }
  have hcheckOut := Step.edit hm (Entity.edited_checkOut m (T.blank m.kind))
  have hentity := entity?_modifyEntity_self hm fun _ => out
  have hstandIn := Step.edit hentity (Entity.edited_standIn (e := out) rfl shown payload)
  have hshow : opened s h m shown payload =
      (s.modifyEntity h.slot fun _ => out).modifyEntity h.slot
        fun _ => out.standIn shown payload := by
    rw [opened_eq]
    exact (modifyEntity_twice s h.slot (fun _ => out) fun _ => out.standIn shown payload).symm
  rw [hshow]
  exact (hcheckOut.run trivial).trans (hstandIn.run trivial)

theorem Targets.opens (htargets : Targets s c key? n h s₁) (hsound : Sound s₁)
    (hm : s₁.entity? h.slot = some m) (hlive : m.deleted = false) (shown : T.Value k)
    (payload : Json) : Opens s c h shown (opened s₁ h m shown payload) := by
  let out : Entity T := { m.withState (T.blank k) with filling := true }
  rcases htargets.entry with ⟨pending, he⟩
  have hfound : Confined s s₁ c k [h.slot] := by
    refine ⟨htargets.adds, htargets.leaves_others, ?_⟩
    intro key e he' hslot
    exact (confined_modifyEntity hsound he id).touched key e he' hslot
  rw [opened_eq]
  have hchange := confined_modifyEntity hsound he fun _ => out.standIn shown payload
  have hentity := entity?_modifyEntity_self hm fun _ => out.standIn shown payload
  constructor
  case confined =>
    have hboth := hfound.trans hchange
    exact ⟨hboth.toAdds, hboth.leaves.mono (by simp), fun key e he' hslot =>
      hboth.touched key e he' (List.mem_append.2 (Or.inl hslot))⟩
  case entry => exact ⟨pending, he⟩
  case seen =>
    have hseen : (s₁.modifyEntity h.slot fun _ => out.standIn shown payload).seen? c k h.id.key =
        some ((out.standIn shown payload).value k) := seen?_of_entry he rfl hentity hlive
    exact hseen.trans (congrArg some (Entity.value_self _))
  case others =>
    intro key hkey
    exact (seen?_modifyEntity_of_ne hsound he hkey _ _).trans (htargets.others key hkey)

/-- Reconciling fills the value that stood in the entity, and puts back what comes out. -/
theorem reconcileBelow_of_fill (hfound : M.findOrInsertUnique scope p s = (some h, s₁))
    (hm : s₁.entity? h.slot = some m) (hfree : m.filling = false)
    (hhook : ∀ s, hook (m.value k) s = (v, s))
    (hpreview : scope.preview v (M.naturalKey p) = .ok (shown, payload))
    (hfill : M.fill p (M.nested scope hp) scope h.id v (opened s₁ h m shown payload) = (v', s₂)) :
    M.reconcileBelow scope (bound + 1) k p hp hook s = (some h, s₂.checkIn h v') := by
  rw [reconcileBelow_of_checkOut hfound (checkOut?_of_free hm hfree),
    refill_snd (hhook _) (showPreview_of_ok hpreview) hfill]

/-- In a context that is ready for a type, reconciling a plain value opens the entity of its key.
What is left to do is to fill in the plain value. -/
theorem Identifies.opens (hp : M.Identifies key? p field n) (hsound : Sound s)
    (hnumbered : Numbered s) (hready : s.Ready scope.context k field Entity.Unused)
    {change : T.Value k → T.Value k} (hhook : ∀ v s, hook v s = (change v, s))
    (hpreview : ∀ v, ∃ shown payload, scope.preview v (M.naturalKey p) = .ok (shown, payload) ∧
      key? shown = some n) : ∃ h shown s₁,
    Table.Target key? (s.seen? scope.context k) n h.id.key ∧
    (s.seen? scope.context k h.id.key = none → s.entities.size ≤ h.slot ∧
      (s₁.registry scope.context).get? h.id.key = some ⟨k, h, true⟩) ∧
    Opens s scope.context h shown s₁ ∧ key? shown = some n ∧ Run Deed.Native s s₁ ∧
    ∀ v' s₂, M.fill p (M.nested scope (Nat.lt_succ_self _)) scope h.id
      (change ((s.seen? scope.context k h.id.key).getD (T.blank k))) s₁ = (v', s₂) →
        M.reconcile scope p hook s = (some h, s₂.checkIn h v') := by
  rcases hp.findOrInsert hsound hnumbered (fun _ hm => hm.shown) (Entity.unused_new k) hready with
    ⟨h, s₁, hfound, hsound₁, hready₁, htargets⟩
  rcases htargets.entry with ⟨pending, he⟩
  rcases entity_of_seen? he htargets.seen with ⟨m, hm, hlive, hvalue⟩
  have hlodged := hsound₁.lodged he
  rcases hready₁.live _ _ m he hlodged.name hm hlive with ⟨_, hunused⟩
  rcases hpreview (change (m.value k)) with ⟨shown, payload, hok, hkey⟩
  have hkind : m.kind = k := by
    rcases hlodged.entity with ⟨m', hm', hkind⟩
    cases hm.symm.trans hm'
    exact hkind
  have hrun : Run Deed.Native s (opened s₁ h m shown payload) :=
    (proceeds_findOrInsertUnique hsound hfound).run.trans (run_opened hm hkind shown payload)
  refine ⟨h, shown, opened s₁ h m shown payload, htargets.target, htargets.made,
    htargets.opens hsound₁ hm hlive shown payload, hkey, hrun, ?_⟩
  intro v' s₂ hfill
  rw [← hvalue] at hfill
  exact reconcileBelow_of_fill hfound hm hunused.1 (hhook _) hok hfill

end Mapping

/-! ## Closing -/

theorem leaves_checkIn (s : Session T) (c : ContextId) (h : Handle k) (v : T.Value k) :
    Leaves s (s.checkIn h v) c [h.slot] :=
  Leaves.modifyEntity s c h.slot (fun m => m.checkIn v) s.journal

theorem run_checkIn_of_entry {pending : Bool} (hsound : Sound s)
    (he : (s.registry c).get? h.id.key = some ⟨k, h, pending⟩) (v : T.Value k) :
    Run Deed.Native s (s.checkIn h v) := by
  rcases (hsound.lodged he).entity with ⟨m, hm, hkind⟩
  obtain rfl : m.kind = k := hkind
  have hstep := Step.edit hm (Entity.edited_checkIn m v)
  rw [← modifyEntity_of_entity? hm fun m' => m'.checkIn v] at hstep
  exact hstep.run trivial

/-- The fill left the type alone, so the value that is put back is all that has changed of it. -/
structure Closes (s s₂ : Session T) (c : ContextId) (h : Handle k) (v : T.Value k)
    (s' : Session T) : Prop where
  seen : s'.seen? c k h.id.key = some v
  value : s'.value h = v
  others : ∀ key, key ≠ h.id.key → s'.seen? c k key = s.seen? c k key
  confined : Confined s₂ s' c k [h.slot]
  run : Run Deed.Native s₂ s'

theorem Opens.close (hopens : Opens s c h shown s₁) (hsound : Sound s₂)
    (hfilled : Bypasses s₁ s₂ c k) (v : T.Value k) : Closes s s₂ c h v (s₂.checkIn h v) := by
  rcases hopens.entry with ⟨pending, he⟩
  have he₂ := hfilled.registry _ _ he
  have hseen : (s₂.checkIn h v).seen? c k h.id.key = some v :=
    Mapping.seen?_checkIn he₂ ((hfilled.seen _).trans hopens.seen) v s₂.journal
  constructor
  case seen => exact hseen
  case value => exact Mapping.value_of_seen? he₂ hseen
  case others =>
    intro key hkey
    calc (s₂.checkIn h v).seen? c k key
        = s₂.seen? c k key := seen?_modifyEntity_of_ne hsound he₂ hkey _ _
      _ = s₁.seen? c k key := hfilled.seen key
      _ = s.seen? c k key := hopens.others key hkey
  case confined => exact confined_modifyEntity hsound he₂ _
  case run => exact run_checkIn_of_entry hsound he₂ v

end Reconcile
