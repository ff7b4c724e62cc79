import Reconcile.Proofs.Session.Separation

/-!
# Minding one's own entities

A context comes by handles of its own entities, but also by handles of others: they travel inside
relationship fields.  Deleting goes by the handle, so it spares what belongs to others only because
no handle lies about its context (`Genuine`).  Handles that the session makes are genuine, and the
ones in values stay so if only such handles are put into values.

Work of a context *minds* its own (`Minds`) if it keeps apart from all others and puts only genuine
handles into values.  This is said of work that leaves the rows alone: after a save that succeeded,
within the work or within one of its hooks, nothing is promised (`Calm`).
-/

namespace Reconcile

/-- An entity that a member of a relationship is bound to, and the context that the handle names. -/
structure Bond where
  slot : Nat
  context : ContextId

/-- The handle names the context that owns its entity. -/
def Bond.Genuine (owners : Owners) (b : Bond) : Prop := owners[b.slot]? = some b.context

def Handle.bond {K : Type} {k : K} (h : Handle k) : Bond := ⟨h.slot, h.context⟩

section Relationships

variable {K : Type} {k : K}

def Member.bonds (m : Member k) : List Bond := m.bound.toList.map Handle.bond

def ToOne.bonds (r : ToOne k) : List Bond := r.member.bonds

def ToMany.bonds {R : K → Type} [ToMany R] (r : R k) : List Bond :=
  (ToMany.members r).flatMap Member.bonds

/-- The bonds of a field, or none if it is absent. -/
def fieldBonds {R : Type} (bonds : R → List Bond) (field : Option R) : List Bond :=
  (field.map bonds).getD []

end Relationships

/-- What the values of a model refer to through their relationships. -/
class Bonded (T : Model) where
  bonds : {k : T.Kind} → T.Value k → List Bond
  /-- The contexts in which relationships look for members that are not bound yet. -/
  sources : {k : T.Kind} → T.Value k → List ContextId
  bonds_blank (k : T.Kind) : bonds (T.blank k) = []
  sources_blank (k : T.Kind) : sources (T.blank k) = []
  /-- What was read from a payload is not bound yet. -/
  bonds_decode {k : T.Kind} {source : Option ContextId} {payload : Json} {v : T.Value k} :
    T.decode k source payload = some v → bonds v = []
  sources_decode {k : T.Kind} {source : Option ContextId} {payload : Json} {v : T.Value k} :
    T.decode k source payload = some v → ∀ d ∈ sources v, source = some d

/-- The handles behind the bonds are genuine. -/
def Vouched (owners : Owners) (bonds : List Bond) : Prop := ∀ b ∈ bonds, b.Genuine owners

theorem Bond.Genuine.mono {owners : Owners} {b : Bond} (h : b.Genuine owners) (more : Owners) :
    b.Genuine (owners ++ more) := by
  rcases List.getElem?_eq_some_iff.1 h with ⟨hlt, _⟩
  exact (List.getElem?_append_left hlt).trans h

theorem Vouched.mono {owners : Owners} {bonds : List Bond} (h : Vouched owners bonds)
    (more : Owners) : Vouched (owners ++ more) bonds := fun b hb => (h b hb).mono more

section Values

variable {T : Model} [Bonded T] {k : T.Kind}

/-- The members of the value are bound to genuine handles. -/
def Genuine (owners : Owners) (v : T.Value k) : Prop := Vouched owners (Bonded.bonds v)

/-- The relationships of the value look for their members in this context only. -/
def HomeIn (c : ContextId) (v : T.Value k) : Prop := ∀ d ∈ Bonded.sources v, d = c

theorem Genuine.mono {owners : Owners} {v : T.Value k} (h : Genuine owners v) (more : Owners) :
    Genuine (owners ++ more) v := Vouched.mono h more

theorem genuine_blank (owners : Owners) (k : T.Kind) : Genuine owners (T.blank k) := by
  intro b hb
  rw [Bonded.bonds_blank] at hb
  cases hb

theorem genuine_of_decode (owners : Owners) {source : Option ContextId} {payload : Json}
    {v : T.Value k} (h : T.decode k source payload = some v) : Genuine owners v := by
  intro b hb
  rw [Bonded.bonds_decode h] at hb
  cases hb

theorem homeIn_of_decode {c : ContextId} {source : Option ContextId} {payload : Json}
    {v : T.Value k} (h : T.decode k source payload = some v) (hsource : ∀ d ∈ source, d = c) :
    HomeIn c v := fun d hd => hsource d (Bonded.sources_decode h d hd)

end Values

/-- Whether the event reports a save that succeeded. -/
def Event.isSave : Event → Bool
  | .saved _ _ => true
  | _ => false

/-- Whose work is looked at. -/
structure Purview where
  owners : Owners
  context : ContextId
  /-- Keys of the context with the slots of entities that fill, whose relationships are at home in
  the context. -/
  pins : List (UInt64 × Nat)

/-- The handle belongs to the context. -/
def Handle.Own {K : Type} {k : K} (o : Purview) (h : Handle k) : Prop :=
  h.bond.Genuine o.owners ∧ h.context = o.context

theorem Handle.Own.owner {K : Type} {k : K} {o : Purview} {h : Handle k} (hown : h.Own o) :
    o.owners[h.slot]? = some o.context := hown.2 ▸ hown.1

theorem Handle.Own.mono {K : Type} {k : K} {owners : Owners} {c : ContextId}
    {pins : List (UInt64 × Nat)} {h : Handle k} (hown : h.Own ⟨owners, c, pins⟩) (more : Owners) :
    h.Own ⟨owners ++ more, c, pins⟩ := ⟨hown.1.mono more, hown.2⟩

namespace Session

variable {T : Model} {α β : Type} {s s' s'' : Session T} {k : T.Kind} {o : Purview}

/-- How many saves have succeeded. -/
def saves (s : Session T) : Nat := s.journal.countP Event.isSave

/-! ## Runs -/

theorem saves_report (s : Session T) (event : Event) :
    (s.report event).saves = s.saves + if event.isSave then 1 else 0 := Array.countP_push

theorem Step.saves_le {deed : Deed} (h : Step s deed s') : s.saves ≤ s'.saves := by
  cases h with
  | report event =>
    rw [saves_report]
    exact Nat.le_add_right _ _
  | insert =>
    rw [insertUnder, saves_report, saves, saves, journal_enroll, journal_modifyStoreOf]
    exact Nat.le_add_right _ _
  | load => rw [saves, saves, journal_enroll]
  | save => rw [saves, saves, (settles_commit _ _ _).journal, journal_modifyStoreOf]
  | _ => exact Nat.le_refl _

theorem Run.saves_le {allow : Deed → Prop} (h : Run allow s s') : s.saves ≤ s'.saves :=
  h.induct (P := fun s' => s.saves ≤ s'.saves)
    (fun _ hstep ih => Nat.le_trans ih hstep.saves_le) (Nat.le_refl _)

/-- Keys are left, nothing was saved, and it is known to whom what was added belongs. -/
structure Calm (o : Purview) (s s' : Session T) : Prop where
  keys : s'.KeysLeft
  saves : s'.saves = s.saves
  size : s'.entities.size ≤ o.owners.length

theorem Calm.split {allow : Deed → Prop} (h : Calm o s s'') (hrun : Run allow s s')
    (hrun' : Run allow s' s'') : Calm o s s' ∧ Calm o s' s'' := by
  have hsaves := h.saves
  have hfirst := hrun.saves_le
  have hsecond := hrun'.saves_le
  exact ⟨⟨hrun'.keysLeft h.keys, by omega, Nat.le_trans hrun'.size_le h.size⟩,
    ⟨h.keys, by omega, h.size⟩⟩

/-! ## What is kept -/

section Kept

variable [Bonded T]

/-- The session is one that can be reached with all its handles genuine. -/
structure Kept (o : Purview) (s : Session T) : Prop where
  run : Run (fun _ => True) .empty s
  keys : s.KeysLeft
  owned : Owned o.owners s
  /-- Whatever is added belongs to the context. -/
  fresh : ∀ n d, s.entities.size ≤ n → o.owners[n]? = some d → d = o.context
  genuine : ∀ n m, s.entity? n = some m → Genuine o.owners m.state
  pinned : ∀ key slot, (key, slot) ∈ o.pins →
    (∃ e, (s.registry o.context).get? key = some e ∧ e.slot = slot) ∧
    ∃ m, s.entity? slot = some m ∧ m.filling = true ∧ HomeIn o.context m.state

namespace Kept

theorem sound (h : s.Kept o) : Sound s := h.run.sound sound_empty

theorem numbered (h : s.Kept o) : Numbered s :=
  h.run.numbered sound_empty numbered_empty h.keys

theorem own_of_entry (h : s.Kept o) {key : UInt64} {e : Entry T}
    (he : (s.registry o.context).get? key = some e) {handle : Handle k}
    (hhandle : e.handle? k = some handle) : handle.Own o := by
  rcases handle?_eq_some_iff.1 hhandle with ⟨_, rfl⟩
  have hcontext : e.handle.context = o.context := (h.sound.lodged he).context
  have howner : o.owners[e.slot]? = some o.context := h.owned _ _ _ he
  refine ⟨?_, hcontext⟩
  show o.owners[e.slot]? = some e.handle.context
  rw [hcontext, howner]

/-- The next entity will belong to the context. -/
theorem owner_new (h : s.Kept o) (hlt : s.entities.size < o.owners.length) :
    o.owners[s.entities.size]? = some o.context := by
  have hget := List.getElem?_eq_getElem hlt
  rw [hget, h.fresh _ _ (Nat.le_refl _) hget]

/-- A pinned entity is not one that comes new. -/
theorem slot_lt (h : s.Kept o) {key : UInt64} {slot : Nat} (hpin : (key, slot) ∈ o.pins) :
    slot < s.entities.size := by
  rcases (h.pinned key slot hpin).2 with ⟨m, hm, _⟩
  exact lt_size_of_entity? hm

theorem genuine_value (h : s.Kept o) {handle : Handle k} (hholds : s.Holds handle) :
    Genuine o.owners (s.value handle) := by
  rcases hholds with ⟨m, hm, rfl⟩
  rw [value_of_entity? hm, Entity.value_self]
  exact h.genuine _ m hm

theorem homeIn_value (h : s.Kept o) {key : UInt64} {handle : Handle k}
    (hpin : (key, handle.slot) ∈ o.pins) (hholds : s.Holds handle) :
    HomeIn o.context (s.value handle) := by
  rcases hholds with ⟨m, hm, rfl⟩
  rcases (h.pinned key _ hpin).2 with ⟨m', hm', _, hhome⟩
  cases hm.symm.trans hm'
  rw [value_of_entity? hm, Entity.value_self]
  exact hhome

/-- A change that keeps apart, of which it is known what became of entries and entities. -/
theorem next (h : s.Kept o) (hrun : Run (fun _ => True) s s') (hkeys : s'.KeysLeft)
    (hapart : Apart o.owners o.context s s')
    (hentries : ∀ d key e, (s'.registry d).get? key = some e →
      (s.registry d).get? key = some e ∨ o.owners[e.slot]? = some d)
    (hentities : ∀ n m, s'.entity? n = some m → s.entity? n = some m ∨
      Genuine o.owners m.state ∧
        ∀ key, (key, n) ∈ o.pins → m.filling = true ∧ HomeIn o.context m.state) :
    s'.Kept o where
  run := h.run.trans hrun
  keys := hkeys
  owned d key e he := (hentries d key e he).elim (h.owned d key e) id
  fresh n d hn := h.fresh n d (Nat.le_trans hapart.size hn)
  genuine n m hm := (hentities n m hm).elim (h.genuine n m) And.left
  pinned key slot hpin := by
    rcases h.pinned key slot hpin with ⟨⟨e, he, hslot⟩, m, hm, hfilling, hhome⟩
    refine ⟨⟨e, hapart.kept key e he, hslot⟩, ?_⟩
    rcases hrun.kind hm with ⟨m', hm', _⟩
    rcases hentities slot m' hm' with hold | ⟨_, hkept⟩
    · cases hm.symm.trans hold
      exact ⟨m, hm', hfilling, hhome⟩
    · exact ⟨m', hm', hkept key hpin⟩

end Kept

/-! ## Work that minds its own -/

/-- The work takes steps and, on the condition and as far as it is calm, minds its own and ends with a
result of which this is true. -/
structure Minds (o : Purview) (pre : Prop) (P : α → Prop) (s : Session T) (out : α × Session T) :
    Prop where
  runs : Sound s → Run Deed.Native s out.2
  kept : pre → s.Kept o → Calm o s out.2 →
    out.2.Kept o ∧ Apart o.owners o.context s out.2 ∧ P out.1

end Kept

end Session

end Reconcile
