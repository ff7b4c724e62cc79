import Reconcile.Proofs.Session.Unwritten

/-!
# One object for each id

A context hands out handles when it inserts, fetches and looks up ids.  In between, entities are
saved and deleted, and other contexts commit, remove and add rows again.  `Received` keeps the
handles that one context has handed out since its store was opened, whatever else happened; it is an
observation beside the run, which no operation reads.

What was handed out and is live still stands in the registry (`Enrolled`), and a registry has one
entry for a key.  So handles of one id are handles of one object (`identity_map`).
-/

namespace Reconcile

namespace Session

variable {T : Model} {s s' : Session T} {c d : ContextId} {k : T.Kind} {h : Handle k}
  {i : StoreId} {deed : Deed} {binding : Bool} {q : Query} {found : List (Handle k)}

/-! ## What stands in a registry -/

/-- The registry of its context has the entity of the handle under its key. -/
def Enrolled (s : Session T) (h : Handle k) : Prop :=
  ∃ pending, (s.registry h.context).get? h.id.key = some ⟨k, h, pending⟩

/-- A registry has one object for a key. -/
theorem Enrolled.unique {l : T.Kind} {x : Handle l} (hh : s.Enrolled h) (hx : s.Enrolled x)
    (hcontext : h.context = x.context) (hid : h.id = x.id) :
    (⟨k, h⟩ : (k : T.Kind) × Handle k) = ⟨l, x⟩ := by
  rcases hh with ⟨pending, hentry⟩
  rcases hx with ⟨pending', hentry'⟩
  rw [hcontext, hid, hentry'] at hentry
  cases hentry
  rfl

/-- What is live stays in the registry of a context that stays open. -/
theorem Step.enrolled (hstep : Step s deed s') (hs : Sound s) (hnumbered : Numbered s)
    (hopen : (s'.context? h.context).isSome) (hlive : s.isDeleted h = false)
    (henrolled : s.Enrolled h) : s'.Enrolled h := by
  rcases henrolled with ⟨pending, hentry⟩
  by_cases hsaved : deed = .saved h.context
  · subst hsaved
    cases hstep with
    | save hcollect => exact ⟨false, get?_registry_commit.2 ⟨_, hentry, hlive, rfl⟩⟩
  · exact ⟨pending, hstep.registered hs hnumbered hsaved hopen hentry⟩

/-! ## What a context hands out -/

/-- A handle as a context hands it out for an entity of this type. -/
structure Delivers (s : Session T) (c : ContextId) (h : Handle k) : Prop where
  context : h.context = c
  name : h.id.entity = T.entityName k
  holds : s.Holds h
  live : s.isDeleted h = false
  enrolled : s.Enrolled h

theorem delivers_of_entry (hs : Sound s) {key : UInt64} {e : Entry T}
    (he : (s.registry c).get? key = some e) (hlive : s.entryDeleted e = false)
    (hhandle : e.handle? k = some h) : s.Delivers c h := by
  have hlodged := hs.lodged he
  rcases e with ⟨l, x, pending⟩
  rcases handle?_eq_some_iff.1 hhandle with ⟨rfl, rfl⟩
  have hcontext : x.context = c := hlodged.context
  have hkey : x.id.key = key := hlodged.key
  subst hcontext
  subst hkey
  exact ⟨rfl, hlodged.name, hlodged.entity, hlive, pending, he⟩

theorem delivers_insert (hs : Sound s)
    (hinsert : ((Scope.mk c binding).insert k).outcome s = (.ok h, s')) : s'.Delivers c h := by
  rcases insert_cases ⟨c, binding⟩ k s with ⟨fault, hfault, _⟩ | ⟨store, hstore, hok⟩
  · cases hinsert.symm.trans hfault
  · cases hinsert.symm.trans hok
    have hentry : ((s.insertUnder c k store.nextKey).registry c).get? store.nextKey =
        some ⟨k, ⟨s.entities.size, ⟨T.entityName k, store.nextKey⟩, c⟩, true⟩ :=
      get?_insertUnder_new hstore
    have hsound := hs.insertUnder hstore k store.nextKey
    have hentity : (s.insertUnder c k store.nextKey).entity? s.entities.size =
        some (.new k (T.blank k) true) := entity?_insertUnder_new
    refine delivers_of_entry hsound hentry ?_ (handle?_eq_some_iff.2 ⟨rfl, rfl⟩)
    simp [entryDeleted, isDeleted, hentity, Entity.new]

theorem delivers_fetch (hs : Sound s)
    (hfetch : ((Scope.mk c binding).fetch k q).outcome s = (.ok found, s'))
    (hmem : h ∈ found) : s'.Delivers c h := by
  rcases fetch_spec hs ⟨c, binding⟩ k q with ⟨hrun, hspec⟩
  have hs' : Sound s' := by simpa [hfetch] using hrun.sound hs
  rcases ((hspec found s' hfetch).mem_iff hs').1 hmem with ⟨e, payload, he, hmatch⟩
  rcases matchOf?_eq_some hmatch with ⟨hhandle, hkind, heligible, _⟩
  have hlive : s'.entryDeleted e = false := (eligible_iff.1 heligible).2.1
  exact delivers_of_entry hs' he hlive (handle?_eq_some_iff.2 ⟨hkind, hhandle⟩)

theorem delivers_locate (hs : Sound s) {id : EntityId}
    (hlocate : ((Scope.mk c binding).locate k id).outcome s = (.ok h, s')) :
    s'.Delivers c h ∧ h.id = id := by
  rcases locate_cases hs ⟨c, binding⟩ k id with ⟨fault, hout⟩ |
    ⟨e, x, hname, hentry, hlive, hhandle, hout⟩ |
    ⟨row, v, rfl, hname, hrow, hnew, hdecode, hout⟩
  · cases hlocate.symm.trans hout
  · cases hlocate.symm.trans hout
    have hdelivers := delivers_of_entry hs hentry hlive hhandle
    -- the entry stands under the key of the id, and has the name of the type
    have hkey : h.id.key = id.key := by
      rcases handle?_eq_some_iff.1 hhandle with ⟨_, rfl⟩
      exact (hs.lodged hentry).key
    refine ⟨hdelivers, ?_⟩
    calc h.id = ⟨h.id.entity, h.id.key⟩ := rfl
      _ = ⟨id.entity, id.key⟩ := by rw [hdelivers.name, hkey, hname]
  · cases hlocate.symm.trans hout
    rcases storeOf?_of_row? hrow with ⟨store, hstore, _⟩
    rcases isOpen_of_storeOf? hstore with ⟨ctx, hctx, _⟩
    have hentity : (s.enroll c k row.id v false).entity? s.entities.size =
        some (.new k v false) := entity?_enroll_new
    refine ⟨?_, rfl⟩
    refine delivers_of_entry (hs.enroll hctx hname) (get?_registry_enroll_new hctx) ?_
      (handle?_eq_some_iff.2 ⟨rfl, rfl⟩)
    simp [entryDeleted, isDeleted, hentity, Entity.new]

/-- A call of a context that hands out handles, and those that it hands out. -/
inductive HandsOut (c : ContextId) (s s' : Session T) :
    List ((k : T.Kind) × Handle k) → Prop where
  | insert {binding : Bool} {k : T.Kind} {h : Handle k}
      (hcall : ((Scope.mk c binding).insert k).outcome s = (.ok h, s')) : HandsOut c s s' [⟨k, h⟩]
  | fetch {binding : Bool} {k : T.Kind} {q : Query} {found : List (Handle k)}
      (hcall : ((Scope.mk c binding).fetch k q).outcome s = (.ok found, s')) :
      HandsOut c s s' (found.map fun h => ⟨k, h⟩)
  | locate {binding : Bool} {k : T.Kind} {id : EntityId} {h : Handle k}
      (hcall : ((Scope.mk c binding).locate k id).outcome s = (.ok h, s')) :
      HandsOut c s s' [⟨k, h⟩]

variable {given hs : List ((k : T.Kind) × Handle k)}

theorem HandsOut.delivers (hcall : HandsOut c s s' given) (hsound : Sound s)
    {a : (k : T.Kind) × Handle k} (ha : a ∈ given) : s'.Delivers c a.2 := by
  cases hcall with
  | insert hcall =>
    cases List.mem_singleton.1 ha
    exact delivers_insert hsound hcall
  | fetch hcall =>
    rcases List.mem_map.1 ha with ⟨h, hmem, rfl⟩
    exact delivers_fetch hsound hcall hmem
  | locate hcall =>
    cases List.mem_singleton.1 ha
    exact (delivers_locate hsound hcall).1

theorem HandsOut.run (hcall : HandsOut c s s' given) (hsound : Sound s) :
    Run Deed.Native s s' := by
  cases hcall with
  | @insert binding k h hcall =>
    simpa [hcall] using (advances_insert ⟨c, binding⟩ k s hsound).run
  | @fetch binding k q found hcall =>
    simpa [hcall] using (run_fetch hsound ⟨c, binding⟩ k q).mono fun _ => Deed.Reading.native
  | @locate binding k id h hcall =>
    simpa [hcall] using (run_locate hsound ⟨c, binding⟩ k id).mono fun _ => Deed.Reading.native

theorem HandsOut.storeIdOf? (hcall : HandsOut c s s' given) (hsound : Sound s) :
    s'.storeIdOf? d = s.storeIdOf? d := by
  cases hcall with
  | @insert binding k h hcall =>
    rcases insert_cases ⟨c, binding⟩ k s with ⟨fault, hfault, _⟩ | ⟨store, _, hok⟩
    · cases hcall.symm.trans hfault
    · cases hcall.symm.trans hok
      exact storeIdOf?_insertUnder
  | @fetch binding k q found hcall =>
    simpa [hcall] using (loads_fetch hsound ⟨c, binding⟩ k q).storeIdOf? d
  | @locate binding k id h hcall =>
    simpa [hcall] using (locates hsound ⟨c, binding⟩ k id).loads.storeIdOf? d

/-! ## The handles of a whole run -/

/-- The handles that a context of a store has handed out so far, the latest first. -/
inductive Received (c : ContextId) (i : StoreId) :
    Session T → List ((k : T.Kind) × Handle k) → Prop where
  | empty : Received c i .empty []
  | step {s s' : Session T} {deed : Deed} {hs : List ((k : T.Kind) × Handle k)}
      (hbefore : Received c i s hs) (hstep : Step s deed s') (hnative : deed.Native) :
      Received c i s' hs
  | call {s s' : Session T} {given hs : List ((k : T.Kind) × Handle k)}
      (hbefore : Received c i s hs) (hplace : s.storeIdOf? c = some i)
      (hcall : HandsOut c s s' given) : Received c i s' (given ++ hs)

theorem Received.run (hreceived : Received c i s hs) : Run Deed.Native .empty s := by
  induction hreceived with
  | empty => exact Run.refl _
  | step _ hstep hnative ih => exact ih.trans (hstep.run hnative)
  | call _ _ hcall ih => exact ih.trans (hcall.run (ih.sound sound_empty))

/-- What is true of a handle from when it was handed out. -/
structure Keeps (s : Session T) (c : ContextId) (i : StoreId) (h : Handle k) : Prop where
  context : h.context = c
  opened : c.number ≤ s.opened
  name : h.id.entity = T.entityName k
  holds : s.Holds h
  enrolled : (s.context? c).isSome → s.isDeleted h = false → s.Enrolled h
  unwritten : s.isTemporary h = true → s.Unwritten i h

theorem Delivers.keeps (hdelivers : s.Delivers c h) (hs : Sound s) (hreserved : Reserved s)
    (hplace : s.storeIdOf? c = some i) : s.Keeps c i h := by
  rcases hdelivers with ⟨rfl, hname, hholds, _, henrolled⟩
  rcases isOpen_of_storeIdOf? hplace with ⟨r, hctx⟩
  refine ⟨rfl, (hs.opened hctx).1, hname, hholds, fun _ _ => henrolled, ?_⟩
  intro htemporary
  rcases henrolled with ⟨pending, hentry⟩
  have hpending : pending = true := hreserved.temporary _ _ _ hentry htemporary
  exact hreserved.pending _ _ _ i hentry hplace hpending

theorem Step.keeps (hstep : Step s deed s') (hnative : deed.Native) (hs : Sound s)
    (hnumbered : Numbered s) (hkeys : KeysLeft s') (hkeeps : s.Keeps c i h) :
    s'.Keeps c i h := by
  rcases hkeeps with ⟨rfl, hopened, hname, hholds, henrolled, hunwritten⟩
  refine ⟨rfl, Nat.le_trans hopened hstep.opened_le, hname, ?_, ?_, ?_⟩
  · have hrun : Run Deed.Native s s' := hstep.run hnative
    exact hholds.run hrun
  · intro hopen hlive
    -- a context is not opened again, and a deletion is not taken back
    have hwas : (s.context? h.context).isSome := hstep.was_open hopened hopen
    have hbefore : s.isDeleted h = false := by
      by_contra hdeleted
      simp [hstep.deleted (by simpa using hdeleted)] at hlive
    exact hstep.enrolled hs hnumbered hopen hbefore (henrolled hwas hbefore)
  · intro htemporary
    have hbefore := hunwritten (hstep.temporary hholds htemporary)
    exact hstep.unwritten_of_temporary hnative hs hkeys hbefore htemporary

theorem Run.keeps (hrun : Run Deed.Native s s') (hs : Sound s) (hnumbered : Numbered s)
    (hkeys : KeysLeft s') (hkeeps : s.Keeps c i h) : s'.Keeps c i h := by
  have hkept := hrun.induct
    (P := fun s => Sound s ∧ (KeysLeft s → Numbered s ∧ s.Keeps c i h)) ?_
    ⟨hs, fun _ => ⟨hnumbered, hkeeps⟩⟩
  · exact (hkept.2 hkeys).2
  · intro a b deed hnative hstep ih
    refine ⟨hstep.sound ih.1, ?_⟩
    intro hleft
    rcases ih.2 (hstep.keysLeft hleft) with ⟨hnumbered, hkeeps⟩
    exact ⟨hstep.numbered ih.1 hleft hnumbered,
      hstep.keeps hnative ih.1 hnumbered hleft hkeeps⟩

theorem Received.keeps (hreceived : Received c i s hs) (hkeys : KeysLeft s) :
    ∀ a ∈ hs, s.Keeps c i a.2 := by
  induction hreceived with
  | empty =>
    intro a ha
    cases ha
  | @step s s' deed hs hbefore hstep hnative ih =>
    intro a ha
    have hsound : Sound s := hbefore.run.sound sound_empty
    have hleft : KeysLeft s := hstep.keysLeft hkeys
    have hnumbered : Numbered s := hbefore.run.numbered sound_empty numbered_empty hleft
    exact hstep.keeps hnative hsound hnumbered hkeys (ih hleft a ha)
  | @call s s' given hs hbefore hplace hcall ih =>
    intro a ha
    have hsound : Sound s := hbefore.run.sound sound_empty
    have hrun : Run Deed.Native s s' := hcall.run hsound
    rcases List.mem_append.1 ha with hnew | hold
    · have hreserved : Reserved s' :=
        (hbefore.run.trans hrun).reserved sound_empty numbered_empty reserved_empty hkeys
      have hplace' : s'.storeIdOf? c = some i := (hcall.storeIdOf? hsound).trans hplace
      exact (hcall.delivers hsound hnew).keeps (hrun.sound hsound) hreserved hplace'
    · have hleft : KeysLeft s := hrun.keysLeft hkeys
      have hnumbered : Numbered s := hbefore.run.numbered sound_empty numbered_empty hleft
      exact hrun.keeps hsound hnumbered hkeys (ih hleft a hold)

/-- Live handles of one id are one handle. -/
theorem Received.unique (hreceived : Received c i s hs) (hkeys : KeysLeft s) :
    ∀ a ∈ hs, ∀ b ∈ hs, a.2.id = b.2.id → s.isDeleted a.2 = false → s.isDeleted b.2 = false →
      a = b := by
  induction hreceived with
  | empty =>
    intro a ha
    cases ha
  | @step s s' deed hs hbefore hstep hnative ih =>
    intro a ha b hb hid hlive hlive'
    have hback : ∀ {k : T.Kind} {h : Handle k}, s'.isDeleted h = false →
        s.isDeleted h = false := by
      intro k h hlive
      by_contra hdeleted
      simp [hstep.deleted (by simpa using hdeleted)] at hlive
    exact ih (hstep.keysLeft hkeys) a ha b hb hid (hback hlive) (hback hlive')
  | @call s s' given hs hbefore hplace hcall ih =>
    intro a ha b hb hid hlive hlive'
    have hkeeps := (Received.call hbefore hplace hcall).keeps hkeys
    -- the context is open, so both stand in its registry
    have hopen : (s'.context? c).isSome := by
      have hplace' : s'.storeIdOf? c = some i :=
        (hcall.storeIdOf? (hbefore.run.sound sound_empty)).trans hplace
      simp [isSome_context?, hplace']
    have hcontext : a.2.context = b.2.context :=
      (hkeeps a ha).context.trans (hkeeps b hb).context.symm
    exact ((hkeeps a ha).enrolled hopen hlive).unique ((hkeeps b hb).enrolled hopen hlive')
      hcontext hid

/-- A context is an identity map, as long as keys are left and nothing is imported.  Of the handles
that it has handed out, those of one id that are live are one handle, and those that are still
temporary have no row.  Its registry has one object under each key, of that key.  And what it hands
out next belongs to it, is of the type and the id that were asked for, and is live. -/
theorem identity_map (hreceived : Received c i s hs) (hkeys : KeysLeft s) :
    (∀ a ∈ hs, ∀ b ∈ hs, a.2.id = b.2.id → s.isDeleted a.2 = false →
      s.isDeleted b.2 = false → a = b) ∧
    (∀ a ∈ hs, s.isTemporary a.2 = true → ∀ store, s.store? i = some store →
      store.rows.row? a.2.id = none) ∧
    (∀ key e, (s.registry c).get? key = some e → e.id.key = key ∧ e.handle.context = c ∧
      s.Holds e.handle ∧ ∀ key' e', (s.registry c).get? key' = some e' → e'.slot = e.slot →
        key' = key) ∧
    ∀ (binding : Bool) (k : T.Kind) (s' : Session T),
      (∀ h : Handle k, ((Scope.mk c binding).insert k).outcome s = (.ok h, s') →
        s'.Delivers c h) ∧
      (∀ q found, ((Scope.mk c binding).fetch k q).outcome s = (.ok found, s') →
        ∀ h ∈ found, s'.Delivers c h) ∧
      (∀ id, ∀ h : Handle k, ((Scope.mk c binding).locate k id).outcome s = (.ok h, s') →
        s'.Delivers c h ∧ h.id = id) := by
  have hsound : Sound s := hreceived.run.sound sound_empty
  refine ⟨hreceived.unique hkeys, ?_, ?_, ?_⟩
  · intro a ha htemporary
    exact ((hreceived.keeps hkeys a ha).unwritten htemporary).row
  · intro key e he
    have hlodged := hsound.lodged he
    refine ⟨hlodged.key, hlodged.context, hlodged.entity, ?_⟩
    intro key' e' he' hslot
    exact (hsound.slots he' he hslot).2
  · intro binding k s'
    exact ⟨fun h => delivers_insert hsound, fun q found hfetch h => delivers_fetch hsound hfetch,
      fun id h => delivers_locate hsound⟩

section Refetching

open Sample

theorem received_bothOpen : Received ⟨1⟩ ⟨0⟩ bothOpen [] :=
  ((Received.empty.step (.openStore _ blogSchema .default) trivial).step
    (.openContext _ ⟨0⟩ rfl) trivial).step (.openContext _ ⟨0⟩ rfl) trivial

theorem received_inserted :
    Received ⟨1⟩ ⟨0⟩ (bothOpen.insertUnder ⟨1⟩ Kind.tag 1) [⟨Kind.tag, ⟨0, tagId, ⟨1⟩⟩⟩] := by
  have hinsert : ((Scope.mk ⟨1⟩ true).insert (T := model) Kind.tag).outcome bothOpen =
      (.ok ⟨0, tagId, ⟨1⟩⟩, bothOpen.insertUnder ⟨1⟩ Kind.tag 1) := rfl
  exact received_bothOpen.call rfl (.insert hinsert)

theorem received_redSaved : Received ⟨1⟩ ⟨0⟩ redSaved [⟨Kind.tag, ⟨0, tagId, ⟨1⟩⟩⟩] := by
  have hedited : (tagNamed none true).Edited (tagNamed (some "red") true) :=
    Entity.edited_write (e := tagNamed none true) (⟨some "red", none⟩ : Tag)
  have hedit : Step (bothOpen.insertUnder ⟨1⟩ Kind.tag 1) (.changed 0) redWritten :=
    Step.edit rfl hedited
  have hcollect : redWritten.collect ⟨1⟩ (redWritten.registry ⟨1⟩).values =
      .ok (tagChanges "red") := rfl
  exact (received_inserted.step hedit trivial).step (Step.save hcollect) trivial

/-- A tag that is fetched after it was saved is the handle that its insertion gave out. -/
theorem fetch_inserted_red : ∃ (s' : Session model) (h : Handle Kind.tag),
    ((Scope.mk ⟨1⟩ true).fetch (T := model) Kind.tag (.all "Tag")).outcome redSaved =
      (.ok [h], s') ∧
    h.id = tagId ∧ (⟨Kind.tag, h⟩ : (k : Sample.Kind) × Handle k) =
      ⟨Kind.tag, ⟨0, tagId, ⟨1⟩⟩⟩ := by
  have hfetch : ((Scope.mk ⟨1⟩ true).fetch (T := model) Kind.tag (.all "Tag")).outcome redSaved =
      (.ok [⟨0, tagId, ⟨1⟩⟩],
        (((Scope.mk ⟨1⟩ true).fetch (T := model) Kind.tag (.all "Tag")).outcome redSaved).2) := rfl
  have hreceived := received_redSaved.call (c := ⟨1⟩) (i := ⟨0⟩) rfl (.fetch hfetch)
  refine ⟨_, _, hfetch, rfl, ?_⟩
  exact (identity_map hreceived (by decide +kernel)).1 _ (List.mem_cons_self) _
    (List.mem_append_right _ (List.mem_singleton_self _)) rfl rfl rfl

end Refetching

end Session

end Reconcile
