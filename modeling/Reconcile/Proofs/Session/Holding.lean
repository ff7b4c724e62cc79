import Reconcile.Proofs.Sample.Brackets
import Reconcile.Proofs.Session.Likeness
import Reconcile.Proofs.Session.Visibility

/-!
# Entities that are held

While somebody holds entities and writes to them, others see what was published before, so fetches
answer as they did before the entities were held.  When they are let go of, it is as if the same
values had been written without holding the entities.

What is published stands in for a value only if the value has a payload.
-/

namespace Reconcile

theorem Model.published_eq {T : Model} {k : T.Kind} (v : T.Value k) :
    Model.published v = (Model.payload v).toOption := by
  unfold Model.published Model.payload
  cases T.encode v <;> rfl

namespace Entity

variable {T : Model} {k : T.Kind} {before m after : Entity T}

theorem hold_hold (m : Entity T) : m.hold.hold = m.hold := rfl

theorem release_release (m : Entity T) : m.release.release = m.release := by
  rcases m with ⟨kind, state, published, temporary, deleted, filling, guard⟩
  cases guard with
  | free => rfl
  | held touched => cases touched <;> rfl

theorem release_hold (h : m.guard = .free) : m.hold.release = m := by
  rcases m with ⟨kind, state, published, temporary, deleted, filling, guard⟩
  cases h
  rfl

/-- Letting go after a write is writing after letting go. -/
theorem release_write (h : m.guard ≠ .free) (v : T.Value k) :
    (m.write v).release = m.release.write v := by
  rcases m with ⟨kind, state, published, temporary, deleted, filling, guard⟩
  cases guard with
  | free => exact absurd rfl h
  | held touched => cases touched <;> rfl

theorem isHeld_iff : m.isHeld = true ↔ m.guard ≠ .free := by
  unfold isHeld
  cases m.guard <;> simp

/-- The entity is held, and when it is let go of it will be this other one.  Meanwhile others see
what was published before. -/
structure Held (before m after : Entity T) : Prop where
  guard : m.guard ≠ .free
  release : m.release = after
  published : m.published = before.published
  deleted : m.deleted = before.deleted

theorem held_hold (h : m.guard = .free) : Held m m.hold m := by
  refine ⟨?_, release_hold h, rfl, rfl⟩
  intro hfree
  cases hfree

theorem Held.write (h : Held before m after) (v : T.Value k) :
    Held before (m.write v) (after.write v) := by
  have hrelease := release_write h.guard v
  rw [h.release] at hrelease
  rcases m with ⟨kind, state, published, temporary, deleted, filling, guard⟩
  cases guard with
  | free => exact absurd rfl h.guard
  | held touched =>
    refine ⟨?_, hrelease, h.published, h.deleted⟩
    intro hfree
    cases hfree

/-- To others an entity that is held looks as it did before, if its value had a payload. -/
theorem Held.looksLike (h : Held before m after) (hsettled : before.Settled)
    (hfilling : before.filling = false) (hfree : before.guard = .free) {payload : Json}
    (hpayload : Model.payload before.state = .ok payload) : before.LooksLike m := by
  refine ⟨h.deleted, ?_⟩
  have hpublished : m.published = some payload := by
    calc m.published
        = before.published := h.published
      _ = Model.published before.state := hsettled hfilling (by simp [hfree])
      _ = some payload := by rw [Model.published_eq, hpayload]; rfl
  have hshown : before.visible? = some (.ok payload) := by
    rw [visible?, live?, hfilling, isHeld, hfree, hpayload]
    rfl
  have hhidden : m.live? = none := by
    rw [live?, isHeld_iff.2 h.guard, Bool.or_true]
    rfl
  rw [hshown, visible?, hhidden, hpublished]
  rfl

end Entity

namespace Session

variable {T : Model} {k : T.Kind} {s now plain : Session T} {slots : List Nat}

/-! ## Changing many entities -/

/-- Changes the entities in these slots in turn. -/
def modifyEach (s : Session T) (slots : List Nat) (f : Entity T → Entity T) : Session T :=
  slots.foldl (fun s n => s.modifyEntity n f) s

theorem entity?_modifyEach {f : Entity T → Entity T} (hf : ∀ m, f (f m) = f m) (s : Session T)
    (slots : List Nat) (n : Nat) : (s.modifyEach slots f).entity? n =
      if n ∈ slots then (s.entity? n).map f else s.entity? n := by
  induction slots generalizing s with
  | nil => rfl
  | cons slot rest ih =>
    have hrest : (s.modifyEach (slot :: rest) f).entity? n =
        ((s.modifyEntity slot f).modifyEach rest f).entity? n := rfl
    rw [hrest, ih, entity?_modifyEntity]
    by_cases hslot : slot = n
    · subst hslot
      rw [if_pos rfl, Option.map_map, if_pos List.mem_cons_self]
      have htwice : f ∘ f = f := funext hf
      rw [htwice, ite_self]
    · rw [if_neg hslot]
      simp only [List.mem_cons, Ne.symm hslot, false_or]

theorem modifyEach_eq (s : Session T) (slots : List Nat) (f : Entity T → Entity T) :
    s.modifyEach slots f = { s with entities := (s.modifyEach slots f).entities } := by
  induction slots generalizing s with
  | nil => rfl
  | cons slot rest ih => exact ih (s.modifyEntity slot f)

theorem ext_entities (hnow : now = { s with entities := now.entities })
    (hplain : plain = { s with entities := plain.entities })
    (h : ∀ n, now.entity? n = plain.entity? n) : now = plain := by
  have hentities : now.entities = plain.entities := Array.ext_getElem? h
  rw [hnow, hplain, hentities]

theorem size_modifyEach (s : Session T) (slots : List Nat) (f : Entity T → Entity T) :
    (s.modifyEach slots f).entities.size = s.entities.size := by
  induction slots generalizing s with
  | nil => rfl
  | cons slot rest ih => exact (ih (s.modifyEntity slot f)).trans (size_modifyEntity s slot f)

/-! ## Holding, writing and letting go -/

/-- A value for an entity. -/
structure Mutation (T : Model) where
  entry : Entry T
  value : T.Value entry.kind

def holdAll (s : Session T) (es : List (Entry T)) : Session T :=
  es.foldl (fun s e => s.hold e.handle) s

def releaseAll (s : Session T) (es : List (Entry T)) : Session T :=
  es.foldl (fun s e => s.release e.handle) s

def writeAll (s : Session T) (ws : List (Mutation T)) : Session T :=
  ws.foldl (fun s w => s.write w.entry.handle w.value) s

theorem holdAll_eq (s : Session T) (es : List (Entry T)) :
    s.holdAll es = s.modifyEach (es.map Entry.slot) Entity.hold := by
  rw [holdAll, modifyEach, List.foldl_map]
  rfl

theorem releaseAll_eq (s : Session T) (es : List (Entry T)) :
    s.releaseAll es = s.modifyEach (es.map Entry.slot) Entity.release := by
  rw [releaseAll, modifyEach, List.foldl_map]
  rfl

/-- The entities in these slots are held in the session that is here now.  Had they not been held,
it would be the plain one. -/
structure Guards (slots : List Nat) (s now plain : Session T) : Prop where
  now_eq : now = { s with entities := now.entities }
  plain_eq : plain = { s with entities := plain.entities }
  size : now.entities.size = s.entities.size
  size_plain : plain.entities.size = s.entities.size
  held : ∀ n ∈ slots, ∀ m, s.entity? n = some m → ∃ m' after, now.entity? n = some m' ∧
    plain.entity? n = some after ∧ m.Held m' after
  others : ∀ n, n ∉ slots → now.entity? n = s.entity? n ∧ plain.entity? n = s.entity? n

theorem guards_holdAll {es : List (Entry T)}
    (hfree : ∀ e ∈ es, ∀ m, s.entity? e.slot = some m → m.guard = .free) :
    Guards (es.map Entry.slot) s (s.holdAll es) s := by
  rw [holdAll_eq]
  constructor
  case now_eq => exact modifyEach_eq s _ _
  case plain_eq => rfl
  case size => exact size_modifyEach s _ _
  case size_plain => rfl
  case held =>
    intro n hn m hm
    rcases List.mem_map.1 hn with ⟨e, he, rfl⟩
    refine ⟨m.hold, m, ?_, hm, Entity.held_hold (hfree e he m hm)⟩
    rw [entity?_modifyEach Entity.hold_hold, if_pos hn, hm]
    rfl
  case others =>
    intro n hn
    rw [entity?_modifyEach Entity.hold_hold, if_neg hn]
    exact ⟨rfl, rfl⟩

namespace Guards

theorem write (h : Guards slots s now plain) {item : Handle k} (hitem : item.slot ∈ slots)
    (v : T.Value k) : Guards slots s (now.write item v) (plain.write item v) := by
  constructor
  case now_eq =>
    rw [h.now_eq]
    rfl
  case plain_eq =>
    rw [h.plain_eq]
    rfl
  case size => exact (size_modifyEntity now _ _).trans h.size
  case size_plain => exact (size_modifyEntity plain _ _).trans h.size_plain
  case held =>
    intro n hn m hm
    rcases h.held n hn m hm with ⟨m', after, hm', hafter, hheld⟩
    by_cases hslot : n = item.slot
    · subst hslot
      exact ⟨_, _, entity?_modifyEntity_self hm' _, entity?_modifyEntity_self hafter _,
        hheld.write v⟩
    · exact ⟨m', after, (entity?_modifyEntity_of_ne now hslot _).trans hm',
        (entity?_modifyEntity_of_ne plain hslot _).trans hafter, hheld⟩
  case others =>
    intro n hn
    have hslot : n ≠ item.slot := fun heq => hn (heq ▸ hitem)
    rcases h.others n hn with ⟨hnow, hplain⟩
    exact ⟨(entity?_modifyEntity_of_ne now hslot _).trans hnow,
      (entity?_modifyEntity_of_ne plain hslot _).trans hplain⟩

theorem writeAll (h : Guards slots s now plain) {ws : List (Mutation T)}
    (hws : ∀ w ∈ ws, w.entry.slot ∈ slots) :
    Guards slots s (now.writeAll ws) (plain.writeAll ws) := by
  induction ws generalizing now plain with
  | nil => exact h
  | cons w rest ih =>
    refine ih (h.write (hws w List.mem_cons_self) w.value) ?_
    exact fun w hw => hws w (List.mem_cons_of_mem _ hw)

/-- When the entities are let go of, in whatever order, it is as if they had not been held. -/
theorem releaseAll (h : Guards slots s now plain) {es : List (Entry T)}
    (hes : ∀ n, n ∈ es.map Entry.slot ↔ n ∈ slots) : now.releaseAll es = plain := by
  rw [releaseAll_eq]
  have hnow : now.modifyEach (es.map Entry.slot) Entity.release =
      { s with entities := (now.modifyEach (es.map Entry.slot) Entity.release).entities } := by
    rw [modifyEach_eq, h.now_eq]
  refine ext_entities hnow h.plain_eq ?_
  intro n
  rw [entity?_modifyEach Entity.release_release]
  by_cases hn : n ∈ slots
  · rw [if_pos ((hes n).2 hn)]
    cases hm : s.entity? n with
    | some m =>
      rcases h.held n hn m hm with ⟨m', after, hm', hafter, hheld⟩
      rw [hm', hafter, Option.map_some, hheld.release]
    | none =>
      have hsize : s.entities.size ≤ n := Array.getElem?_eq_none_iff.1 hm
      have hnone : now.entity? n = none := Array.getElem?_eq_none_iff.2 (h.size ▸ hsize)
      have hnone' : plain.entity? n = none := Array.getElem?_eq_none_iff.2 (h.size_plain ▸ hsize)
      rw [hnone, hnone']
      rfl
  · rcases h.others n hn with ⟨hnow, hplain⟩
    rw [if_neg fun hmem => hn ((hes n).1 hmem), hnow, hplain]

/-- Fetches cannot tell that the entities are held, if their values had payloads. -/
theorem alike (h : Guards slots s now plain) (hs : Sound s)
    (hready : ∀ n ∈ slots, ∀ m, s.entity? n = some m → m.filling = false ∧ m.guard = .free ∧
      ∃ payload, Model.payload m.state = .ok payload) (c : ContextId) :
    Alike (fun n => n) c s now := by
  have hcontexts : now.contexts = s.contexts := by rw [h.now_eq]
  have hstores : now.stores = s.stores := by rw [h.now_eq]
  have hcontext : now.context? c = s.context? c := congrArg (fun m => m.get? c) hcontexts
  have hstore : now.storeOf? c = s.storeOf? c := by
    rw [storeOf?, hcontext, storeOf?]
    exact congrArg (fun stores : Array Store =>
      (s.context? c).bind fun ctx => stores[ctx.store.number]?) hstores
  constructor
  case isOpen => rw [storeIdOf?, hcontext, storeIdOf?]
  case schemaOf => rw [schemaOf, hstore, schemaOf]
  case settingsOf => rw [settingsOf, hstore, settingsOf]
  case rowsOf => rw [rowsOf, hstore, rowsOf]
  case aligned =>
    intro n
    rw [h.size]
  case registry =>
    rw [registry_congr hcontext]
    exact (SortedMap.map_eq_self fun _ _ => rfl).symm
  case entity =>
    intro e he
    rcases SortedMap.mem_values_iff.1 he with ⟨key, hget⟩
    rcases (hs.lodged hget).entity with ⟨m, hm, _⟩
    by_cases hn : e.slot ∈ slots
    · rcases h.held _ hn m hm with ⟨m', after, hm', _, hheld⟩
      rcases hready _ hn m hm with ⟨hfilling, hfree, payload, hpayload⟩
      exact ⟨m, m', hm, hm', hheld.looksLike (hs.settled hm) hfilling hfree hpayload⟩
    · exact ⟨m, m, hm, (h.others _ hn).1.trans hm, .refl m⟩

end Guards

/-- What others see does not depend on who holds what: from whatever state a session can be in,
whichever registered entities are held and whatever is written to them, every fetch answers as it did
before, and once the entities are let go of nothing is different from plain writes.  What is
published of an entity that nobody uses is the payload of its value. -/
theorem fetch_held (hrun : Run (fun _ => True) .empty s) (hidle : s.Idle) {es : List (Entry T)}
    (hregistered : ∀ e ∈ es, ∃ c key, (s.registry c).get? key = some e)
    (hfree : ∀ e ∈ es, ∀ m, s.entity? e.slot = some m → m.guard = .free) {ws : List (Mutation T)}
    (hws : ∀ w ∈ ws, w.entry ∈ es) :
    ((∀ e ∈ es, ∃ payload, s.payload e.handle = .ok payload) →
      ∀ (scope : Scope) (k : T.Kind) (q : Query),
        ((scope.fetch k q).outcome ((s.holdAll es).writeAll ws)).1 =
          ((scope.fetch k q).outcome s).1) ∧
    (∀ es', (∀ e, e ∈ es' ↔ e ∈ es) →
      ((s.holdAll es).writeAll ws).releaseAll es' = s.writeAll ws) ∧
    ∀ n m, s.entity? n = some m → m.filling = false → m.guard = .free →
      m.published = (Model.payload m.state).toOption := by
  have hs : Sound s := hrun.sound sound_empty
  have hguards := (guards_holdAll hfree).writeAll fun w hw =>
    List.mem_map.2 ⟨w.entry, hws w hw, rfl⟩
  refine ⟨?_, ?_, ?_⟩
  · intro hpayloads scope k q
    have halike := hguards.alike hs ?_ scope.context
    · have hsame : List.map (Handle.placed fun n => n) = (id : List (Handle k) → List (Handle k)) :=
        funext fun found => List.map_id found
      have hresult := (halike.fetch k q).result
      rw [hsame, Except.map_id] at hresult
      exact hresult
    · intro n hn m hm
      rcases List.mem_map.1 hn with ⟨e, he, rfl⟩
      refine ⟨hidle _ m hm, hfree e he m hm, ?_⟩
      rcases hregistered e he with ⟨c, key, hget⟩
      rcases hpayloads e he with ⟨payload, hpayload⟩
      refine ⟨payload, ?_⟩
      rcases (hs.lodged hget).entity with ⟨m', hm', hkind⟩
      cases hm.symm.trans hm'
      rcases e with ⟨kind, handle, pending⟩
      obtain rfl : m.kind = kind := hkind
      rwa [Session.payload, value_of_entity? (h := handle) hm, Entity.value_self] at hpayload
  · intro es' hes
    refine hguards.releaseAll ?_
    intro n
    simp only [List.mem_map, hes]
  · intro n m hm hfilling hguard
    rw [hs.settled hm hfilling (by simp [hguard]), Model.published_eq]

/-! ## A tag that is renamed while it is held -/

section Sample

open Sample

/-- A store and a context that has reconciled one plain value. -/
def reconciledIn {k : Sample.Kind} (p : Plain k) : Session model :=
  (mapping.reconcile (T := model) (k := k) (.within ⟨1⟩) p pure nodesOpen).2

theorem run_reconciledIn {k : Sample.Kind} (p : Plain k) :
    Run (fun _ => True) .empty (reconciledIn p) := by
  have hreconcile := (lawful.reconcile (T := model) (k := k) (.within ⟨1⟩) p
    (fun w => reads_sample.pure w) _ (run_nodesOpen.sound sound_empty)).run
  exact run_nodesOpen.trans (hreconcile.mono fun _ _ => trivial)

def redIn : Session model := reconciledIn (k := .tag) ⟨"red", none⟩

def redEntry : Entry model := ⟨Kind.tag, ⟨0, ⟨"Tag", 1⟩, ⟨1⟩⟩, true⟩

def renamed : Mutation model := ⟨redEntry, (⟨some "blue", none⟩ : Tag)⟩

/-- The tag is found by the name that it had before it was held, and afterwards it is not. -/
theorem fetch_held_red :
    (((Scope.within ⟨1⟩).fetch (T := model) Kind.tag (namedTag "red")).outcome
      ((redIn.holdAll [redEntry]).writeAll [renamed])).1 = .ok [⟨0, ⟨"Tag", 1⟩, ⟨1⟩⟩] ∧
    (((Scope.within ⟨1⟩).fetch (T := model) Kind.tag (namedTag "red")).outcome
      (((redIn.holdAll [redEntry]).writeAll [renamed]).releaseAll [redEntry])).1 = .ok [] := by
  have hunused : ∀ m ∈ redIn.entities, m.filling = false ∧ m.guard = .free := by decide +kernel
  have hidle : redIn.Idle := fun n m hm => (hunused m (Array.mem_of_getElem? hm)).1
  have hregistered : ∀ e ∈ [redEntry], ∃ c key, (redIn.registry c).get? key = some e := by
    intro e he
    cases List.mem_singleton.1 he
    exact ⟨⟨1⟩, 1, rfl⟩
  have hfree : ∀ e ∈ [redEntry], ∀ m, redIn.entity? e.slot = some m → m.guard = .free :=
    fun _ _ m hm => (hunused m (Array.mem_of_getElem? hm)).2
  have hws : ∀ w ∈ [renamed], w.entry ∈ [redEntry] := by
    intro w hw
    cases List.mem_singleton.1 hw
    exact List.mem_singleton_self _
  have hrun : Run (fun _ => True) .empty redIn := run_reconciledIn (k := .tag) ⟨"red", none⟩
  rcases fetch_held hrun hidle hregistered hfree hws with ⟨hfetch, hrelease, _⟩
  constructor
  · refine (hfetch ?_ (.within ⟨1⟩) Kind.tag (namedTag "red")).trans rfl
    intro e he
    cases List.mem_singleton.1 he
    exact ⟨.ofFields [("name", .string "red"), ("colour", .null)], rfl⟩
  · rw [hrelease [redEntry] fun _ => Iff.rfl]
    rfl

def boomIn : Session model := reconciledIn (k := .brittle) ⟨"boom"⟩

/-- An entity whose value has no payload keeps every fetch of its type from answering, but not while
it is held. -/
theorem fetch_past_held_brittle : ∃ e : Entry model,
    Run (fun _ => True) .empty boomIn ∧ boomIn.Idle ∧ (boomIn.registry ⟨1⟩).get? 1 = some e ∧
      (∀ m, boomIn.entity? e.slot = some m → m.guard = .free) ∧
      (((Scope.within ⟨1⟩).fetch (T := model) Kind.brittle (.all "Brittle")).outcome boomIn).1 =
        .error (.serialization "boom") ∧
      (((Scope.within ⟨1⟩).fetch (T := model) Kind.brittle (.all "Brittle")).outcome
        (boomIn.holdAll [e])).1 = .ok [] := by
  have hunused : ∀ m ∈ boomIn.entities, m.filling = false ∧ m.guard = .free := by decide +kernel
  refine ⟨⟨Kind.brittle, ⟨0, ⟨"Brittle", 1⟩, ⟨1⟩⟩, true⟩, run_reconciledIn (k := .brittle) ⟨"boom"⟩,
    ?_, rfl, ?_, rfl, rfl⟩
  · exact fun n m hm => (hunused m (Array.mem_of_getElem? hm)).1
  · exact fun m hm => (hunused m (Array.mem_of_getElem? hm)).2

end Sample

end Session

end Reconcile
