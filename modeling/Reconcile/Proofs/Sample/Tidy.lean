import Reconcile.Proofs.Sample.Keys
import Reconcile.Proofs.Session.Upkeep
import Reconcile.Sample.Schema

/-!
# Contexts without duplicates

A context of the sample model is *tidy* if the values that it sees have natural keys, no two of a
type the same one, and so have the rows of its store (`Tidy`).  For this to be kept by reconciling
and saving, more has to hold of it: everything in its registry is of the blog or a folder and shows
the payload of its value, even while it is filled, and rows were written by such values.

Each change that is made of a session in one go is taken by itself here.
-/

namespace Reconcile.Sample

open Session

variable {s s' : Session model} {c d : ContextId} {k l : Kind} {key : UInt64}

/-! ## Values with keys of their own -/

/-- Values that are held under numbers have natural keys, no two of a type the same one. -/
structure Distinct (held : (k : Kind) → UInt64 → Value k → Prop) : Prop where
  keyed : ∀ k key v, k.IsKeyed → held k key v → ∃ n, Value.naturalKey? v = some n
  apart : ∀ k key key' v v', k.IsKeyed → held k key v → held k key' v' →
    Value.naturalKey? v = Value.naturalKey? v' → key = key'

section Distinct

variable {held held' : (k : Kind) → UInt64 → Value k → Prop}

/-- Values stay distinct if those that are held now have the natural keys of what was held before
under the same numbers. -/
theorem Distinct.of_kept (h : Distinct held) (hkept : ∀ k key v', k.IsKeyed → held' k key v' →
    ∃ v, held k key v ∧ Value.naturalKey? v' = Value.naturalKey? v) : Distinct held' where
  keyed k key v' hk hv' := by
    rcases hkept k key v' hk hv' with ⟨v, hv, heq⟩
    rw [heq]
    exact h.keyed k key v hk hv
  apart k key key' v v' hk hv hv' heq := by
    rcases hkept k key v hk hv with ⟨w, hw, hsame⟩
    rcases hkept k key' v' hk hv' with ⟨w', hw', hsame'⟩
    refine h.apart k key key' w w' hk hw hw' ?_
    calc
      Value.naturalKey? w = Value.naturalKey? v := hsame.symm
      _ = Value.naturalKey? v' := heq
      _ = Value.naturalKey? w' := hsame'

/-- Values stay distinct if another one comes with a natural key that none of them has. -/
theorem Distinct.add (h : Distinct held)
    (hkept : ∀ k key' v, k.IsKeyed → key' ≠ key → held' k key' v → held k key' v)
    (hadded : ∀ k v, k.IsKeyed → held' k key v → ∃ n, Value.naturalKey? v = some n ∧
      ∀ key' w, held k key' w → Value.naturalKey? w ≠ some n) : Distinct held' where
  keyed k key' v hk hv := by
    by_cases hkey : key' = key
    · subst hkey
      rcases hadded k v hk hv with ⟨n, hn, _⟩
      exact ⟨n, hn⟩
    · exact h.keyed k key' v hk (hkept k key' v hk hkey hv)
  apart k key₁ key₂ v v' hk hv hv' heq := by
    by_cases h₁ : key₁ = key
    · by_cases h₂ : key₂ = key
      · exact h₁.trans h₂.symm
      · subst h₁
        rcases hadded k v hk hv with ⟨n, hn, hother⟩
        exact absurd (heq.symm.trans hn) (hother key₂ v' (hkept k key₂ v' hk h₂ hv'))
    · have hv₁ := hkept k key₁ v hk h₁ hv
      by_cases h₂ : key₂ = key
      · subst h₂
        rcases hadded k v' hk hv' with ⟨n, hn, hother⟩
        exact absurd (heq.trans hn) (hother key₁ v hv₁)
      · exact h.apart k key₁ key₂ v v' hk hv₁ (hkept k key₂ v' hk h₂ hv') heq

end Distinct

/-! ## Tidy contexts -/

/-- The context sees this value. -/
def Sees (s : Session model) (c : ContextId) (k : Kind) (key : UInt64) (v : Value k) : Prop :=
  s.seen? c k key = some v

/-- There is a row with the payload of this value. -/
def Files (rows : Rows) (k : Kind) (key : UInt64) (v : Value k) : Prop :=
  ∃ row, rows.row? ⟨k.entityName, key⟩ = some row ∧ Value.encode v = .ok row.payload

/-- The payload that was published is that of the value, whoever holds or fills the entity. -/
def Open (m : Entity model) : Prop := m.published = Model.published m.state

structure Tidy (c : ContextId) (s : Session model) : Prop where
  ordered : s.Ordered
  place : s.storeIdOf? c = some ⟨0⟩
  store : ∃ store, s.store? ⟨0⟩ = some store ∧ store.schema = folderSchema ∧
    store.settings.includePending = true
  blog : ∀ key e, (s.registry c).get? key = some e → e.kind.IsBlog
  shown : ∀ key e m, (s.registry c).get? key = some e → s.entity? e.slot = some m → Open m
  fresh : ∀ key e, (s.registry c).get? key = some e → e.pending = true →
    (s.rowsOf c).row? e.id = none
  written : ∀ id row, (s.rowsOf c).row? id = some row → ∃ (k : Kind) (v : Value k), k.IsBlog ∧
    id.entity = k.entityName ∧ Value.encode v = .ok row.payload
  rows : Distinct (Files (s.rowsOf c))
  seen : Distinct (Sees s c)

/-! ### What tidiness gives -/

theorem Tidy.storeOf? (h : Tidy c s) : ∃ store, s.storeOf? c = some store ∧
    store.schema = folderSchema ∧ store.settings.includePending = true := by
  rcases h.store with ⟨store, hstore, hschema, hpending⟩
  refine ⟨store, ?_, hschema, hpending⟩
  rw [storeOf?_eq, h.place]
  exact hstore

theorem Tidy.written_of_row (h : Tidy c s) (hk : k.IsBlog) {row : Row}
    (hrow : (s.rowsOf c).row? ⟨k.entityName, key⟩ = some row) :
    ∃ v : Value k, Value.encode v = .ok row.payload := by
  rcases h.written _ row hrow with ⟨k', v, hk', hname, hencode⟩
  cases hk.ext hk' hname
  exact ⟨v, hencode⟩

theorem Open.shown {m : Entity model} (h : Open m) (hk : Kind.IsBlog m.kind) : m.Shown := by
  rcases exists_encode hk m.state with ⟨payload, hencode⟩
  have hpayload := payload_of_encode (T := model) hencode
  have hpublished : m.published = some payload := h.trans (congrArg Except.toOption hencode)
  unfold Entity.Shown Entity.visible? Entity.live?
  rw [hpayload, hpublished]
  -- what is published is the payload, so it does not matter whether the value is hidden
  by_cases hhidden : (m.filling || m.isHeld) = true
  · rw [if_pos hhidden]
    rfl
  · rw [if_neg hhidden]

theorem described (hk : k.IsBlog) {p : Plain k} {n : NaturalKey}
    (hkey : Plain.naturalKey p = some n) :
    ∃ d, folderSchema.require k.entityName = .ok d ∧ (d.attribute? n.key).isSome := by
  cases k with
  | tag =>
    cases hkey
    exact ⟨tagDescription, by decide +kernel, rfl⟩
  | author =>
    cases hkey
    exact ⟨authorDescription, by decide +kernel, rfl⟩
  | post =>
    cases hkey
    exact ⟨postDescription, by decide +kernel, rfl⟩
  | folder =>
    cases hkey
    exact ⟨folderDescription, by decide +kernel, rfl⟩
  | comment => cases hkey
  | _ => exact absurd hk id

/-- The entities of a type can be found by their natural keys. -/
theorem Tidy.ready (h : Tidy c s) (hk : k.IsBlog) {p : Plain k} {n : NaturalKey}
    (hkey : Plain.naturalKey p = some n) :
    s.Ready (k := k) c n.key Entity.Shown := by
  rcases h.storeOf? with ⟨store, hstore, hschema, hpending⟩
  constructor
  case pending =>
    rw [takesPending, settingsOf, hstore]
    exact hpending
  case described =>
    rw [schemaOf, hstore]
    dsimp only
    rw [hschema]
    exact described hk hkey
  case readable =>
    intro key row hrow _
    rcases h.written_of_row hk hrow with ⟨v, hencode⟩
    exact Option.isSome_iff_exists.2 ⟨_, Value.decode_of_encode (some c) hencode⟩
  case live =>
    intro key e m he hname hm _
    have hlodged := h.ordered.sound.lodged he
    have hkind : e.kind = k := (h.blog key e he).ext hk (hlodged.name.symm.trans hname)
    rcases hlodged.entity with ⟨m', hm', hmkind⟩
    cases hm.symm.trans hm'
    exact ⟨hkind, (h.shown key e m he hm).shown (hmkind ▸ h.blog key e he)⟩

/-- What is seen of a row that was not read yet is filed under the same key. -/
theorem Tidy.files_of_row (h : Tidy c s) (hk : k.IsBlog) {v : Value k} {row : Row}
    (hrow : (s.rowsOf c).row? ⟨k.entityName, key⟩ = some row) {source : Option ContextId}
    (hdecode : Value.decode k source row.payload = some v) : Files (s.rowsOf c) k key v := by
  rcases h.written_of_row hk hrow with ⟨w, hencode⟩
  exact ⟨row, hrow, encode_of_decode source hencode hdecode⟩

/-! ## Changes of entities -/

/-- The same entity with another value of the same natural key, or deleted. -/
structure Alike (m m' : Entity model) : Prop where
  kind : m'.kind = m.kind
  live : m'.deleted = false → m.deleted = false
  shown : Open m → Open m'
  key : Value.naturalKey? (m'.value m.kind : Value m.kind) = Value.naturalKey? m.state

theorem Tidy.modifyEntity (h : Tidy c s) {slot : Nat} {f : Entity model → Entity model}
    (hsound : Sound (s.modifyEntity slot f))
    (hf : ∀ m, s.entity? slot = some m → Alike m (f m)) : Tidy c (s.modifyEntity slot f) where
  ordered := ⟨hsound, h.ordered.numbered, h.ordered.unambiguous⟩
  place := h.place
  store := h.store
  blog := h.blog
  fresh := h.fresh
  written := h.written
  rows := h.rows
  shown key e m' he hm' := by
    rcases entity?_of_modifyEntity hm' with ⟨m, hslot, hm, rfl⟩ | ⟨_, hm⟩
    · exact (hf m (hslot ▸ hm)).shown (h.shown key e m he hm)
    · exact h.shown key e m' he hm
  seen := by
    refine h.seen.of_kept ?_
    intro k key v' _ hv'
    rcases seen?_eq_some hv' with ⟨e, m', he, hkind, hm', hlive, rfl⟩ | ⟨hnone, row, hrow, hdecode⟩
    · rcases entity?_of_modifyEntity hm' with ⟨m, hslot, hm, rfl⟩ | ⟨_, hm⟩
      · have halike := hf m (hslot ▸ hm)
        rcases (h.ordered.sound.lodged he).entity with ⟨m', hm', hmkind⟩
        cases hm.symm.trans hm'
        obtain rfl : m.kind = k := hmkind.trans hkind
        refine ⟨m.value m.kind, seen?_of_entry he hkind hm (halike.live hlive), ?_⟩
        rw [halike.key, Entity.value_self]
      · exact ⟨m'.value k, seen?_of_entry he hkind hm hlive, rfl⟩
    · have hseen : s.seen? c k key = ((s.rowsOf c).row? ⟨k.entityName, key⟩).bind fun row =>
          Value.decode k (some c) row.payload := seen?_of_row hnone
      exact ⟨v', hseen.trans (Option.bind_eq_some_iff.2 ⟨row, hrow, hdecode⟩), rfl⟩

theorem Tidy.markDeleted (h : Tidy c s) (slot : Nat) :
    Tidy c (s.modifyEntity slot fun m => { m with deleted := true }) := by
  refine h.modifyEntity ((Step.delete s slot).sound h.ordered.sound) ?_
  intro m _
  refine ⟨rfl, (fun hlive => by cases hlive), id, ?_⟩
  exact congrArg Value.naturalKey? (Entity.value_self { m with deleted := true })

/-- Another value of the same natural key is put back into an entity that was filled. -/
theorem Tidy.checkIn (h : Tidy c s) {m : Entity model} {held : Handle m.kind}
    (hm : s.entity? held.slot = some m) {v : Value m.kind}
    (hkey : Value.naturalKey? v = Value.naturalKey? (m.state : Value m.kind)) :
    Tidy c (s.checkIn held v) := by
  have hsound : Sound (s.checkIn held v) := by
    rw [Session.checkIn, modifyEntity_of_entity? hm]
    exact h.ordered.sound.replaceEntity hm (Entity.edited_checkIn (T := model) m v)
  refine h.modifyEntity hsound ?_
  intro m' hm'
  cases hm.symm.trans hm'
  refine ⟨rfl, id, fun _ => rfl, ?_⟩
  exact (congrArg Value.naturalKey? (Entity.value_self (m.checkIn v))).trans hkey

theorem Tidy.report (h : Tidy c s) (event : Event) : Tidy c (s.report event) :=
  ⟨⟨h.ordered.sound.report event, h.ordered.numbered, h.ordered.unambiguous⟩, h.place, h.store,
    h.blog, h.shown, h.fresh, h.written, h.rows, h.seen⟩

/-! ## Reading rows -/

theorem Tidy.inUse_of_row (h : Tidy c s) {id : EntityId} {row : Row}
    (hrow : (s.rowsOf c).row? id = some row) : s.InUse ⟨0⟩ id := by
  rcases h.storeOf? with ⟨store, hstore, _⟩
  rw [rowsOf_of_storeOf? hstore] at hrow
  rw [storeOf?_eq, h.place] at hstore
  exact Or.inl ⟨store, hstore, by rw [hrow]; rfl⟩

theorem Tidy.inUse_of_entry (h : Tidy c s) {e : Entry model}
    (he : (s.registry c).get? key = some e) : s.InUse ⟨0⟩ e.id :=
  Or.inr ⟨c, key, e, h.place, he, rfl⟩

/-- A row that is read as one type is not seen as another, before or after. -/
theorem Tidy.seen?_loads (h : Tidy c s) (hk : k.IsBlog) (hl : l.IsBlog)
    (hloads : Loads s s' d k (s.rowsNamed (T := model) d k)) :
    s'.seen? c l key = s.seen? c l key := by
  have hsound := h.ordered.sound
  cases he : (s.registry c).get? key with
  | some e =>
    rcases (hsound.lodged he).entity with ⟨m, hm, _⟩
    exact seen?_congr he (hloads.registry _ _ _ he) (hloads.entity? _ (lt_size_of_entity? hm))
  | none =>
    cases he' : (s'.registry c).get? key with
    | none =>
      rw [seen?_of_row he, seen?_of_row he', hloads.toGrows.rowsOf]
    | some e =>
      -- the entry was read just now, as this type or as the other one
      rcases hloads.entry _ _ _ he' with hold | ⟨rfl, _, _, row, hrow, hread⟩
      · cases he.symm.trans hold
      · by_cases hkl : k = l
        · subst hkl
          exact hloads.seen?_eq hsound
        · -- a key belongs to one id, so there is no row of this type under it
          have huse := h.inUse_of_row (mem_rowsNamed_iff.1 hrow)
          have hnone : (s.rowsOf c).row? ⟨l.entityName, key⟩ = none := by
            cases hother : (s.rowsOf c).row? ⟨l.entityName, key⟩ with
            | none => rfl
            | some row' =>
              have hid := h.ordered.unambiguous _ _ _ huse (h.inUse_of_row hother) rfl
              exact absurd (hk.ext hl (congrArg EntityId.entity hid)) hkl
          rcases hread.entry with ⟨n, rfl⟩
          rw [seen?_of_row he, seen?, he']
          dsimp only
          rw [if_neg fun hkind => hkl hkind.1]
          exact (congrArg (fun found : Option Row =>
            found.bind fun row => Value.decode l (some c) row.payload) hnone).symm

theorem Tidy.loads (h : Tidy c s) (hk : k.IsBlog)
    (hloads : Loads s s' d k (s.rowsNamed (T := model) d k)) (hsound : Sound s') : Tidy c s' where
  ordered := by
    refine ⟨hsound, hloads.numbered h.ordered.sound h.ordered.numbered, ?_⟩
    intro i id id' huse huse'
    exact h.ordered.unambiguous i id id' (hloads.inUse h.ordered.sound huse)
      (hloads.inUse h.ordered.sound huse')
  place := (hloads.storeIdOf? c).trans h.place
  store := by
    rw [hloads.store?]
    exact h.store
  blog key e he := by
    rcases hloads.entry _ _ _ he with hold | ⟨_, _, _, row, _, hread⟩
    · exact h.blog key e hold
    · rcases hread.entry with ⟨n, rfl⟩
      exact hk
  shown key e m he hm := by
    rcases hloads.entry _ _ _ he with hold | ⟨_, _, _, row, _, hread⟩
    · rcases (h.ordered.sound.lodged hold).entity with ⟨m', hm', _⟩
      cases hm.symm.trans (hloads.entity hm')
      exact h.shown key e m hold hm'
    · rcases hread.value with ⟨v, _, hentity⟩
      cases hm.symm.trans hentity
      rfl
  fresh key e he hpending := by
    rw [hloads.toGrows.rowsOf]
    rcases hloads.entry _ _ _ he with hold | ⟨_, _, _, row, _, hread⟩
    · exact h.fresh key e hold hpending
    · rcases hread.entry with ⟨n, rfl⟩
      cases hpending
  written := by
    rw [hloads.toGrows.rowsOf]
    exact h.written
  rows := by
    rw [hloads.toGrows.rowsOf]
    exact h.rows
  seen := by
    refine h.seen.of_kept ?_
    intro l key v hl hv
    exact ⟨v, (h.seen?_loads hk hl.isBlog hloads).symm.trans hv, rfl⟩

/-! ## Inserting -/

/-- An entity is inserted, and takes a value with a natural key of its own right away. -/
theorem Tidy.insert (h : Tidy c s) (hk : k.IsBlog) {store : Store}
    (hstore : s.storeOf? c = some store) (hordered : Ordered (s.insertUnder c k store.nextKey))
    {m : Entity model} (hedited : (Entity.new (T := model) k (Value.blank k) true).Edited m)
    (hopen : Open m) (hkey : k.IsKeyed → ∃ n, Value.naturalKey? (m.value k : Value k) = some n ∧
      ∀ key v, Sees s c k key v → Value.naturalKey? v ≠ some n) :
    Tidy c ((s.insertUnder c k store.nextKey).modifyEntity s.entities.size fun _ => m) := by
  have hunused := h.ordered.numbered.unused h.ordered.sound hstore
  have hrows : ((s.insertUnder c k store.nextKey).modifyEntity s.entities.size
      fun _ => m).rowsOf c = s.rowsOf c := rowsOf_insertUnder_self
  have hentity : ((s.insertUnder c k store.nextKey).modifyEntity s.entities.size
      fun _ => m).entity? s.entities.size = some m :=
    entity?_modifyEntity_self entity?_insertUnder_new _
  constructor
  case ordered =>
    exact ⟨hordered.sound.replaceEntity entity?_insertUnder_new hedited, hordered.numbered,
      hordered.unambiguous⟩
  case place => exact storeIdOf?_insertUnder.trans h.place
  case store =>
    rcases h.store with ⟨store', hstore', hschema, hpending⟩
    refine ⟨{ store' with nextKey := store.nextKey + 1 }, ?_, hschema, hpending⟩
    refine store?_insertUnder.trans ?_
    rw [if_pos h.place, hstore']
    rfl
  case blog =>
    intro key e he
    rcases entry_of_insertUnder hstore he with ⟨_, rfl⟩ | hold
    · exact hk
    · exact h.blog key e hold
  case shown =>
    intro key e m' he hm'
    rcases entry_of_insertUnder hstore he with ⟨_, rfl⟩ | hold
    · cases hm'.symm.trans hentity
      exact hopen
    · rcases (h.ordered.sound.lodged hold).entity with ⟨old, holds, _⟩
      have hlt := lt_size_of_entity? holds
      rw [entity?_modifyEntity_of_ne _ (Nat.ne_of_lt hlt), entity?_insertUnder_of_lt hlt] at hm'
      exact h.shown key e m' hold hm'
  case fresh =>
    intro key e he hpending
    rw [hrows]
    rcases entry_of_insertUnder hstore he with ⟨_, rfl⟩ | hold
    · exact hunused.2 k.entityName
    · exact h.fresh key e hold hpending
  case written =>
    rw [hrows]
    exact h.written
  case rows =>
    rw [hrows]
    exact h.rows
  case seen =>
    have hnew : ((s.insertUnder c k store.nextKey).registry c).get? store.nextKey =
        some ⟨k, ⟨s.entities.size, ⟨k.entityName, store.nextKey⟩, c⟩, true⟩ :=
      get?_insertUnder_new hstore
    have hothers : ∀ {l : Kind} {key : UInt64}, key ≠ store.nextKey →
        ((s.insertUnder c k store.nextKey).modifyEntity s.entities.size fun _ => m).seen? c l key =
          s.seen? c l key := by
      intro l key hne
      calc
        _ = (s.insertUnder c k store.nextKey).seen? c l key :=
          seen?_modifyEntity_of_ne hordered.sound hnew hne _ _
        _ = s.seen? c l key := seen?_insertUnder_of_ne h.ordered.sound hstore hne
    refine h.seen.add (fun l key v _ hne hv => (hothers hne).symm.trans hv) ?_
    intro l v hl hv
    rcases seen?_eq_some hv with ⟨e, m', he, rfl, hm', _, rfl⟩ | ⟨hnone, _⟩
    · cases he.symm.trans hnew
      cases hm'.symm.trans hentity
      exact hkey hl
    · cases hnone.symm.trans hnew

/-! ## Saving -/

section Commit

variable {changes : Changes}

/-- A row that a save leaves was written from a live entity, or was not read by the context. -/
theorem Tidy.row_commit (h : Tidy c s)
    (hcollect : s.collect c (s.registry c).values = .ok changes) {id : EntityId} {row : Row}
    (hrow : ((s.commit c changes).2.rowsOf c).row? id = some row) :
    (∃ e m payload, (s.registry c).get? id.key = some e ∧ e.id = id ∧
      s.entity? e.slot = some m ∧ m.deleted = false ∧ Value.encode m.state = .ok payload ∧
      row = Row.written ((s.rowsOf c).row? id) id payload) ∨
    ((s.registry c).get? id.key = none ∧ (s.rowsOf c).row? id = some row) := by
  have hsound := h.ordered.sound
  rcases h.storeOf? with ⟨store, hstore, _⟩
  -- what is not registered is left, what is deleted loses its row, what is live is written
  cases he : (s.registry c).get? id.key with
  | none =>
    refine Or.inr ⟨rfl, ?_⟩
    rw [← row?_commit_of_unregistered hsound hcollect fun e he' => by cases he.symm.trans he']
    exact hrow
  | some e =>
    by_cases hid : e.id = id
    · cases hdeleted : s.entryDeleted e with
      | true =>
        rw [row?_commit_of_deleted hsound hstore hcollect he hid hdeleted] at hrow
        split at hrow
        · next hpending => cases hrow.symm.trans (hid ▸ h.fresh _ e he hpending)
        · cases hrow
      | false =>
        rcases row?_commit_of_live hsound hstore hcollect he hid hdeleted with
          ⟨payload, hsavable, hwritten⟩
        rcases hsavable.entity with ⟨m, hm, _, _, hencode⟩
        rw [entryDeleted_of_entity? hm] at hdeleted
        exact Or.inl ⟨e, m, payload, rfl, hid, hm, hdeleted, hencode,
          Option.some.inj (hrow.symm.trans hwritten)⟩
    · -- the key is that of the entry, so there is no row of another id under it
      rw [row?_commit_of_unregistered hsound hcollect
        fun e' he' => by cases he.symm.trans he'; exact hid] at hrow
      exact absurd (h.ordered.unambiguous _ _ _ (h.inUse_of_entry he) (h.inUse_of_row hrow)
        (hsound.lodged he).key) hid

/-- What a save files has the natural key of something that was seen. -/
theorem Tidy.files_commit (h : Tidy c s)
    (hcollect : s.collect c (s.registry c).values = .ok changes) (hk : k.IsBlog) {w : Value k}
    (hfiles : Files ((s.commit c changes).2.rowsOf c) k key w) :
    ∃ v, Sees s c k key v ∧ Value.naturalKey? w = Value.naturalKey? v := by
  rcases hfiles with ⟨row, hrow, hencode⟩
  rcases h.row_commit hcollect hrow with ⟨e, m, payload, he, hid, hm, hlive, hpayload, rfl⟩ |
    ⟨hnone, hkept⟩
  · have hlodged := h.ordered.sound.lodged he
    rcases hlodged.entity with ⟨m', hm', hmkind⟩
    cases hm.symm.trans hm'
    have hekind : e.kind = k :=
      (h.blog _ e he).ext hk (hlodged.name.symm.trans (congrArg EntityId.entity hid))
    obtain rfl : m.kind = k := hmkind.trans hekind
    refine ⟨m.value m.kind, seen?_of_entry he hekind hm hlive, ?_⟩
    rw [Entity.value_self]
    exact naturalKey?_congr hk hencode hpayload (same_written _ _ _)
  · rcases h.written_of_row hk hkept with ⟨w', hencode'⟩
    have hdecode := Value.decode_of_encode (some c) hencode'
    have hseen : s.seen? c k key = ((s.rowsOf c).row? ⟨k.entityName, key⟩).bind fun row =>
      Value.decode k (some c) row.payload := seen?_of_row hnone
    refine ⟨_, hseen.trans (Option.bind_eq_some_iff.2 ⟨row, hkept, hdecode⟩), ?_⟩
    exact naturalKey?_congr hk hencode (encode_of_decode (some c) hencode' hdecode)
      (Json.same_refl _)

theorem Tidy.written_commit (h : Tidy c s)
    (hcollect : s.collect c (s.registry c).values = .ok changes) {id : EntityId} {row : Row}
    (hrow : ((s.commit c changes).2.rowsOf c).row? id = some row) :
    ∃ (k : Kind) (v : Value k), k.IsBlog ∧ id.entity = k.entityName ∧
      Value.encode v = .ok row.payload := by
  rcases h.row_commit hcollect hrow with ⟨e, m, payload, he, rfl, hm, _, hpayload, rfl⟩ | ⟨_, hkept⟩
  · rcases Row.written_cases ((s.rowsOf c).row? e.id) e.id payload with hold | hnew
    · exact h.written e.id _ hold
    · have hlodged := h.ordered.sound.lodged he
      rcases hlodged.entity with ⟨m', hm', hmkind⟩
      cases hm.symm.trans hm'
      refine ⟨m.kind, m.state, hmkind ▸ h.blog _ e he, ?_, hpayload.trans (congrArg _ hnew.symm)⟩
      exact hlodged.name.trans (congrArg Kind.entityName hmkind.symm)
  · exact h.written id row hkept

theorem Tidy.commit (h : Tidy c s) (hcollect : s.collect c (s.registry c).values = .ok changes)
    (hordered : Ordered (s.commit c changes).2) : Tidy c (s.commit c changes).2 where
  ordered := hordered
  place := (storeIdOf?_commit s c changes c).trans h.place
  store := by
    rcases h.store with ⟨store, hstore, hschema, hpending⟩
    refine ⟨{ store with rows := changes.committed store.rows }, ?_, hschema, hpending⟩
    rw [store?_commit, if_pos h.place, hstore]
    rfl
  blog key e he := by
    rcases get?_registry_commit.1 he with ⟨old, hold, _, rfl⟩
    exact h.blog key old hold
  shown key e m he hm := by
    rcases get?_registry_commit.1 he with ⟨old, hold, _, rfl⟩
    rcases entity?_commit s c changes old.slot with ⟨kept, hkept⟩
    rcases Option.map_eq_some_iff.1 (hkept.symm.trans hm) with ⟨m', hm', rfl⟩
    exact h.shown key old m' hold hm'
  fresh key e he hpending := by
    rcases get?_registry_commit.1 he with ⟨old, _, _, rfl⟩
    cases hpending
  written id row hrow := h.written_commit hcollect hrow
  rows := by
    refine h.seen.of_kept ?_
    intro k key w hk hfiles
    exact h.files_commit hcollect hk.isBlog hfiles
  seen := by
    refine h.seen.of_kept ?_
    intro k key v' hk hv'
    rcases seen?_eq_some hv' with ⟨e, m', he, hkind, hm', hlive', rfl⟩ | ⟨_, row, hrow, hdecode⟩
    · rcases get?_registry_commit.1 he with ⟨old, hold, hlive, rfl⟩
      rcases entity?_commit s c changes old.slot with ⟨kept, hkept⟩
      rcases Option.map_eq_some_iff.1 (hkept.symm.trans hm') with ⟨m, hm, rfl⟩
      exact ⟨m.value k, seen?_of_entry hold hkind hm hlive', rfl⟩
    · rcases h.written_commit hcollect hrow with ⟨k', w, hk', hname, hencode⟩
      cases hk.isBlog.ext hk' hname
      exact h.files_commit hcollect hk.isBlog
        ⟨row, hrow, encode_of_decode (some c) hencode hdecode⟩

end Commit

/-! ## Opening and closing contexts -/

/-- Another context that is opened sees the rows, whatever the first one has not saved. -/
theorem Tidy.openContext (h : Tidy c s) (hordered : Ordered (s.openContext ⟨0⟩).2) :
    Tidy (s.openContext ⟨0⟩).1 (s.openContext ⟨0⟩).2 := by
  have hcontext : (s.openContext ⟨0⟩).2.context? (s.openContext ⟨0⟩).1 = some ⟨⟨0⟩, .empty⟩ := by
    rw [context?_openContext]
    exact if_pos rfl
  have hregistry : (s.openContext ⟨0⟩).2.registry (s.openContext ⟨0⟩).1 = .empty := by
    rw [registry, hcontext]
  have hplace : (s.openContext ⟨0⟩).2.storeIdOf? (s.openContext ⟨0⟩).1 = some ⟨0⟩ := by
    rw [storeIdOf?, hcontext]
    rfl
  have hrows : (s.openContext ⟨0⟩).2.rowsOf (s.openContext ⟨0⟩).1 = s.rowsOf c := by
    rw [rowsOf, rowsOf, storeOf?_eq, storeOf?_eq, hplace, h.place]
    rfl
  have hnone : ∀ key e,
      ((s.openContext ⟨0⟩).2.registry (s.openContext ⟨0⟩).1).get? key ≠ some e := by
    intro key e he
    rw [hregistry] at he
    cases he
  constructor
  case ordered => exact hordered
  case place => exact hplace
  case store => exact h.store
  case blog => exact fun key e he => absurd he (hnone key e)
  case shown => exact fun key e _ he => absurd he (hnone key e)
  case fresh => exact fun key e he => absurd he (hnone key e)
  case written => exact hrows ▸ h.written
  case rows => exact hrows ▸ h.rows
  case seen =>
    refine h.rows.of_kept ?_
    intro k key v hk hv
    rcases seen?_eq_some hv with ⟨e, _, he, _⟩ | ⟨_, row, hrow, hdecode⟩
    · exact absurd he (hnone key e)
    · rw [hrows] at hrow
      exact ⟨v, h.files_of_row hk.isBlog hrow hdecode, rfl⟩

theorem Tidy.closeContext (h : Tidy c s) (hd : c ≠ d) (hordered : Ordered (s.closeContext d)) :
    Tidy c (s.closeContext d) := by
  have hcontext : (s.closeContext d).context? c = s.context? c := by
    rw [context?_closeContext, if_neg hd]
  have hregistry : (s.closeContext d).registry c = s.registry c := registry_congr hcontext
  have hplace : (s.closeContext d).storeIdOf? c = s.storeIdOf? c := by
    rw [storeIdOf?, hcontext, storeIdOf?]
  have hrows : (s.closeContext d).rowsOf c = s.rowsOf c := by
    rw [rowsOf, rowsOf, storeOf?_eq, storeOf?_eq, hplace]
    rfl
  constructor
  case ordered => exact hordered
  case place => exact hplace.trans h.place
  case store => exact h.store
  case blog => exact hregistry ▸ h.blog
  case shown => exact hregistry ▸ h.shown
  case fresh =>
    rw [hregistry, hrows]
    exact h.fresh
  case written => exact hrows ▸ h.written
  case rows => exact hrows ▸ h.rows
  case seen =>
    refine h.seen.of_kept ?_
    intro k key v _ hv
    refine ⟨v, ?_, rfl⟩
    rw [Sees, seen?, hregistry, hrows] at hv
    exact hv

end Reconcile.Sample
