import Reconcile.Proofs.Session.Answering
import Reconcile.Proofs.Session.Holding

/-!
# What is written while an entity fills

The value of an entity that fills is checked out, and something stands in for it.  A change through
the handle reaches what stands in: whoever reads the entity or fetches it sees the change, whether
the entity fills or not (`Entity.Became`).  It does not reach the value that was checked out, and
that is the one that is filled and checked in.  So in the end it is as if nobody had changed the
entity meanwhile (`Session.Provisional`), and what hook and fill leave alone is as it was when the
value was checked out (`Mapping.fill_overwrites`).
-/

namespace Reconcile

open Session

variable {T : Model} {k : T.Kind}

/-! ## Changes of an entity -/

theorem Model.published_of_payload {v : T.Value k} {payload : Json}
    (hpayload : Model.payload v = .ok payload) : Model.published v = some payload := by
  rw [Model.published_eq, hpayload]
  rfl

namespace Entity

variable {m m' : Entity T} {v : T.Value k}

/-- The entity with another value and another published payload. -/
def withBoth (m : Entity T) (v : T.Value k) (published : Option Json) : Entity T :=
  { m.withState v with published }

/-- The entity after somebody took hold of it, changed its value and let go. -/
def change (m : Entity T) (f : T.Value k → T.Value k) : Entity T :=
  (m.hold.write (f (m.value k))).release

/-- The same entity with this value, which is what is published of it. -/
structure Became (m : Entity T) (v : T.Value k) (m' : Entity T) : Prop where
  kind : m'.kind = k
  value : m'.value k = v
  published : m'.published = Model.published v
  temporary : m'.temporary = m.temporary
  deleted : m'.deleted = m.deleted
  guard : m'.guard = m.guard

/-- Others see the payload of the value, if it has one. -/
theorem Became.visible (h : Became m v m') {payload : Json}
    (hpayload : Model.payload v = .ok payload) : m'.visible? = some (.ok payload) := by
  rcases m' with ⟨kind, state, published, temporary, deleted, filling, guard⟩
  obtain rfl : kind = k := h.kind
  obtain rfl : state = v := (value_self _).symm.trans h.value
  obtain rfl : published = some payload :=
    h.published.trans (Model.published_of_payload hpayload)
  unfold visible? live?
  -- what is published stands for a hidden value, and the payload of the value is the same
  split
  · next hlive =>
    split at hlive
    · cases hlive
    · cases hlive
      exact congrArg some hpayload
  · rfl

theorem became_checkIn (m : Entity T) (v : T.Value k) : Became m v (m.checkIn v) :=
  ⟨rfl, value_self (m.checkIn v), rfl, rfl, rfl, rfl⟩

/-- The entity after a fill that began when it was `began` and put `v` back when it was `worked`.
What `v` has as the value had it at the beginning, in a field or at a key of the payload, the entity
has and publishes as at the beginning, if nobody held it then. -/
structure Filled (began worked : Entity T) (v : T.Value k) (m : Entity T) : Prop where
  became : worked.Became v m
  filling : m.filling = false
  field : ∀ {α : Type} (field : T.Value k → α), field v = field (began.value k) →
    field (m.value k) = field (began.value k)
  published : began.guard = .free → ∀ key, (Model.published v).map (Json.valueAt key) =
      (Model.published (began.value k)).map (Json.valueAt key) →
    m.published.map (Json.valueAt key) = began.published.map (Json.valueAt key)

theorem filled_checkIn {began : Entity T} (hkind : began.kind = k) (hsettled : began.Settled)
    (hidle : began.filling = false) (worked : Entity T) (v : T.Value k) :
    Filled began worked v (worked.checkIn v) := by
  subst hkind
  have hbecame := became_checkIn worked v
  refine ⟨hbecame, rfl, ?_, ?_⟩
  · intro α field hfield
    rw [hbecame.value, hfield]
  · intro hfree key hkey
    have hpublished : began.published = Model.published began.state :=
      hsettled hidle (by simp [hfree])
    rw [hbecame.published, hkey, hpublished, value_self]

section Change

variable (hfree : m.guard = .free) (f : T.Value k → T.Value k)

include hfree

theorem change_eq :
    m.change f = m.withBoth (f (m.value k)) (Model.published (f (m.value k))) := by
  rcases m with ⟨kind, state, published, temporary, deleted, filling, guard⟩
  cases hfree
  rfl

theorem became_change : Became m (f (m.value k)) (m.change f) := by
  rw [change_eq hfree]
  exact ⟨rfl, value_self (m.withState (f (m.value k))), rfl, rfl, rfl, rfl⟩

theorem filling_change : (m.change f).filling = m.filling := by
  rw [change_eq hfree]
  rfl

end Change

theorem withBoth_self (hkind : m.kind = k) : m.withBoth (m.value k) m.published = m := by
  subst hkind
  rw [value_self]
  rfl

end Entity

/-! ## Changes through a handle -/

/-- Changes the value of an entity by a function. -/
def Handle.change (h : Handle k) (f : T.Value k → T.Value k) : Work T Unit :=
  h.update fun v => return f v

/-- Something that is done while an entity fills: its value is changed through the handle, or it is
anything else. -/
inductive Doing (T : Model) (k : T.Kind) where
  | change (f : T.Value k → T.Value k)
  | other (work : Work T Unit)

namespace Doing

def run (h : Handle k) : Doing T k → Work T Unit
  | change f => h.change f
  | other work => work

/-- The same without changes through the handle. -/
def runOther : Doing T k → Work T Unit
  | change _ => pure ()
  | other work => work

end Doing

namespace Session

variable {a b : Session T} {h : Handle k} {m : Entity T}

theorem modifyEntity_congr {n : Nat} {f g : Entity T → Entity T}
    (hfg : ∀ m, a.entity? n = some m → f m = g m) : a.modifyEntity n f = a.modifyEntity n g := by
  refine ext_entities rfl rfl ?_
  intro i
  rw [entity?_modifyEntity, entity?_modifyEntity]
  split
  · next hi =>
    subst hi
    cases hm : a.entity? n with
    | none => rfl
    | some m => exact congrArg some (hfg m hm)
  · rfl

theorem modifyEntity_comm (a : Session T) {n n' : Nat} (hn : n ≠ n') (f g : Entity T → Entity T) :
    (a.modifyEntity n f).modifyEntity n' g = (a.modifyEntity n' g).modifyEntity n f := by
  refine ext_entities rfl rfl ?_
  intro i
  by_cases hi : i = n
  · subst hi
    rw [entity?_modifyEntity_of_ne _ hn, entity?_modifyEntity, entity?_modifyEntity,
      entity?_modifyEntity_of_ne _ hn]
  · rw [entity?_modifyEntity, entity?_modifyEntity_of_ne a hi, entity?_modifyEntity_of_ne _ hi,
      entity?_modifyEntity]

theorem change_apply (a : Session T) (h : Handle k) (f : T.Value k → T.Value k) :
    h.change f a = ((), a.modifyEntity h.slot (·.change f)) := by
  have hrun : h.change f a = ((), ((a.hold h).write h (f ((a.hold h).value h))).release h) := rfl
  -- taking hold, writing and letting go are three changes of one entity
  rw [hrun, hold, write, release, Mapping.modifyEntity_twice, Mapping.modifyEntity_twice]
  refine congrArg (Prod.mk ()) (modifyEntity_congr ?_)
  intro m hm
  rw [value_of_entity? (h := h) (entity?_modifyEntity_self hm _)]
  rfl

/-- The sessions differ at most in the value of an entity that nobody holds and in what is published
of it. -/
def DifferAt (h : Handle k) (a b : Session T) : Prop :=
  ∃ m, a.entity? h.slot = some m ∧ m.kind = k ∧ m.guard = .free ∧
    ∃ (v : T.Value k) (published : Option Json),
      b = a.modifyEntity h.slot fun _ => m.withBoth v published

namespace DifferAt

theorem refl (hm : a.entity? h.slot = some m) (hkind : m.kind = k) (hfree : m.guard = .free) :
    DifferAt h a a := by
  refine ⟨m, hm, hkind, hfree, m.value k, m.published, ?_⟩
  rw [Entity.withBoth_self hkind]
  refine (modifyEntity_of_fixed ?_).symm
  intro m' hm'
  exact Option.some.inj (hm.symm.trans hm')

/-- A change through the handle makes no other difference. -/
theorem change (hab : DifferAt h a b) (f : T.Value k → T.Value k) :
    DifferAt h a (h.change f b).2 := by
  rcases hab with ⟨m, hm, hkind, hfree, v, published, rfl⟩
  refine ⟨m, hm, hkind, hfree, f ((m.withBoth v published).value k),
    Model.published (f ((m.withBoth v published).value k)), ?_⟩
  rw [change_apply, Mapping.modifyEntity_twice]
  refine modifyEntity_congr ?_
  intro _ _
  exact Entity.change_eq (m := m.withBoth v published) hfree f

/-- Checking a value in leaves no difference. -/
theorem checkIn (hab : DifferAt h a b) (v : T.Value k) : b.checkIn h v = a.checkIn h v := by
  rcases hab with ⟨m, hm, _, _, w, published, rfl⟩
  rw [Session.checkIn, Session.checkIn, Mapping.modifyEntity_twice]
  refine modifyEntity_congr ?_
  intro m' hm'
  cases hm.symm.trans hm'
  rfl

/-- Nor does showing something in place of the value. -/
theorem standIn (hab : DifferAt h a b) (v : T.Value k) (preview : Json) :
    b.standIn h v preview = a.standIn h v preview := by
  rcases hab with ⟨m, hm, _, _, w, published, rfl⟩
  rw [Session.standIn, Session.standIn, Mapping.modifyEntity_twice]
  refine modifyEntity_congr ?_
  intro m' hm'
  cases hm.symm.trans hm'
  rfl

end DifferAt

/-- Work that does not depend on what the entity holds, and that lets go of it if it holds it. -/
def Heedless (h : Handle k) (work : Work T Unit) : Prop :=
  ∀ a b, DifferAt h a b → DifferAt h (work a).2 (work b).2

/-- Whatever is done in between, changes through the handle make a difference to nothing but what
they change. -/
theorem differAt_run {ds : List (Doing T k)} (hds : ∀ work, .other work ∈ ds → Heedless h work)
    (hab : DifferAt h a b) :
    DifferAt h (ds.forM Doing.runOther a).2 (ds.forM (Doing.run h) b).2 := by
  induction ds generalizing a b with
  | nil => exact hab
  | cons d rest ih =>
    have hrest : ∀ work, .other work ∈ rest → Heedless h work :=
      fun work hmem => hds work (List.mem_cons_of_mem d hmem)
    cases d with
    -- only one of the sessions is changed, but the difference is at the same place
    | change f => exact ih hrest (hab.change f)
    | other work => exact ih hrest (hds work List.mem_cons_self a b hab)

/-- Changes through the handle are seen at once, but they do not last: once something else is put in
the place of the value, it is as if the rest had been done without them. -/
structure Provisional (h : Handle k) (a : Session T) (m : Entity T) : Prop where
  seen : ∀ f, ∃ m', (h.change f a).2 = a.modifyEntity h.slot (fun _ => m') ∧
    m.Became (f (m.value k)) m' ∧ m'.filling = m.filling ∧
    ∀ payload, Model.payload (f (m.value k)) = .ok payload → m'.visible? = some (.ok payload)
  standIn : ∀ ds : List (Doing T k), (∀ work, .other work ∈ ds → Heedless h work) →
    ∀ v preview, (ds.forM (Doing.run h) a).2.standIn h v preview =
      (ds.forM Doing.runOther a).2.standIn h v preview
  checkIn : ∀ ds : List (Doing T k), (∀ work, .other work ∈ ds → Heedless h work) →
    ∀ v, (ds.forM (Doing.run h) a).2.checkIn h v = (ds.forM Doing.runOther a).2.checkIn h v

theorem provisional (hm : a.entity? h.slot = some m) (hkind : m.kind = k)
    (hfree : m.guard = .free) : Provisional h a m := by
  constructor
  case seen =>
    intro f
    have hbecame := Entity.became_change hfree f
    refine ⟨m.change f, ?_, hbecame, Entity.filling_change hfree f, fun _ => hbecame.visible⟩
    rw [change_apply]
    exact modifyEntity_of_entity? hm _
  case standIn => exact fun ds hds => (differAt_run hds (.refl hm hkind hfree)).standIn
  case checkIn => exact fun ds hds => (differAt_run hds (.refl hm hkind hfree)).checkIn

/-- Changes of other entities do not depend on this one. -/
theorem heedless_change {l : T.Kind} {other : Handle l} (hother : other.slot ≠ h.slot)
    (f : T.Value l → T.Value l) : Heedless h (other.change f) := by
  rintro a b ⟨m, hm, hkind, hfree, v, published, rfl⟩
  refine ⟨m, ?_, hkind, hfree, v, published, ?_⟩
  · rw [change_apply]
    exact (entity?_modifyEntity_of_ne a hother.symm _).trans hm
  · rw [change_apply, change_apply]
    exact modifyEntity_comm a hother.symm _ _

end Session

namespace Mapping

variable {M : Mapping T} {scope : Scope} {bound : Nat} {p : M.Plain k}
  {hp : M.weight p < bound + 1} {hook : Hook T k} {h : Handle k} {s s₁ s₂ s₃ : Session T}

/-- What hook and fill make of the value that was checked out, with the preview in between. -/
def remake (M : Mapping T) (scope : Scope) {bound : Nat} {p : M.Plain k}
    (hp : M.weight p < bound + 1) (hook : Hook T k) (item : Handle k) (v : T.Value k) :
    Work T (T.Value k) := do
  let v ← hook v
  scope.showPreview item v (M.naturalKey p)
  M.fill p (M.nested scope hp) scope item.id v

theorem refill_of_remake {v₀ v : T.Value k} (hremake : M.remake scope hp hook h v₀ s = (v, s₁)) :
    (M.refill scope hp hook h v₀ s).2 = s₁.checkIn h v := by
  have hrefill : M.refill scope hp hook h v₀ s =
      ((), (M.remake scope hp hook h v₀ s).2.checkIn h (M.remake scope hp hook h v₀ s).1) := rfl
  rw [hrefill, hremake]

/-- Whatever is written to an entity while it fills, when the fill is over it has the value that
hook and fill made of the one that was checked out, and what they left alone is as it was at the
beginning.  Its flags and all other entities are left as they are then.  Meanwhile the entity is
changed and seen through its handle as if it did not fill, until the preview or the filled value is
put in its place; changes of other entities neither see this nor lose anything by it. -/
theorem fill_overwrites (hrun : Run (fun _ => True) .empty s)
    (hfound : M.findOrInsertUnique scope p s = (some h, s₁)) {v₀ v : T.Value k}
    (hout : s₁.checkOut? h = some (v₀, s₂))
    (hremake : M.remake scope hp hook h v₀ s₂ = (v, s₃)) (hworked : Run (fun _ => True) s₂ s₃) :
    M.reconcileBelow scope (bound + 1) k p hp hook s = (some h, s₃.checkIn h v) ∧
    (∃ began worked m, s₁.entity? h.slot = some began ∧ began.value k = v₀ ∧
      s₃.entity? h.slot = some worked ∧
      s₃.checkIn h v = s₃.modifyEntity h.slot (fun _ => m) ∧ Entity.Filled began worked v m) ∧
    (∀ a m, a.entity? h.slot = some m → m.kind = k → m.guard = .free → Provisional h a m) ∧
    ∀ {l : T.Kind} (other : Handle l) (f : T.Value l → T.Value l), other.slot ≠ h.slot →
      Heedless h (other.change f) := by
  have hs : Sound s := hrun.sound sound_empty
  have hs₁ : Sound s₁ := by
    have hfirst := advances_findOrInsertUnique (M := M) scope p s hs
    rw [hfound] at hfirst
    exact hfirst.run.sound hs
  rcases checkOut?_eq_some (holds_of_findOrInsertUnique hs hfound) hout with
    ⟨began, _, hbegan, hidle, rfl, rfl, rfl, rfl⟩
  -- whatever hook and fill did, the entity is still there to be written over
  rcases hworked.kind (entity?_modifyEntity_self hbegan _) with ⟨worked, hworked, _⟩
  have hfilled := Entity.filled_checkIn rfl (hs₁.settled hbegan) hidle worked v
  refine ⟨?_, ⟨began, worked, worked.checkIn v, hbegan, rfl, hworked,
    modifyEntity_of_entity? hworked _, hfilled⟩, ?_, ?_⟩
  · rw [reconcileBelow_of_checkOut hfound hout, refill_of_remake hremake]
  · exact fun a m hm hkind hfree => provisional hm hkind hfree
  · exact fun _ f hother => heedless_change hother f

/-! ## A tag that is painted while it fills -/

section Red

open Sample

def redPlain : mapping.Plain Kind.tag := (⟨"red", none⟩ : TagPlain)

def redTag : Tag := ⟨some "red", none⟩

/-- Sets the colour, which the fill of the plain value leaves alone. -/
def paint (t : Tag) : Tag := { t with colour := some "dark" }

/-- A hook that paints the tag through its handle. -/
def paintFirst : Hook model Kind.tag := fun v => do
  redHandle.change (T := model) paint
  return v

/-- The tag when its value is checked out. -/
def redOut : Entity model :=
  { (tagNamed (some "red") false).withState (k := Kind.tag) Tag.blank with filling := true }

/-- The tag that is painted while it is filled again ends without the colour. -/
theorem fill_overwrites_red : ∃ m, (mapping.reconcile (.within ⟨1⟩) redPlain paintFirst
    redSaved).2.entity? 0 = some m ∧ m.value Kind.tag = redTag ∧
    m.published.map (Json.valueAt "colour") = some .null := by
  have hrun : Run (fun _ => True) .empty redSaved := run_redSaved.mono fun _ _ => trivial
  generalize hs₁ : (mapping.findOrInsertUnique (.within ⟨1⟩) redPlain redSaved).2 = s₁
  have hfound : mapping.findOrInsertUnique (.within ⟨1⟩) redPlain redSaved =
      (some redHandle, s₁) := Prod.ext rfl hs₁
  have hout : s₁.checkOut? redHandle = some (redTag, s₁.modifyEntity 0 fun _ => redOut) := by
    subst hs₁
    rfl
  -- the preview is put in the place of what the hook has painted
  have hremake : mapping.remake (.within ⟨1⟩) (p := redPlain) (Nat.lt_succ_self _) paintFirst
      redHandle redTag (s₁.modifyEntity 0 fun _ => redOut) =
      (redTag, (s₁.modifyEntity 0 fun _ => redOut).modifyEntity 0 fun _ =>
        redOut.standIn (k := Kind.tag) redTag redTag.toJson) := by
    subst hs₁
    rfl
  have hredOut : (s₁.modifyEntity 0 fun _ => redOut).entity? 0 = some redOut := by
    subst hs₁
    rfl
  have hstep := Step.edit hredOut (Entity.edited_standIn (e := redOut) rfl redTag redTag.toJson)
  rcases fill_overwrites hrun hfound hout hremake (hstep.run trivial) with
    ⟨hreconcile, ⟨began, worked, m, hbegan, _, hworked, hcheckIn, hfilled⟩, _⟩
  refine ⟨m, ?_, hfilled.became.value, ?_⟩
  · have hend : (mapping.reconcile (.within ⟨1⟩) redPlain paintFirst redSaved).2 = _ :=
      congrArg Prod.snd hreconcile
    rw [hend, hcheckIn]
    exact entity?_modifyEntity_self hworked _
  · subst hs₁
    cases hbegan
    exact hfilled.published rfl "colour" rfl

def familyPlain : mapping.Plain Kind.node :=
  (⟨some 1, none, none, some [.leaf (some 2) none], none, none, []⟩ : NodePlain)

/-- The same parent, which looks at its children while it is filled. -/
def probingPlain : mapping.Plain Kind.node :=
  (⟨some 1, none, none, none, none, none, [.children]⟩ : NodePlain)

def parentHandle : Handle Kind.node := ⟨2, ⟨"Node", 1⟩, ⟨2⟩⟩

def childHandle : Handle Kind.node := ⟨3, ⟨"Node", 2⟩, ⟨2⟩⟩

/-- A node and its child were saved, and another context has read the parent. -/
def familyRead : Session model :=
  (((Scope.within ⟨2⟩).locate (T := model) Kind.node parentHandle.id).outcome
    (((Scope.within ⟨1⟩).save.outcome
      (mapping.reconcile (.within ⟨1⟩) familyPlain pure nodesOpen).2).2.openContext ⟨0⟩).2).2

/-- The children of the parent that are found after the child was deleted. -/
def childrenLeft : Work model (List (Handle (K := model.Kind) Kind.node)) := do
  let _ ← ((Scope.within ⟨2⟩).locate (T := model) Kind.node childHandle.id).outcome
  let _ ← (Scope.within ⟨2⟩).deleteOrReport (T := model) (k := Kind.node) childHandle
  let v : Node := (← get).value (T := model) (k := Kind.node) parentHandle
  match v.children with
  | some children => return (← ToMany.handles children).1
  | none => return []

/-- What is written through a handle that is free stays, and what is written while the entity fills
does not, though the fill does not set that field: a hook paints a tag, and a fill binds the
children of a node. -/
theorem fill_drops_writes : Run Deed.Native .empty redSaved ∧
    (∀ nested scope this v s, (mapping.fill redPlain nested scope this v s).1 =
      ({ name := some "red", colour := (v : Tag).colour } : Tag)) ∧
    (redHandle.change (T := model) paint redSaved).2.value redHandle = paint redTag ∧
    (redHandle.change (T := model) paint redSaved).2.entity? 0 =
      some (.new Kind.tag (paint redTag) false) ∧
    (mapping.reconcile (.within ⟨1⟩) redPlain paintFirst redSaved).2.entity? 0 =
      some (.new Kind.tag redTag false) ∧
    (childrenLeft (runProbe probingPlain (some parentHandle) (.within ⟨2⟩) (pure none) .children
      familyRead).2).1 = [childHandle] ∧
    (childrenLeft (mapping.reconcile (.within ⟨2⟩) probingPlain pure familyRead).2).1 = [] :=
  ⟨run_redSaved, fun _ _ _ _ _ => rfl, rfl, rfl, rfl, by decide +kernel, by decide +kernel⟩

end Red

end Mapping

end Reconcile
