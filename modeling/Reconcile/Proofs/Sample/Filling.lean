import Reconcile.Proofs.Session.Rebinding
import Reconcile.Proofs.Session.Reconciling
import Reconcile.Sample.Mapping

/-!
# Filling the entities of the sample model

What reconciling, looking up and deleting lead to, the fills lead to that are made of them.  In
particular every fill of the sample model proceeds (`Sample.lawful`), and so does everything that is
built on fills.
-/

namespace Reconcile.Sample

open Session

/-! ## The parts of a fill -/

/-- The last part of filling a post: its comments, which refer to the post as it is found. -/
def fillComments (p : PostPlain) (nested : Nested 1) (scope : Scope) (this : EntityId) (v : Post)
    (tags : MemberSet Kind.tag) (author : Option (ToOne Kind.author)) : Work model Post := do
  let parent := (← (scope.locate (T := model) .post this).outcome).toOption
  let ofParent : Hook model .comment := fun c =>
    return { (c : Comment) with post := parent.map ToOne.ofHandle }
  let comments ← scope.replaceAll v.comments
    (some (MemberList.build p.comments fun q _ => nested .comment q Nat.one_pos ofParent))
  return { v with
    title := some p.title, body := assign v.body p.body false
    author, tags := some tags, comments }

theorem fillPost_parts (p : PostPlain) (nested : Nested 1) (scope : Scope) (this : EntityId)
    (v : Post) : fillPost p nested scope this v = (do
      let tags ← MemberSet.build p.tags fun q _ => nested .tag q Nat.one_pos pure
      match p.author with
      | some q => do
        let found ← nested .author q Nat.one_pos pure
        fillComments p nested scope this v tags (ToOne.pointTo v.author found)
      | none => fillComments p nested scope this v tags v.author) := rfl

section NodeParts

variable (p : NodePlain) (nested : Nested p.weight) (scope : Scope) (this : EntityId) (v : Node)

/-- The last part of filling a node: its notes, and the note that it owns. -/
def fillNotes (parent : Option (ToOne Kind.node)) (children : Option (MemberList Kind.node)) :
    Work model Node := do
  let bySelf : Hook model .note := fun n => return { (n : Note) with byline := some this.text }
  let notes ← scope.replaceAll v.notes (p.notes.map fun ps =>
    MemberSet.build ps fun q _ => nested .note q (NodePlain.weight_pos p) bySelf)
  let (_, owned) ← scope.replaceOne v.owned (p.owned.map fun q =>
    nested .note q (NodePlain.weight_pos p) pure)
  return { v with parent, children, notes, owned }

/-- The children are filled with the node for their parent, and then the notes. -/
def fillChildren (me : Option (Handle Kind.node)) (parent : Option (ToOne Kind.node)) :
    Work model Node :=
  match h : p.children with
  | some ps => do
    let ofParent : Hook model .node := fun n =>
      return { (n : Node) with parent := me.map ToOne.ofHandle }
    let children ← MemberList.build ps fun q hq =>
      nested .node q (NodePlain.weight_child_lt h hq) ofParent
    fillNotes p nested scope this v parent (some children)
  | none => fillNotes p nested scope this v parent v.children

/-- The parent is filled first, then the rest of the node with it. -/
def fillParent (me : Option (Handle Kind.node)) : Work model Node :=
  match h : p.parent with
  | some q => do
    let found ← nested .node q (NodePlain.weight_parent_lt h) pure
    fillChildren p nested scope this v me (ToOne.pointTo v.parent found)
  | none => fillChildren p nested scope this v me v.parent

/-- A node finds itself, and then its probes run before any of its relationships is filled. -/
theorem fillNode_parts : fillNode p nested scope this v = (do
    let v := { v with code := p.code, label := assign v.label p.label false }
    let me := (← (scope.locate (T := model) .node this).outcome).toOption
    if h : p.probes ≠ [] then
      let refill := nested .node (.leaf p.code (some "refilled"))
        (NodePlain.weight_leaf_lt h p.code (some "refilled")) pure
      runProbes p me scope refill p.probes
    fillParent p nested scope this v me) := rfl

end NodeParts

/-! ## The blog and the folders -/

section Leads

variable {kinds : Kind → Prop} {R : Session model → Session model → Prop}

/-- Reconciling a plain value leads so, whatever function its value is put through first. -/
def NestedLeads (kinds : Kind → Prop) (R : Session model → Session model → Prop) {bound : Nat}
    (nested : Nested bound) : Prop :=
  ∀ l, kinds l → ∀ (q : Plain l) (hq : Plain.weight q < bound) (g : Value l → Value l),
    Work.Leads R (nested l q hq fun v => return g v)

variable {scope : Scope} {this : EntityId} (hR : Reads (T := model) kinds R)
include hR

theorem leads_fillComment (hpost : kinds .post) (p : CommentPlain) (v : Comment) :
    Work.Leads R (fillComment p scope v) := by
  rcases v with ⟨author, text, post, anchor⟩
  cases post with
  | none => exact hR.pure _
  | some post =>
    refine hR.bind (hR.resolveOne hpost scope post) ?_
    intro found
    exact hR.bind hR.get fun _ => hR.pure _

theorem leads_fillComments (hdelete : ∀ (s : Session model) (slot : Nat),
      R s (s.modifyEntity slot fun e => { e with deleted := true }))
    (hkinds : kinds .post ∧ kinds .comment) (p : PostPlain) {nested : Nested 1}
    (hnested : NestedLeads kinds R nested) (v : Post) (tags : MemberSet Kind.tag)
    (author : Option (ToOne Kind.author)) :
    Work.Leads R (fillComments p nested scope this v tags author) := by
  rcases hkinds with ⟨hpost, hcomment⟩
  refine hR.bind (hR.locate Kind.post hpost scope this) ?_
  intro found
  refine hR.bind (hR.replaceAll hdelete hcomment scope v.comments ?_) fun _ => hR.pure _
  intro build hbuild
  cases Option.some.inj hbuild
  exact hR.buildList fun q _ => hnested .comment hcomment q Nat.one_pos _

theorem leads_fillPost (hdelete : ∀ (s : Session model) (slot : Nat),
      R s (s.modifyEntity slot fun e => { e with deleted := true }))
    (hkinds : kinds .tag ∧ kinds .author ∧ kinds .post ∧ kinds .comment) (p : PostPlain)
    {nested : Nested 1} (hnested : NestedLeads kinds R nested) (v : Post) :
    Work.Leads R (fillPost p nested scope this v) := by
  rcases hkinds with ⟨htag, hauthor, hothers⟩
  have htags : Work.Leads R (MemberSet.build p.tags fun q _ =>
      nested .tag q Nat.one_pos pure) :=
    hR.buildSet fun q _ => hnested .tag htag q Nat.one_pos id
  rw [fillPost_parts]
  refine hR.bind htags ?_
  intro tags
  split
  · next q _ =>
    refine hR.bind (hnested .author hauthor q Nat.one_pos id) ?_
    intro found
    exact leads_fillComments hR hdelete hothers p hnested v tags _
  · exact leads_fillComments hR hdelete hothers p hnested v tags v.author

theorem leads_fillFolder (hfolder : kinds .folder) (p : FolderPlain)
    {nested : Nested (Plain.weight (k := .folder) p)} (hnested : NestedLeads kinds R nested)
    (v : Folder) : Work.Leads R (fillFolder p nested v) := by
  rcases p with ⟨code, parent⟩
  cases parent with
  | none => exact hR.pure _
  | some parent =>
    refine hR.bind (hnested .folder hfolder ⟨parent, none⟩ _ id) ?_
    intro found
    exact hR.pure _

end Leads

/-! ## All types -/

/-- A relation that is kept by all that fills do besides reconciling: they read, they note what they
find out, and probes may delete and save. -/
structure Fares (R : Session model → Session model → Prop) : Prop where
  /-- What fills start from is sound. -/
  sound : ∀ {s s'}, (Sound s → R s s') → R s s'
  trans : ∀ {s s' s''}, R s s' → R s' s'' → R s s''
  run : ∀ {s s'}, R s s' → Sound s → Run (fun _ => True) s s'
  reading : ∀ {s s'}, Run Deed.Reading s s' → R s s'
  delete : ∀ (s : Session model) (slot : Nat),
    R s (s.modifyEntity slot fun e => { e with deleted := true })
  save : ∀ scope : Scope, Work.Leads R (scope.save (T := model)).outcome

variable {R : Session model → Session model → Prop} {scope : Scope} {this : EntityId}

theorem Fares.reads (hR : Fares R) : Reads (T := model) (fun _ => True) R where
  refl s := hR.reading (Run.refl s)
  trans := hR.trans
  report s event := hR.reading ((Step.report s event).run trivial)
  locate k _ scope id _ := hR.sound fun hs => hR.reading (run_locate hs scope k id)

theorem Fares.bindAt (hR : Fares R) {α β : Type} {w : Work model α} {f : α → Work model β}
    {s : Session model} (hw : R s (w s).2) (hf : R (w s).2 (f (w s).1 (w s).2).2) :
    R s ((w >>= f) s).2 := hR.trans hw hf

theorem Fares.note (hR : Fares R) (f : Session model → Remark) :
    Work.Leads R (modify fun s => s.note (f s) : Work model Unit) :=
  fun s => hR.reading ((Step.note s (f s)).run trivial)

theorem leads_fillCodedTag (hR : Fares R) (p : CodedTagPlain) (v : CodedTag) :
    Work.Leads R (fillCodedTag p scope this v) := by
  refine hR.reads.bind (hR.reads.locate Kind.codedTag trivial scope this) ?_
  intro found
  cases found with
  | error fault => exact hR.reads.pure _
  | ok h => exact hR.reads.bind (hR.note _) fun _ => hR.reads.pure _

/-! ### Nodes -/

section Node

variable (scope) (hR : Fares R) {p : NodePlain} {me : Option (Handle Kind.node)}
  {refill : Work model (Option (Handle Kind.node))}

theorem Node.toJson_children {v : Node} {children children' : MemberList Kind.node}
    (h : v.children = some children) (hids : children'.toJson = children.toJson) :
    ({ v with children := some children' } : Node).toJson = v.toJson := by
  rw [toJson, toJson, h]
  dsimp only [Json.ofOption]
  rw [hids]

include hR

theorem leads_runProbe (hrefill : refill.Leads R) (probe : Probe) {s : Session model}
    (hs : Sound s) (hme : ∀ h, me = some h → s.Holds h) :
    R s (runProbe p me scope refill probe s).2 := by
  cases probe with
  | self => exact hR.reads.refl s
  | find => exact hR.reading (reaches_findByKey (T := model) scope Kind.node _ s hs)
  | all => exact hR.reading (reaches_fetchOrReport (T := model) scope Kind.node (.all "Node") s hs)
  | refill => exact hrefill s
  | children =>
    cases me with
    | none => exact hR.reads.refl s
    | some h =>
      cases hchildren : (s.value h : Node).children with
      | none =>
        have hend : (runProbe p (some h) scope refill .children s).2 = s := by
          simp only [runProbe, Work.bind_apply, Work.get_apply, hchildren, Work.pure_apply]
        rw [hend]
        exact hR.reads.refl s
      | some children =>
        have hend : (runProbe p (some h) scope refill .children s).2 =
            (ToMany.handles children s).2.rebind h ({ (s.value h : Node) with
              children := some (ToMany.handles children s).1.2 } : Node) := by
          simp only [runProbe, Work.bind_apply, Work.get_apply, hchildren]
          rfl
        have hrun : Run Deed.Reading s (ToMany.handles children s).2 :=
          (reads_reaches fun _ h => h).handles (k := Kind.node) trivial children s hs
        rw [hend]
        refine hR.reading (run_regard (hme h rfl) hrun ?_)
        exact congrArg Except.ok (Node.toJson_children hchildren (children.toJson_handles s))
  | delete =>
    cases me with
    | none => exact hR.reads.refl s
    | some h => exact hR.reads.deleteOrReport hR.delete scope h s
  | save => exact hR.save scope s
  | other name => exact hR.reads.refl s

theorem leads_runProbes (hrefill : refill.Leads R) (probes : List Probe) {s : Session model}
    (hs : Sound s) (hme : ∀ h, me = some h → s.Holds h) :
    R s (runProbes p me scope refill probes s).2 := by
  induction probes generalizing s with
  | nil => exact hR.reads.refl s
  | cons probe rest ih =>
    have hprobe := leads_runProbe (p := p) scope hR hrefill probe hs hme
    rcases hresult : runProbe p me scope refill probe s with ⟨result, s₁⟩
    rw [hresult] at hprobe
    have hnoted : R s (s₁.note (.probed probe result)) :=
      hR.trans hprobe (hR.reading ((Step.note s₁ _).run trivial))
    have hrun := hR.run hnoted hs
    have hrest := ih (hrun.sound hs) fun h hh => (hme h hh).run hrun
    have hend : (runProbes p me scope refill (probe :: rest) s).2 =
        (runProbes p me scope refill rest (s₁.note (.probed probe result))).2 := by
      simp only [runProbes, Work.bind_apply, hresult, Work.modify_apply]
    rw [hend]
    exact hR.trans hnoted hrest

theorem leads_fillNotes (p : NodePlain) {nested : Nested p.weight}
    (hpure : NestedLeads (fun _ => True) R nested) (v : Node) (parent : Option (ToOne Kind.node))
    (children : Option (MemberList Kind.node)) :
    Work.Leads R (fillNotes p nested scope this v parent children) := by
  have hreads := hR.reads
  refine hreads.bind (hreads.replaceAll (k := Kind.note) hR.delete trivial scope v.notes ?_) ?_
  · intro build hbuild
    rcases Option.map_eq_some_iff.1 hbuild with ⟨ps, _, rfl⟩
    exact hreads.buildSet (k := Kind.note) fun q _ => hpure .note trivial q _ _
  · intro notes
    refine hreads.bind (hreads.replaceOne (k := Kind.note) hR.delete trivial scope v.owned ?_)
      fun owned => hreads.pure _
    intro build hbuild
    rcases Option.map_eq_some_iff.1 hbuild with ⟨q, _, rfl⟩
    exact hpure .note trivial q _ id

theorem leads_fillChildren (p : NodePlain) {nested : Nested p.weight}
    (hpure : NestedLeads (fun _ => True) R nested) (v : Node)
    (parent : Option (ToOne Kind.node)) :
    Work.Leads R (fillChildren p nested scope this v me parent) := by
  unfold fillChildren
  split
  · refine hR.reads.bind ?_ fun children => leads_fillNotes scope hR p hpure v parent _
    exact hR.reads.buildList (k := Kind.node) fun q _ => hpure .node trivial q _ _
  · exact leads_fillNotes scope hR p hpure v parent v.children

theorem leads_fillParent (p : NodePlain) {nested : Nested p.weight}
    (hpure : NestedLeads (fun _ => True) R nested) (v : Node) :
    Work.Leads R (fillParent p nested scope this v me) := by
  unfold fillParent
  split
  · next q _ =>
    refine hR.reads.bind (hpure .node trivial q _ id) ?_
    intro found
    exact leads_fillChildren scope hR p hpure v _
  · exact leads_fillChildren scope hR p hpure v v.parent

theorem leads_fillNode (p : NodePlain) {nested : Nested p.weight}
    (hpure : NestedLeads (fun _ => True) R nested) (v : Node) :
    Work.Leads R (fillNode p nested scope this v) := by
  rw [fillNode_parts]
  intro s
  refine hR.sound fun hs => ?_
  have hlocate := locates (T := model) hs scope Kind.node this
  refine hR.bindAt (hR.reading hlocate.run) ?_
  generalize (scope.locate (T := model) .node this).outcome s = out at hlocate ⊢
  rcases out with ⟨found, s₁⟩
  split
  · next hprobes =>
    have hrefill := hpure .node trivial (.leaf p.code (some "refilled"))
      (NodePlain.weight_leaf_lt hprobes p.code (some "refilled")) id
    -- probes may refer to the node itself, which was located and is still held
    have hprobed := leads_runProbes (p := p) scope hR hrefill p.probes (hlocate.run.sound hs)
      fun h hh => hlocate.holds h (Outcome.toOption_eq_some.1 hh)
    exact hR.bindAt hprobed (leads_fillParent scope hR p hpure _ _)
  · exact leads_fillParent scope hR p hpure _ _

end Node

/-- Every fill leads where reconciling leads. -/
theorem leads_fillAny (hR : Fares R) {k : Kind} (p : Plain k) {nested : Nested (Plain.weight p)}
    (hpure : NestedLeads (fun _ => True) R nested) (scope : Scope) (this : EntityId)
    (v : Value k) : Work.Leads R (fill p nested scope this v) := by
  cases k with
  | codedTag => exact leads_fillCodedTag hR p v
  | comment => exact leads_fillComment hR.reads trivial p v
  | post =>
    exact leads_fillPost hR.reads hR.delete ⟨trivial, trivial, trivial, trivial⟩ p hpure v
  | node => exact leads_fillNode scope hR p hpure v
  | folder => exact leads_fillFolder hR.reads trivial p hpure v
  | _ => exact hR.reads.pure _

theorem reads_sample : Reads (fun _ => True) (Advances (T := model)) := reads_advances

theorem fares_advances : Fares Advances where
  sound h hs := h hs hs
  trans h h' := reads_advances.trans h h'
  run h hs := (h hs).run.mono fun _ _ => trivial
  reading hrun _ := hrun.proceeds
  delete := advances_markDeleted
  save := advances_save

theorem lawful : mapping.Lawful := by
  constructor
  intro k p nested scope this v hnested
  exact leads_fillAny fares_advances p
    (fun l _ q hq g => hnested l q hq _ fun v => reads_sample.pure (g v)) scope this v

end Reconcile.Sample
