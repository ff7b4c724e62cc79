import Reconcile.Proofs.Mapping.Minding
import Reconcile.Proofs.Sample.Codec
import Reconcile.Proofs.Sample.Filling

/-!
# Fills of the sample model mind their own

The values of the sample model refer to other entities by their relationship fields only.  Every fill
minds the entities of its context, and so does everything that is built on fills.

A node can look at what stands in for it while it is filled, and bind the members of that.  They are
looked up in the context where the field was read, which for a stand-in is the context of the fill.
-/

namespace Reconcile.Sample

open Session

/-! ## What values refer to -/

namespace Value

def bonds : {k : Kind} → Value k → List Bond
  | .comment, v => fieldBonds ToOne.bonds (v : Comment).post
  | .post, v => fieldBonds ToOne.bonds (v : Post).author ++
      (fieldBonds ToMany.bonds (v : Post).tags ++ fieldBonds ToMany.bonds (v : Post).comments)
  | .node, v => fieldBonds ToOne.bonds (v : Node).parent ++
      (fieldBonds ToMany.bonds (v : Node).children ++
        (fieldBonds ToMany.bonds (v : Node).notes ++ fieldBonds ToOne.bonds (v : Node).owned))
  | .folder, v => fieldBonds ToOne.bonds (v : Folder).parent
  | _, _ => []

def sources : {k : Kind} → Value k → List ContextId
  | .comment, v => ((v : Comment).post.bind ToOne.source).toList
  | .post, v => ((v : Post).author.bind ToOne.source).toList ++
      (((v : Post).tags.bind MemberSet.source).toList ++
        ((v : Post).comments.bind MemberList.source).toList)
  | .node, v => ((v : Node).parent.bind ToOne.source).toList ++
      (((v : Node).children.bind MemberList.source).toList ++
        (((v : Node).notes.bind MemberSet.source).toList ++
          ((v : Node).owned.bind ToOne.source).toList))
  | .folder, v => ((v : Folder).parent.bind ToOne.source).toList
  | _, _ => []

end Value

/-! ### What was read -/

section Read

variable {source : Option ContextId} {k : Kind}

/-- A field whose members are not bound yet, and will be looked up in the source. -/
structure ReadIn (source : Option ContextId) (bonds : List Bond) (sources : List ContextId) :
    Prop where
  bonds : bonds = []
  sources : ∀ d ∈ sources, source = some d

theorem ReadIn.append {bonds bonds' : List Bond} {sources sources' : List ContextId}
    (h : ReadIn source bonds sources) (h' : ReadIn source bonds' sources') :
    ReadIn source (bonds ++ bonds') (sources ++ sources') where
  bonds := by rw [h.bonds, h'.bonds, List.append_nil]
  sources d hd := (List.mem_append.1 hd).elim (h.sources d) (h'.sources d)

theorem readIn_field {R : Type} {read : Json → Option R} {bonds : R → List Bond}
    {sourceOf : R → Option ContextId}
    (hread : ∀ j r, read j = some r → bonds r = [] ∧ sourceOf r = source)
    {json : Option Json} {field : Option R} (h : Json.optional? read json = some field) :
    ReadIn source (fieldBonds bonds field) (field.bind sourceOf).toList := by
  cases field with
  | none => exact ⟨rfl, fun d hd => by cases hd⟩
  | some r =>
    have hr : ∃ j, read j = some r := by
      unfold Json.optional? at h
      split at h
      · cases h
      · cases h
      · next j _ =>
        rcases Option.map_eq_some_iff.1 h with ⟨r', hr', heq⟩
        cases heq
        exact ⟨j, hr'⟩
    rcases hr with ⟨j, hj⟩
    rcases hread j r hj with ⟨hbonds, hsource⟩
    refine ⟨hbonds, ?_⟩
    intro d hd
    rw [← hsource]
    exact Option.mem_toList.1 hd

theorem readIn_toOne {json : Option Json} {field : Option (ToOne k)}
    (h : Json.optional? (ToOne.ofJson? source) json = some field) :
    ReadIn source (fieldBonds ToOne.bonds field) (field.bind ToOne.source).toList := by
  refine readIn_field ?_ h
  intro j r hr
  rcases Option.bind_eq_some_iff.1 hr with ⟨id, _, heq⟩
  cases heq
  exact ⟨rfl, rfl⟩

theorem readIn_list {json : Option Json} {field : Option (MemberList k)}
    (h : Json.optional? (MemberList.ofJson? source) json = some field) :
    ReadIn source (fieldBonds ToMany.bonds field) (field.bind MemberList.source).toList := by
  refine readIn_field ?_ h
  intro j r hr
  rcases Option.bind_eq_some_iff.1 hr with ⟨ids, _, heq⟩
  cases heq
  refine ⟨List.flatMap_eq_nil_iff.2 ?_, rfl⟩
  intro m hm
  rcases List.mem_map.1 hm with ⟨id, _, rfl⟩
  rfl

theorem readIn_set {json : Option Json} {field : Option (MemberSet k)}
    (h : Json.optional? (MemberSet.ofJson? source) json = some field) :
    ReadIn source (fieldBonds ToMany.bonds field) (field.bind MemberSet.source).toList := by
  refine readIn_field ?_ h
  intro j r hr
  rcases Option.bind_eq_some_iff.1 hr with ⟨ids, _, heq⟩
  cases heq
  refine ⟨List.flatMap_eq_nil_iff.2 ?_, rfl⟩
  intro m hm
  rcases List.mem_map.1 hm with ⟨entry, hentry, rfl⟩
  rcases List.mem_map.1 (Entries.mem_ofList hentry) with ⟨id, _, rfl⟩
  rfl

end Read

theorem readIn_value {k : Kind} {source : Option ContextId} {payload : Json} {v : Value k}
    (h : Value.decode k source payload = some v) :
    ReadIn source (Value.bonds v) (Value.sources v) := by
  cases k with
  | comment =>
    have hread : Comment.ofJson? source payload = some v := h
    unfold Comment.ofJson? at hread
    rcases Option.bind_eq_some_iff.1 hread with ⟨members, _, hfields⟩
    split at hfields
    · simp only [Option.bind_eq_bind, Option.bind_eq_some_iff] at hfields
      rcases hfields with ⟨_, _, _, _, _, hpost, _, _, heq⟩
      cases heq
      exact readIn_toOne hpost
    · cases hfields
  | post =>
    have hread : Post.ofJson? source payload = some v := h
    unfold Post.ofJson? at hread
    rcases Option.bind_eq_some_iff.1 hread with ⟨members, _, hfields⟩
    split at hfields
    · simp only [Option.bind_eq_bind, Option.bind_eq_some_iff] at hfields
      rcases hfields with ⟨_, _, _, _, _, hauthor, _, htags, _, hcomments, heq⟩
      cases heq
      exact (readIn_toOne hauthor).append ((readIn_set htags).append (readIn_list hcomments))
    · cases hfields
  | node =>
    have hread : Node.ofJson? source payload = some v := h
    unfold Node.ofJson? at hread
    rcases Option.bind_eq_some_iff.1 hread with ⟨members, _, hfields⟩
    split at hfields
    · simp only [Option.bind_eq_bind, Option.bind_eq_some_iff] at hfields
      rcases hfields with ⟨_, _, _, _, _, hparent, _, hchildren, _, hnotes, _, howned, heq⟩
      cases heq
      exact (readIn_toOne hparent).append
        ((readIn_list hchildren).append ((readIn_set hnotes).append (readIn_toOne howned)))
    · cases hfields
  | folder =>
    have hread : Folder.ofJson? source payload = some v := h
    unfold Folder.ofJson? at hread
    rcases Option.bind_eq_some_iff.1 hread with ⟨members, _, hfields⟩
    split at hfields
    · simp only [Option.bind_eq_bind, Option.bind_eq_some_iff] at hfields
      rcases hfields with ⟨_, _, _, hparent, heq⟩
      cases heq
      exact readIn_toOne hparent
    · cases hfields
  | _ => exact ⟨rfl, fun d hd => by cases hd⟩

instance : Bonded model where
  bonds := Value.bonds
  sources := Value.sources
  bonds_blank k := by cases k <;> rfl
  sources_blank k := by cases k <;> rfl
  bonds_decode h := (readIn_value h).bonds
  sources_decode h := (readIn_value h).sources

/-! ## Fills -/

section Fill

variable {o : Purview} {pre : Prop} {scope : Scope} {this : EntityId}

theorem genuine_comment_iff {owners : Owners} {v : Comment} :
    Genuine (T := model) (k := Kind.comment) owners v ↔
      ∀ r, v.post = some r → Vouched owners r.bonds := vouched_fieldBonds

theorem genuine_folder_iff {owners : Owners} {v : Folder} :
    Genuine (T := model) (k := Kind.folder) owners v ↔
      ∀ r, v.parent = some r → Vouched owners r.bonds := vouched_fieldBonds

theorem genuine_post_iff {owners : Owners} {v : Post} :
    Genuine (T := model) (k := Kind.post) owners v ↔
      (∀ r, v.author = some r → Vouched owners r.bonds) ∧
      (∀ r, v.tags = some r → Vouched owners (ToMany.bonds r)) ∧
      ∀ r, v.comments = some r → Vouched owners (ToMany.bonds r) := by
  refine vouched_append.trans (and_congr vouched_fieldBonds (vouched_append.trans ?_))
  exact and_congr vouched_fieldBonds vouched_fieldBonds

theorem genuine_node_iff {owners : Owners} {v : Node} :
    Genuine (T := model) (k := Kind.node) owners v ↔
      (∀ r, v.parent = some r → Vouched owners r.bonds) ∧
      (∀ r, v.children = some r → Vouched owners (ToMany.bonds r)) ∧
      (∀ r, v.notes = some r → Vouched owners (ToMany.bonds r)) ∧
      ∀ r, v.owned = some r → Vouched owners r.bonds := by
  refine vouched_append.trans (and_congr vouched_fieldBonds (vouched_append.trans ?_))
  refine and_congr vouched_fieldBonds (vouched_append.trans ?_)
  exact and_congr vouched_fieldBonds vouched_fieldBonds

theorem homeIn_node_iff {c : ContextId} {v : Node} : HomeIn (T := model) (k := Kind.node) c v ↔
    (∀ d ∈ v.parent.bind ToOne.source, d = c) ∧ (∀ d ∈ v.children.bind MemberList.source, d = c) ∧
      (∀ d ∈ v.notes.bind MemberSet.source, d = c) ∧ ∀ d ∈ v.owned.bind ToOne.source, d = c := by
  simp only [HomeIn, Bonded.sources, Value.sources, List.forall_mem_append, Option.mem_toList,
    Option.mem_def]

variable (hscope : scope.context = o.context)
include hscope

theorem minds_fillCodedTag (p : CodedTagPlain) (v : CodedTag) :
    Work.Minds (T := model) o pre (Genuine (T := model) (k := Kind.codedTag) o.owners)
      (fillCodedTag p scope this v) := by
  have hnothing : ∀ v : CodedTag, Genuine (T := model) (k := Kind.codedTag) o.owners v :=
    fun _ b hb => by cases hb
  refine (minds_locate (T := model) hscope Kind.codedTag this).bind fun found => ?_
  cases found with
  | error fault => exact Work.minds_pure fun _ => hnothing _
  | ok h => exact (Work.minds_note _).bind fun _ => Work.minds_pure fun _ => hnothing _

theorem minds_fillComment (p : CommentPlain) (v : Comment) :
    Work.Minds (T := model) o (Genuine (T := model) (k := Kind.comment) o.owners v)
      (Genuine (T := model) (k := Kind.comment) o.owners) (fillComment p scope v) := by
  rcases v with ⟨author, text, post, anchor⟩
  cases post with
  | none => exact Work.minds_pure fun _ => genuine_comment_iff.2 fun r hr => by cases hr
  | some post =>
    refine ((Work.minds_resolveOne (T := model) (k := Kind.post) hscope post).imp
      (fun h => genuine_comment_iff.1 h post rfl) fun _ _ => id).bind fun found => ?_
    refine Work.minds_get fun s => Work.minds_pure ?_
    rintro ⟨_, _, hvouched⟩
    refine genuine_comment_iff.2 ?_
    intro r hr
    cases hr
    exact hvouched

theorem minds_fillComments (p : PostPlain) {nested : Nested 1}
    (hnested : mapping.Nests scope nested) (v : Post) (tags : MemberSet Kind.tag)
    (author : Option (ToOne Kind.author)) :
    Work.Minds (T := model) o (Genuine (T := model) (k := Kind.post) o.owners v ∧
        Vouched o.owners (ToMany.bonds tags) ∧ ∀ r, author = some r → Vouched o.owners r.bonds)
      (Genuine (T := model) (k := Kind.post) o.owners)
      (fillComments p nested scope this v tags author) := by
  refine (minds_locate (T := model) hscope Kind.post this).bind fun found => ?_
  refine (Work.minds_replaceAll (T := model) (k := Kind.comment) hscope
    (fun h => (genuine_post_iff.1 h.1.1).2.2)
    (P := fun r => Vouched o.owners (ToMany.bonds r)) ?_).bind fun comments => ?_
  · intro build hbuild
    cases hbuild
    refine Work.minds_buildList (T := model) (k := Kind.comment) fun q _ =>
      hnested hscope Kind.comment q Nat.one_pos _ (Hook.minds_of_function ?_)
    rintro ⟨_, hfound⟩ c _
    refine genuine_comment_iff.2 ?_
    intro r hr
    rcases Option.map_eq_some_iff.1 hr with ⟨h, hh, rfl⟩
    exact vouched_ofHandle (T := model) (k := Kind.post)
      (hfound h (Outcome.toOption_eq_some.1 hh)).1.1
  · refine Work.minds_pure ?_
    rintro ⟨⟨⟨_, htags, hauthor⟩, _⟩, hcomments⟩
    refine genuine_post_iff.2 ⟨hauthor, ?_, hcomments⟩
    intro r hr
    cases hr
    exact htags

theorem minds_fillPost (p : PostPlain) {nested : Nested 1} (hnested : mapping.Nests scope nested)
    (v : Post) : Work.Minds (T := model) o (Genuine (T := model) (k := Kind.post) o.owners v)
      (Genuine (T := model) (k := Kind.post) o.owners) (fillPost p nested scope this v) := by
  rw [fillPost_parts]
  refine (Work.minds_buildSet (T := model) (k := Kind.tag) fun q _ =>
    hnested hscope Kind.tag q Nat.one_pos _ (Hook.minds_of_function fun _ _ => id)).bind
      fun tags => ?_
  split
  · next q _ =>
    refine (hnested hscope Kind.author q Nat.one_pos _
      (Hook.minds_of_function fun _ _ => id)).bind fun found => ?_
    refine (minds_fillComments hscope p hnested v tags (ToOne.pointTo v.author found)).imp ?_
      fun _ _ => id
    rintro ⟨⟨hv, htags⟩, hfound⟩
    exact ⟨hv, htags, vouched_pointTo (T := model) (k := Kind.author) (genuine_post_iff.1 hv).1
      fun h hh => (hfound h hh).1⟩
  · exact (minds_fillComments hscope p hnested v tags v.author).imp
      (fun h => ⟨h.1, h.2, (genuine_post_iff.1 h.1).1⟩) fun _ _ => id

theorem minds_fillFolder (p : FolderPlain) {nested : Nested (Plain.weight (k := .folder) p)}
    (hnested : mapping.Nests scope nested) (v : Folder) :
    Work.Minds (T := model) o (Genuine (T := model) (k := Kind.folder) o.owners v)
      (Genuine (T := model) (k := Kind.folder) o.owners) (fillFolder p nested v) := by
  rcases p with ⟨code, parent⟩
  cases parent with
  | none => exact Work.minds_pure fun h => genuine_folder_iff.2 (genuine_folder_iff.1 h)
  | some parent =>
    refine (hnested hscope Kind.folder ⟨parent, none⟩ _ _
      (Hook.minds_of_function fun _ _ => id)).bind fun found => Work.minds_pure ?_
    rintro ⟨hv, hfound⟩
    exact genuine_folder_iff.2 (vouched_pointTo (T := model) (k := Kind.folder) (genuine_folder_iff.1 hv)
      fun h hh => (hfound h hh).1)

/-! ### Nodes -/

section Probes

variable {p : NodePlain} {me : Option (Handle Kind.node)} {key : UInt64} {slot : Nat}
  {refill : Work model (Option (Handle Kind.node))} {s : Session model}
  (hpin : (key, slot) ∈ o.pins) (hadvances : refill.Leads Advances)
  (hrefill : refill.Minds o pre fun found => ∀ h, found = some h → h.Own o)
include hpin hadvances hrefill

omit hscope hrefill in
/-- Going through the members binds them, and changes nothing else of the value. -/
theorem minds_probeChildren {h : Handle Kind.node} {children : MemberList Kind.node}
    (hholds : s.Holds h) (hown : pre → h.Own o ∧ h.slot = slot)
    (hchildren : (s.value h : Node).children = some children) :
    Session.Minds o pre (fun _ => True) s (runProbe p (some h) scope refill .children s) := by
  refine .given (fun hs =>
    (leads_runProbe scope fares_advances hadvances .children hs
      (fun _ hh => Option.some.inj hh ▸ hholds) hs).run) ?_
  intro hpre hkept
  rcases hown hpre with ⟨hmine, rfl⟩
  have hhome := homeIn_node_iff.1 (hkept.homeIn_value hpin hholds)
  rw [hchildren] at hhome
  have hgenuine := genuine_node_iff.1 (hkept.genuine_value hholds)
  have hhandled := (Work.minds_handles (T := model) hhome.2.1 s).imp
    (fun _ : pre => hgenuine.2.1 children hchildren) fun _ _ => id
  have hreading : Run Deed.Reading s (ToMany.handles children s).2 :=
    (reads_reaches fun _ h => h).handles (k := Kind.node) trivial children s hkept.sound
  -- the members are put back bound, and nothing else of the value changes
  have hend : runProbe p (some h) scope refill .children s =
      (.many (some ((ToMany.handles children s).1.1.map Handle.id)),
        (ToMany.handles children s).2.rebind h ({ (s.value h : Node) with
          children := some (ToMany.handles children s).1.2 } : Node)) := by
    simp only [runProbe, Work.bind_apply, Work.get_apply, hchildren]
    rfl
  rw [hend]
  refine hhandled.after (.modify (fun _ => ?_) (fun _ => hmine.owner) ?_ fun _ => trivial)
  · refine (run_rebind_after hholds hreading ?_).mono fun _ => Deed.Reading.native
    exact congrArg Except.ok (Node.toJson_children hchildren (children.toJson_handles s))
  · intro hbound hkept' m hm
    refine ⟨genuine_node_iff.2 ⟨hgenuine.1, ?_, hgenuine.2.2⟩, ?_⟩
    · intro r hr
      cases hr
      exact hbound.2
    · intro key' hpin'
      rcases (hkept'.pinned key' _ hpin').2 with ⟨m', hm', hfilling, _⟩
      cases hm.symm.trans hm'
      exact ⟨hfilling, homeIn_node_iff.2 hhome⟩

/-- A probe goes through the members of what stands in for the node, which is at home here. -/
theorem minds_runProbe (probe : Probe) (hme : ∀ h, me = some h → s.Holds h)
    (hown : pre → ∀ h, me = some h → h.Own o ∧ h.slot = slot) :
    Session.Minds o pre (fun _ => True) s (runProbe p me scope refill probe s) := by
  cases probe with
  | self => exact .pure fun _ => trivial
  | find =>
    exact (Work.minds_findByKey (T := model) hscope Kind.node _).bind
      (fun _ => Work.minds_pure fun _ => trivial) s
  | all =>
    exact (Work.minds_fetchOrReport (T := model) hscope Kind.node (.all "Node")).bind
      (fun _ => Work.minds_pure fun _ => trivial) s
  | refill => exact hrefill.bind (fun _ => Work.minds_pure fun _ => trivial) s
  | children =>
    cases me with
    | none => exact .pure fun _ => trivial
    | some h =>
      cases hchildren : (s.value h : Node).children with
      | none =>
        have hend : runProbe p (some h) scope refill .children s = (.many none, s) := by
          simp only [runProbe, Work.bind_apply, Work.get_apply, hchildren, Work.pure_apply]
        rw [hend]
        exact .pure fun _ => trivial
      | some children =>
        exact minds_probeChildren hpin hadvances (hme h rfl) (fun hpre => hown hpre h rfl) hchildren
  | delete =>
    cases me with
    | none => exact .pure fun _ => trivial
    | some h =>
      exact ((Work.minds_deleteOrReport (T := model) (k := Kind.node) hscope h).imp
        (fun hpre => (hown hpre h rfl).1.1) fun _ _ => id).bind
        (fun _ => Work.minds_pure fun _ => trivial) s
  | save =>
    exact (Work.minds_save (T := model)).bind (fun _ => Work.minds_pure fun _ => trivial) s
  | other name => exact .pure fun _ => trivial

theorem minds_runProbes (probes : List Probe) (hme : ∀ h, me = some h → s.Holds h)
    (hown : pre → ∀ h, me = some h → h.Own o ∧ h.slot = slot) :
    Session.Minds o pre (fun _ => True) s (runProbes p me scope refill probes s) := by
  induction probes generalizing s with
  | nil => exact .pure fun _ => trivial
  | cons probe rest ih =>
    have hprobe := minds_runProbe hscope hpin hadvances hrefill (p := p) probe hme hown
    rcases hresult : runProbe p me scope refill probe s with ⟨result, s₁⟩
    rw [hresult] at hprobe
    have hend : runProbes p me scope refill (probe :: rest) s =
        runProbes p me scope refill rest (s₁.note (.probed probe result)) := by
      simp only [runProbes, Work.bind_apply, hresult, Work.modify_apply]
    rw [hend]
    refine hprobe.next fun hs => ?_
    have hnoted : Session.Minds o pre (fun _ => True) s₁
        ((), s₁.note (.probed probe result)) := .note _ fun _ => trivial
    have hrun := (hprobe.runs hs).trans (hnoted.runs ((hprobe.runs hs).sound hs))
    refine (hnoted.after ?_).imp And.left fun _ _ => id
    refine (ih fun h hh => ?_).imp And.left fun _ _ => id
    exact (hme h hh).run (hrun.mono fun _ _ => trivial)

end Probes

theorem minds_fillNotes (p : NodePlain) {nested : Nested p.weight}
    (hnested : mapping.Nests scope nested) (v : Node) (parent : Option (ToOne Kind.node))
    (children : Option (MemberList Kind.node)) :
    Work.Minds (T := model) o (Genuine (T := model) (k := Kind.node) o.owners v ∧
        (∀ r, parent = some r → Vouched o.owners r.bonds) ∧
        ∀ r, children = some r → Vouched o.owners (ToMany.bonds r))
      (Genuine (T := model) (k := Kind.node) o.owners)
      (fillNotes p nested scope this v parent children) := by
  refine (Work.minds_replaceAll (T := model) (k := Kind.note) hscope
    (fun hpre => (genuine_node_iff.1 hpre.1).2.2.1)
    (P := fun r => Vouched o.owners (ToMany.bonds r)) ?_).bind fun notes => ?_
  · intro build hbuild
    rcases Option.map_eq_some_iff.1 hbuild with ⟨ps, _, rfl⟩
    exact Work.minds_buildSet (T := model) (k := Kind.note) fun q _ =>
      hnested hscope Kind.note q _ _ (Hook.minds_of_function fun _ _ h => h)
  · refine (Work.minds_replaceOne (T := model) (k := Kind.note) hscope
      (fun hpre => (genuine_node_iff.1 hpre.1.1).2.2.2) ?_).bind fun owned => ?_
    · intro build hbuild
      rcases Option.map_eq_some_iff.1 hbuild with ⟨q, _, rfl⟩
      exact hnested hscope Kind.note q _ _ (Hook.minds_of_function fun _ _ => id)
    · refine Work.minds_pure ?_
      rintro ⟨⟨⟨_, hparent, hchildren⟩, hnotes⟩, howned⟩
      exact genuine_node_iff.2 ⟨hparent, hchildren, hnotes, howned⟩

/-- The children come to refer to the node, so it has to be one of those that are minded. -/
theorem minds_fillChildren (p : NodePlain) {nested : Nested p.weight}
    (hnested : mapping.Nests scope nested) (v : Node) {me : Option (Handle Kind.node)}
    (parent : Option (ToOne Kind.node)) :
    Work.Minds (T := model) o (Genuine (T := model) (k := Kind.node) o.owners v ∧
        (∀ h, me = some h → h.Own o) ∧ ∀ r, parent = some r → Vouched o.owners r.bonds)
      (Genuine (T := model) (k := Kind.node) o.owners)
      (fillChildren p nested scope this v me parent) := by
  unfold fillChildren
  split
  · next ps hps =>
    refine (Work.minds_buildList (T := model) (k := Kind.node) fun q hq =>
      hnested hscope Kind.node q (NodePlain.weight_child_lt hps hq) _
        (Hook.minds_of_function ?_)).bind fun children => ?_
    · rintro ⟨_, hme, _⟩ n hn
      rcases genuine_node_iff.1 hn with ⟨_, hothers⟩
      refine genuine_node_iff.2 ⟨?_, hothers⟩
      intro r hr
      rcases Option.map_eq_some_iff.1 hr with ⟨h, hh, rfl⟩
      exact vouched_ofHandle (T := model) (k := Kind.node) (hme h hh).1
    · refine (minds_fillNotes hscope p hnested v parent (some children)).imp ?_ fun _ _ => id
      rintro ⟨⟨hv, _, hparent⟩, hchildren⟩
      refine ⟨hv, hparent, ?_⟩
      intro r hr
      cases hr
      exact hchildren
  · exact (minds_fillNotes hscope p hnested v parent v.children).imp
      (fun hpre => ⟨hpre.1, hpre.2.2, (genuine_node_iff.1 hpre.1).2.1⟩) fun _ _ => id

theorem minds_fillParent (p : NodePlain) {nested : Nested p.weight}
    (hnested : mapping.Nests scope nested) (v : Node) (me : Option (Handle Kind.node)) :
    Work.Minds (T := model) o (Genuine (T := model) (k := Kind.node) o.owners v ∧
        ∀ h, me = some h → h.Own o)
      (Genuine (T := model) (k := Kind.node) o.owners) (fillParent p nested scope this v me) := by
  unfold fillParent
  split
  · next q _ =>
    refine (hnested hscope Kind.node q _ _ (Hook.minds_of_function fun _ _ => id)).bind
      fun found => ?_
    refine (minds_fillChildren hscope p hnested v (ToOne.pointTo v.parent found)).imp ?_
      fun _ _ => id
    rintro ⟨⟨hv, hme⟩, hfound⟩
    exact ⟨hv, hme, vouched_pointTo (T := model) (k := Kind.node) (genuine_node_iff.1 hv).1
      fun h hh => (hfound h hh).1⟩
  · exact (minds_fillChildren hscope p hnested v v.parent).imp
      (fun hpre => ⟨hpre.1, hpre.2, (genuine_node_iff.1 hpre.1).1⟩) fun _ _ => id

variable {slot : Nat} (hpin : (this.key, slot) ∈ o.pins)
include hpin

theorem minds_fillNode (p : NodePlain) {nested : Nested p.weight}
    (hadvances : NestedLeads (fun _ => True) Advances nested)
    (hnested : mapping.Nests scope nested) (v : Node) :
    Work.Minds (T := model) o (Genuine (T := model) (k := Kind.node) o.owners v)
      (Genuine (T := model) (k := Kind.node) o.owners) (fillNode p nested scope this v) := by
  rw [fillNode_parts]
  intro s
  refine (minds_locate (T := model) hscope Kind.node this s).next fun hs => ?_
  have hlocate := locates (T := model) hs scope Kind.node this
  rw [Work.bind_apply]
  generalize (scope.locate (T := model) .node this).outcome s = out at hlocate ⊢
  rcases out with ⟨found, s₁⟩
  -- what was located under the pinned key is the node itself, in its slot
  let mine : Prop := Genuine (T := model) (k := Kind.node) o.owners v ∧
    ∀ h, found.toOption = some h → h.Own o ∧ h.slot = slot
  have hmine : ∀ {P : Prop}, Genuine (T := model) (k := Kind.node) o.owners v ∧ P ∧
      Apart o.owners o.context s s₁ ∧ (∀ h, found = .ok h → h.Own o ∧
        ∀ slot, (this.key, slot) ∈ o.pins → h.slot = slot) → mine := by
    rintro P ⟨hv, _, _, hfound⟩
    refine ⟨hv, ?_⟩
    intro h hh
    have hok := hfound h (Outcome.toOption_eq_some.1 hh)
    exact ⟨hok.1, hok.2 slot hpin⟩
  have hparent : Work.Minds (T := model) o mine
      (Genuine (T := model) (k := Kind.node) o.owners) (fillParent p nested scope this _ _) :=
    (minds_fillParent hscope p hnested
      { v with code := p.code, label := assign v.label p.label false } found.toOption).imp
        (fun hpre => ⟨hpre.1, fun h hh => (hpre.2 h hh).1⟩) fun _ _ => id
  refine Session.Minds.imp ?_ hmine fun _ _ => id
  split
  · next hprobes =>
    have hleaf := NodePlain.weight_leaf_lt hprobes p.code (some "refilled")
    have hrefill : Work.Minds (T := model) o mine (fun found => ∀ h, found = some h → h.Own o)
        (nested .node (.leaf p.code (some "refilled")) hleaf pure) :=
      hnested hscope Kind.node (.leaf p.code (some "refilled")) hleaf _
        (Hook.minds_of_function fun _ _ => id)
    have hprobed := minds_runProbes hscope hpin (p := p) (s := s₁)
      (hadvances .node trivial (.leaf p.code (some "refilled")) hleaf id) hrefill p.probes
      (fun h hh => hlocate.holds h (Outcome.toOption_eq_some.1 hh)) And.right
    exact hprobed.after ((hparent _).imp And.left fun _ _ => id)
  · exact hparent s₁

end Fill

/-! ## All types -/

theorem exists_keyedNode (p : NodePlain) (v : Node) :
    ∃ w : Node, w.toJson = Scope.keyed v.toJson (Plain.naturalKey (k := .node) p) := by
  rcases hcode : p.code with _ | code
  · refine ⟨v, ?_⟩
    simp only [Plain.naturalKey, hcode]
    rfl
  · refine ⟨{ v with code := some code }, ?_⟩
    simp only [Plain.naturalKey, hcode]
    exact (Json.withField_ofFields _ _ (by simp)).symm

/-- There is always something to stand in for a node. -/
theorem exists_previewNode (scope : Scope) (p : NodePlain) (v : Node) : ∃ (shown : Node) (payload : Json),
    scope.preview (T := model) (k := .node) v (Plain.naturalKey (k := .node) p) =
      .ok (shown, payload) := by
  rcases exists_keyedNode p v with ⟨w, hw⟩
  have hshown := Node.ofJson?_toJson scope.source w
  rw [hw] at hshown
  exact ⟨_, _, Scope.preview_of_decode (T := model) rfl hshown⟩

/-- While it is filled, a node is pinned to its key, with a stand-in that is at home. -/
theorem minds_showNode {o : Purview} {pre : Prop} {scope : Scope}
    (hscope : scope.context = o.context) (p : NodePlain) {nested : Nested p.weight}
    (hadvances : NestedLeads (fun _ => True) Advances nested)
    (hnested : mapping.Nests scope nested) {item : Handle Kind.node} (v : Node)
    {s : Session model} (hout : Mapping.CheckedOut s item)
    (htaken : pre → Mapping.Taken o s item ∧ Genuine (T := model) (k := Kind.node) o.owners v) :
    Session.Minds o pre (Genuine (T := model) (k := Kind.node) o.owners) s ((do
      scope.showPreview (T := model) item v (Plain.naturalKey (k := .node) p)
      fillNode p nested scope item.id v : Work model Node) s) := by
  rcases exists_previewNode scope p v with ⟨shown, payload, hpreview⟩
  have hshow := Mapping.minds_showPreview scope hout (fun hpre => (htaken hpre).1) v
    (Plain.naturalKey (k := .node) p)
  have hshown := Mapping.showPreview_of_ok (h := item) (s := s) hpreview
  rw [Work.bind_apply, hshown]
  rw [hshown] at hshow
  refine hshow.next fun hs => ?_
  let o' : Purview := { o with pins := (item.id.key, item.slot) :: o.pins }
  have hfilled := minds_fillNode (o := o') hscope List.mem_cons_self p hadvances hnested v
    (s.standIn item (T := model) shown payload)
  refine (hfilled.imp (fun hpre => (htaken (And.left hpre)).2) fun _ _ => id).pin ?_
  · rintro ⟨hpre, _, hapart, _⟩ hkept
    refine ⟨((htaken hpre).1.apart hapart).entry, ?_⟩
    rcases hout with ⟨m, hm, _, hfilling⟩
    refine ⟨m.standIn (k := Kind.node) shown payload, ?_, hfilling, ?_⟩
    · exact entity?_modifyEntity_self hm _
    · rcases Scope.decode_of_preview hpreview with ⟨_, _, _, hdecode⟩
      refine homeIn_of_decode hdecode ?_
      intro d hd
      unfold Scope.source at hd
      split at hd
      · rw [← hscope, ← Option.some.inj hd]
      · cases hd

theorem minds_sample : mapping.Minds where
  lawful := lawful
  fill {scope o pre k} p nested item v s hscope hadvances hnested hout htaken := by
    -- but for nodes it does not matter what is shown meanwhile
    have hrest : ∀ hfill : Work.Minds (T := model) o (Genuine (T := model) o.owners v)
        (Genuine (T := model) o.owners) (fill p nested scope item.id v),
        Session.Minds o pre (Genuine (T := model) o.owners) s
          (mapping.showAndFill scope p nested item v s) := by
      intro hfill
      have hshow := Mapping.minds_showPreview scope hout (fun hpre => (htaken hpre).1) v
        (mapping.naturalKey p)
      exact hshow.after ((hfill _).imp (fun hpre => (htaken hpre.1).2) fun _ _ => id)
    cases k with
    | codedTag => exact hrest (minds_fillCodedTag hscope p v)
    | comment => exact hrest (minds_fillComment hscope p v)
    | post => exact hrest (minds_fillPost hscope p hnested v)
    | folder => exact hrest (minds_fillFolder hscope p hnested v)
    | node =>
      refine minds_showNode hscope p (fun l _ q hq g => ?_) hnested v hout htaken
      exact hadvances l q hq _ fun v => reads_sample.pure (g v)
    | _ => exact hrest (Work.minds_pure fun _ b hb => by cases hb)

end Reconcile.Sample
