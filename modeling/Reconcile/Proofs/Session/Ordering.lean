import Reconcile.Proofs.Query.Comparing
import Reconcile.Proofs.Session.Answering

/-!
# Sorted answers

Sort terms only arrange an answer: a sorted fetch answers whenever the unsorted one does, with the
same entities.  On an attribute that holds integers they are in numerical order if rounding keeps
the integers that no signed word holds apart.
-/

namespace Reconcile

namespace Session

variable {T : Model} {s s' : Session T} {k : T.Kind} {q q' : Query} {pending : Bool}
  {scope : Scope} {allow : Deed → Prop}

/-! ## Sorting only arranges -/

theorem selectMatches_congr (h : ∀ payload, q.accepts payload = q'.accepts payload)
    (entries : List (Entry T)) :
    Scope.selectMatches k q pending entries = Scope.selectMatches k q' pending entries := by
  induction entries with
  | nil => rfl
  | cons e rest ih => simp only [Scope.selectMatches, h, ih]

/-- The entities that the query asks for, with the payloads they are accepted on. -/
def gather (scope : Scope) (k : T.Kind) (q : Query) (rows : List (UInt64 × Row)) :
    Attempt T (List (Handle k × Json)) := do
  scope.adoptRows k rows
  let s ← get
  Scope.selectMatches k q (s.takesPending scope.context) (s.registry scope.context).values

theorem answer_eq (rows : List (UInt64 × Row)) : answer scope k q rows =
    gather scope k q rows >>= fun found => do
      modify (·.report (.fetched (T.entityName k) scope.context (Query.arrange q found).length))
      return (Query.arrange q found).map (·.1) := by
  simp only [answer, gather, bind_assoc]

/-- A query that asks for the same entities in another order is answered with the same entities. -/
theorem perm_fetch {found : List (Handle k)} (haskable : s.Askable scope.context k q)
    (haskable' : s.Askable scope.context k q')
    (h : ∀ payload, q.accepts payload = q'.accepts payload)
    (hfetch : (scope.fetch k q).outcome s = (.ok found, s')) : ∃ found' s'',
    (scope.fetch k q').outcome s = (.ok found', s'') ∧ found'.Perm found := by
  rw [fetch_of_askable haskable, answer_eq] at hfetch
  rcases Attempt.bind_eq_ok.1 hfetch with ⟨matched, s₁, hgather, hrest⟩
  have hsame : gather scope k q' = gather scope k q := by
    funext rows
    simp only [gather, selectMatches_congr fun payload => (h payload).symm]
  rw [fetch_of_askable haskable', answer_eq, hsame, Attempt.outcome_bind_of_ok hgather]
  refine ⟨_, _, rfl, ?_⟩
  obtain rfl : (Query.arrange q matched).map (·.1) = found := Except.ok.inj (Prod.mk.inj hrest).1
  exact ((Query.perm_arrange q' matched).trans (Query.perm_arrange q matched).symm).map _

/-! ## Integers -/

/-- The keys of a longer list name attributes if those of its parts do. -/
theorem checkKeys_append {d : Description} {keys keys' : List String}
    (h : d.checkKeys keys = .ok ()) (h' : d.checkKeys keys' = .ok ()) :
    d.checkKeys (keys ++ keys') = .ok () := by
  induction keys with
  | nil => exact h'
  | cons key rest ih =>
    rw [Description.checkKeys] at h
    rw [List.cons_append, Description.checkKeys]
    cases hkey : d.queryable key with
    | error fault =>
      rw [hkey] at h
      cases h
    | ok a =>
      rw [hkey] at h
      exact ih h

/-- An attribute for integers that is not `null` holds an integer of a word. -/
theorem exists_int_of_check {a : Attribute} {value : Json} (hscalar : a.scalar = .integer)
    (hcheck : a.check value = .ok ()) (hvalue : value ≠ .null) : ∃ n, value = .int n := by
  rw [Attribute.check, hscalar] at hcheck
  cases value with
  | null => exact absurd rfl hvalue
  | number m =>
    cases m with
    | int n => exact ⟨n, rfl⟩
    | double _ => cases hcheck
  | _ => cases hcheck

/-- What others see of an entity of the type that the filter accepts. -/
def Wanted (s : Session T) (c : ContextId) (k : T.Kind) (filter : Option Filter)
    (payload : Json) : Prop :=
  ∃ id, s.Presents c k id payload ∧ (Query.mk (T.entityName k) filter []).accepts payload = true

/-- Others see this integer in the attribute of an entity of the type. -/
def Carries (s : Session T) (c : ContextId) (k : T.Kind) (name : String) (id : EntityId)
    (n : WordInt) : Prop :=
  ∃ payload, s.Presents c k id payload ∧ payload.valueAt name = .int n

theorem fetchOrReport_of_ok {found : List (Handle k)}
    (h : (scope.fetch k q).outcome s = (.ok found, s')) :
    scope.fetchOrReport k q s = (some found, s') := by
  simp only [Scope.fetchOrReport, Work.bind_apply, h, Work.pure_apply]

theorem fetch_of_fetchOrReport {found : List (Handle k)}
    (h : (scope.fetchOrReport k q s).1 = some found) :
    ∃ s', (scope.fetch k q).outcome s = (.ok found, s') := by
  rcases hfetch : (scope.fetch k q).outcome s with ⟨fault | found', s'⟩
  · simp only [Scope.fetchOrReport, Work.bind_apply, hfetch] at h
    cases h
  · rw [fetchOrReport_of_ok hfetch] at h
    cases h
    exact ⟨s', rfl⟩

/-- Sorting by an attribute for integers, in every session, imports included: there is an answer
whenever the unsorted fetch has one, with the same entities, and if all of them have an integer that
the schema accepts and rounding makes no two of these one, they are in numerical order.  Two integers
compare as they should exactly if rounding does not make them one. -/
theorem findSorted_integers (hrun : Run allow .empty s) {name terms : String} {ascending : Bool}
    {filter : Option Filter} (hterms : SortTerm.ofText terms ascending = [⟨name, ascending⟩])
    {d : Description} {a : Attribute}
    (hdescribed : (s.schemaOf scope.context).require (T.entityName k) = .ok d)
    (hattribute : d.attribute? name = some a) (hscalar : a.scalar = .integer) :
    (∀ unsorted, (scope.fetchOrReport k ⟨T.entityName k, filter, []⟩ s).1 = some unsorted →
      (∀ payload, s.Wanted scope.context k filter payload →
        a.check (payload.valueAt name) = .ok () ∧ payload.valueAt name ≠ .null) →
      (∀ payload payload' m n, s.Wanted scope.context k filter payload →
        s.Wanted scope.context k filter payload' → payload.valueAt name = .int m →
        payload'.valueAt name = .int n → m.ToldApart n) →
      ∃ found, (scope.findSorted k terms ascending filter s).1 = some found ∧
        found.Perm unsorted ∧
        found.Pairwise fun h h' => ∃ m n, s.Carries scope.context k name h.id m ∧
          s.Carries scope.context k name h'.id n ∧ SortTerm.InOrder ascending m n) ∧
    ∀ payload payload' m n, payload.valueAt name = .int m → payload'.valueAt name = .int n →
      (SortTerm.comparePayloads ⟨name, ascending⟩ payload payload' =
        (if ascending then compare m.val n.val else compare n.val m.val) ↔ m.ToldApart n) := by
  refine ⟨?_, fun _ _ _ _ ha hb => SortTerm.comparePayloads_int_iff ascending ha hb⟩
  intro unsorted hunsorted hholds htold
  have hs : Sound s := hrun.sound sound_empty
  have hapart : SortTerm.IntegersApart name (s.Wanted scope.context k filter) := by
    constructor
    · intro payload hwanted
      exact exists_int_of_check hscalar (hholds payload hwanted).1 (hholds payload hwanted).2
    · exact htold
  let q : Query := ⟨T.entityName k, filter, [⟨name, ascending⟩]⟩
  rcases fetch_of_fetchOrReport hunsorted with ⟨s₁, hfetch⟩
  have haskable := ((fetch_spec hs scope k _).2 _ _ hfetch).askable
  have haskable' : s.Askable scope.context k q := by
    rcases haskable with ⟨_, d', hd', hkeys⟩
    cases hdescribed.symm.trans hd'
    have hqueryable : d.queryable name = .ok a := by rw [Description.queryable, hattribute]
    refine ⟨rfl, d, hdescribed, ?_⟩
    rw [Query.keys, List.map_nil, List.append_nil] at hkeys
    refine checkKeys_append hkeys ?_
    show d.checkKeys [name] = .ok ()
    rw [Description.checkKeys, hqueryable]
    rfl
  rcases perm_fetch haskable haskable' (fun _ => rfl) hfetch with ⟨found, s', hsorted, hperm⟩
  have hs' : Sound s' := by
    have hrun' := (fetch_spec hs scope k q).1
    rw [hsorted] at hrun'
    exact hrun'.sound hs
  have hfetches := (fetch_spec hs scope k q).2 found s' hsorted
  refine ⟨found, ?_, hperm, ?_⟩
  · rw [Scope.findSorted, hterms, fetchOrReport_of_ok hsorted]
  · have harranges : Arranges (s.Wanted scope.context k filter) (SortTerm.compareBy q.order) := by
      refine SortTerm.arranges_compareBy_of_clear ?_
      intro term hterm
      cases List.mem_singleton.1 hterm
      exact hapart.clear
    have harranged := hfetches.arranged hs hs' harranges fun id _ hpresents haccepts =>
      ⟨id, hpresents, haccepts⟩
    refine harranged.imp ?_
    rintro h h' ⟨payload, payload', hseen, hseen', hwanted, hwanted', hbefore⟩
    have hle : (SortTerm.compareBy q.order payload payload').isLE = true := by
      rcases hbefore with hlt | ⟨heq, _⟩
      · simp [hlt]
      · simp [heq]
    rcases hapart.inOrder hwanted hwanted' hle with ⟨m, n, hm, hn, hordered⟩
    exact ⟨m, n, ⟨payload, hseen, hm⟩, ⟨payload', hseen', hn⟩, hordered⟩

section Codes

open Sample

/-- A store with folders and a context that has inserted one, with this code. -/
def codedFolder (code : UInt64) : Session model :=
  (((Session.empty.openStore folderSchema .default).2.openContext ⟨0⟩).2.insertUnder ⟨1⟩
    Kind.folder 1).modifyEntity 0 fun _ =>
      .new (T := model) Kind.folder (⟨some code, none⟩ : Folder) true

/-- The same context after it has inserted a second one. -/
def codedFolders (first second : UInt64) : Session model :=
  ((codedFolder first).insertUnder ⟨1⟩ Kind.folder 2).modifyEntity 1 fun _ =>
    .new (T := model) Kind.folder (⟨some second, none⟩ : Folder) true

def folderHandle (slot : Nat) (key : UInt64) : Handle Kind.folder :=
  ⟨slot, ⟨"Folder", key⟩, ⟨1⟩⟩

def folderPayload (code : UInt64) : Json := Folder.toJson ⟨some code, none⟩

theorem run_codedFolders (first second : UInt64) :
    Run Deed.Native .empty (codedFolders first second) := by
  let s₀ : Session model := ((Session.empty.openStore folderSchema .default).2.openContext ⟨0⟩).2
  have hopen : Run Deed.Native .empty s₀ :=
    ((Step.openStore .empty folderSchema .default).run trivial).trans
      ((Step.openContext _ ⟨0⟩ rfl).run trivial)
  have hstore : s₀.storeOf? ⟨1⟩ = some (Store.new folderSchema .default) := rfl
  have hfirst : Run Deed.Native s₀ (codedFolder first) := run_insertWith hstore rfl rfl _
  have hstore' : (codedFolder first).storeOf? ⟨1⟩ =
      some { Store.new folderSchema .default with nextKey := 2 } := rfl
  have hsecond : Run Deed.Native (codedFolder first) (codedFolders first second) :=
    run_insertWith hstore' rfl rfl _
  exact (hopen.trans hfirst).trans hsecond

theorem presents_codedFolders {first second : UInt64} {id : EntityId} {payload : Json}
    (h : (codedFolders first second).Presents ⟨1⟩ Kind.folder id payload) :
    payload = folderPayload first ∨ payload = folderPayload second := by
  have hvalues : ((codedFolders first second).registry ⟨1⟩).values =
      [⟨Kind.folder, folderHandle 0 1, true⟩, ⟨Kind.folder, folderHandle 1 2, true⟩] := rfl
  cases h with
  | @registered e he hid hkind hlive hwanted hvisible =>
    have hmem : e ∈ ((codedFolders first second).registry ⟨1⟩).values :=
      SortedMap.mem_values_iff.2 ⟨id.key, he⟩
    rw [hvalues] at hmem
    rcases List.mem_pair.1 hmem with rfl | rfl
    · cases hvisible
      exact Or.inl rfl
    · cases hvisible
      exact Or.inr rfl
  | committed hunread hname hrow =>
    have hempty : (codedFolders first second).rowsOf ⟨1⟩ = .empty := rfl
    rw [hempty] at hrow
    cases hrow

theorem valueAt_folderPayload (code : UInt64) :
    (folderPayload code).valueAt "code" = .int (.ofUInt64 code) := Folder.valueAt_code _

theorem carries_codedFolders (first second : UInt64) :
    (codedFolders first second).Carries ⟨1⟩ Kind.folder "code" ⟨"Folder", 1⟩ (.ofUInt64 first) ∧
      (codedFolders first second).Carries ⟨1⟩ Kind.folder "code" ⟨"Folder", 2⟩
        (.ofUInt64 second) := by
  have hfirst : (codedFolders first second).Presents ⟨1⟩ Kind.folder ⟨"Folder", 1⟩
      (folderPayload first) :=
    .registered (e := ⟨Kind.folder, folderHandle 0 1, true⟩) rfl rfl rfl rfl (fun _ => rfl) rfl
  have hsecond : (codedFolders first second).Presents ⟨1⟩ Kind.folder ⟨"Folder", 2⟩
      (folderPayload second) :=
    .registered (e := ⟨Kind.folder, folderHandle 1 2, true⟩) rfl rfl rfl rfl (fun _ => rfl) rfl
  exact ⟨⟨_, hfirst, valueAt_folderPayload first⟩, ⟨_, hsecond, valueAt_folderPayload second⟩⟩

/-- The folder of the smaller code comes first. -/
theorem findSorted_codedFolders : ∃ found,
    ((Scope.within ⟨1⟩).findSorted (T := model) Kind.folder "code" true none
      (codedFolders 2 1)).1 = some found ∧ found = [folderHandle 1 2, folderHandle 0 1] ∧
    found.Pairwise fun a b => ∃ m n, (codedFolders 2 1).Carries ⟨1⟩ Kind.folder "code" a.id m ∧
      (codedFolders 2 1).Carries ⟨1⟩ Kind.folder "code" b.id n ∧ SortTerm.InOrder true m n := by
  have hterms : SortTerm.ofText "code" true = [⟨"code", true⟩] := by decide +kernel
  have hdescribed : ((codedFolders 2 1).schemaOf (Scope.within ⟨1⟩).context).require "Folder" =
      .ok folderDescription := rfl
  have hunsorted : ((Scope.within ⟨1⟩).fetchOrReport (T := model) Kind.folder
      ⟨"Folder", none, []⟩ (codedFolders 2 1)).1 = some [folderHandle 0 1, folderHandle 1 2] := rfl
  have hwanted : ∀ payload, (codedFolders 2 1).Wanted ⟨1⟩ Kind.folder none payload →
      payload = folderPayload 2 ∨ payload = folderPayload 1 := by
    rintro payload ⟨id, hpresents, _⟩
    exact presents_codedFolders hpresents
  have hholds : ∀ payload, (codedFolders 2 1).Wanted ⟨1⟩ Kind.folder none payload →
      (requiredInteger "code").check (payload.valueAt "code") = .ok () ∧
        payload.valueAt "code" ≠ .null := by
    intro payload h
    rcases hwanted payload h with rfl | rfl <;>
      exact ⟨by rw [valueAt_folderPayload]; rfl, by rw [valueAt_folderPayload]; exact nofun⟩
  have hsigned : ∀ payload n, (codedFolders 2 1).Wanted ⟨1⟩ Kind.folder none payload →
      payload.valueAt "code" = .int n → n.IsSigned := by
    intro payload n h hn
    rcases hwanted payload h with rfl | rfl
    · cases (valueAt_folderPayload 2).symm.trans hn
      decide
    · cases (valueAt_folderPayload 1).symm.trans hn
      decide
  rcases (findSorted_integers (k := Kind.folder) (run_codedFolders 2 1) hterms hdescribed
    (a := requiredInteger "code") rfl rfl).1 _ hunsorted hholds
    (fun payload payload' m n h h' hm hn => Or.inl ⟨hsigned payload m h hm, hsigned payload' n h' hn⟩)
    with ⟨found, hfound, _, hordered⟩
  have hsame : ((Scope.within ⟨1⟩).findSorted (T := model) Kind.folder "code" true none
      (codedFolders 2 1)).1 = some [folderHandle 1 2, folderHandle 0 1] := by decide +kernel
  exact ⟨found, hfound, Option.some.inj (hfound.symm.trans hsame), hordered⟩

/-- Codes that no signed word holds are level if they are close, and stay in creation order. -/
theorem findSorted_large_codes : ∃ m n, n.val < m.val ∧
    Run Deed.Native .empty (codedFolders 9223372036854775809 9223372036854775808) ∧
    (codedFolders 9223372036854775809 9223372036854775808).Carries ⟨1⟩ Kind.folder "code"
      ⟨"Folder", 1⟩ m ∧
    (codedFolders 9223372036854775809 9223372036854775808).Carries ⟨1⟩ Kind.folder "code"
      ⟨"Folder", 2⟩ n ∧
    ((Scope.within ⟨1⟩).findSorted (T := model) Kind.folder "code" true none
      (codedFolders 9223372036854775809 9223372036854775808)).1 =
        some [folderHandle 0 1, folderHandle 1 2] := by
  rcases carries_codedFolders 9223372036854775809 9223372036854775808 with ⟨hfirst, hsecond⟩
  exact ⟨.ofUInt64 9223372036854775809, .ofUInt64 9223372036854775808, by decide,
    run_codedFolders _ _, hfirst, hsecond, by decide +kernel⟩

end Codes

end Session

end Reconcile
