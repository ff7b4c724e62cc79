import Reconcile.Proofs.Relation.Representing
import Reconcile.Proofs.Sample.Brackets

/-!
# What a pass reports

Synchronizing a relationship ends with a report of how many plain values it was asked for and how
many members it came to, which warns if there are fewer.  A list has a member for each plain value
that was resolved to an entity, so its report is accurate (`Event.Accurate`).  A set has one for
each entity, so it is accurate exactly if no two plain values were resolved to the same.
-/

namespace Reconcile

open Session

variable {T : Model} {k : T.Kind} {α β : Type} {s : Session T}

/-! ## Outcomes -/

/-- What each step finds, in turn. -/
def outcomesOf : (ps : List α) → ((p : α) → p ∈ ps → Work T (Option β)) → Work T (List (Option β))
  | [], _ => return []
  | p :: rest, step => do
    let found ← step p List.mem_cons_self
    let others ← outcomesOf rest fun q hq => step q (List.mem_cons_of_mem _ hq)
    return found :: others

theorem outcomesOf_eq_mapM (ps : List α) (f : α → Work T (Option β)) :
    outcomesOf ps (fun p _ => f p) = ps.mapM f := by
  induction ps with
  | nil => rfl
  | cons p rest ih => rw [outcomesOf, ih, List.mapM_cons]

theorem length_outcomesOf (ps : List α) (step : (p : α) → p ∈ ps → Work T (Option β))
    (s : Session T) : (outcomesOf ps step s).1.length = ps.length := by
  induction ps generalizing s with
  | nil => rfl
  | cons p rest ih => exact congrArg (· + 1) (ih _ _)

/-- What is kept of the outcomes are the entities that were found. -/
theorem resolveEach_eq (ps : List α) (step : (p : α) → p ∈ ps → Work T (Option β))
    (s : Session T) :
    resolveEach ps step s = ((outcomesOf ps step s).1.reduceOption, (outcomesOf ps step s).2) := by
  induction ps generalizing s with
  | nil => rfl
  | cons p rest ih =>
    rw [resolveEach, outcomesOf, Work.bind_apply, Work.bind_apply, Work.bind_apply, ih,
      Work.bind_apply]
    cases (step p List.mem_cons_self s).1 <;> rfl

/-! ## Reports -/

namespace Event

variable {shape : Shape} {entity : String} {requested resolved : Nat}
  {outcomes : List (Option β)} {event : Event}

/-- The report says that some plain values were not resolved. -/
def Warns (event : Event) (shape : Shape) : Prop :=
  event.level = .warn ∧ event.message = shape.word ++ " synchronized with unresolved entries"

/-- The report says that all went well. -/
def Notes (event : Event) (shape : Shape) : Prop :=
  event.level = .debug ∧ event.message = shape.word ++ " synchronized"

theorem not_warns_of_notes (h : event.Notes shape) : ¬ event.Warns shape := by
  intro hwarns
  cases h.1.symm.trans hwarns.1

theorem warns_of_lt (h : resolved < requested) :
    (reconciled shape entity requested resolved).Warns shape := by
  constructor
  · rw [level, if_pos h]
  · rw [message, if_pos h, String.append_assoc]
    rfl

theorem notes_of_le (h : requested ≤ resolved) :
    (reconciled shape entity requested resolved).Notes shape := by
  constructor
  · rw [level, if_neg (Nat.not_lt.2 h)]
  · rw [message, if_neg (Nat.not_lt.2 h), String.append_empty]

theorem warns_iff : (reconciled shape entity requested resolved).Warns shape ↔
    resolved < requested := by
  constructor
  · intro hwarns
    by_contra hle
    exact not_warns_of_notes (notes_of_le (Nat.not_lt.1 hle)) hwarns
  · exact warns_of_lt

theorem notes_iff : (reconciled shape entity requested resolved).Notes shape ↔
    ¬ resolved < requested := by
  constructor
  · exact fun hnotes hlt => not_warns_of_notes hnotes (warns_of_lt hlt)
  · exact fun hle => notes_of_le (Nat.not_lt.1 hle)

/-- The report of a pass with these outcomes counts the plain values that were resolved, and warns
exactly if some were not. -/
structure Accurate (event : Event) (shape : Shape) (entity : String)
    (outcomes : List (Option β)) : Prop where
  fields : event.fields = [("entity", .text entity), ("requested", .count outcomes.length),
    ("resolved", .count outcomes.reduceOption.length)]
  warns : event.Warns shape ↔ none ∈ outcomes
  notes : event.Notes shape ↔ none ∉ outcomes

/-- A count of the resolved plain values is all it takes. -/
theorem accurate_iff : (reconciled shape entity outcomes.length resolved).Accurate shape entity
    outcomes ↔ resolved = outcomes.reduceOption.length := by
  constructor
  · intro haccurate
    simpa [Event.fields] using haccurate.fields
  · rintro rfl
    refine ⟨rfl, ?_, ?_⟩
    · rw [warns_iff, List.reduceOption_length_lt_iff]
    · rw [notes_iff, List.reduceOption_length_lt_iff]

end Event

/-! ## Building -/

section Building

variable {ps : List α} {step : (p : α) → p ∈ ps → Work T (Option (Handle k))}

theorem MemberList.build_eq (ps : List α) (step : (p : α) → p ∈ ps → Work T (Option (Handle k)))
    (s : Session T) : MemberList.build ps step s =
      (MemberList.ofHandles (outcomesOf ps step s).1.reduceOption,
        (outcomesOf ps step s).2.report (.reconciled .list (T.entityName k)
          (outcomesOf ps step s).1.length (outcomesOf ps step s).1.reduceOption.length)) := by
  have hlength : ∀ hs : List (Handle k), (MemberList.ofHandles hs).length = hs.length :=
    fun _ => List.length_map _
  rw [build, Work.bind_apply, resolveEach_eq, length_outcomesOf, ← hlength]
  rfl

/-- A set has a member for each entity. -/
theorem MemberSet.build_eq (ps : List α) (step : (p : α) → p ∈ ps → Work T (Option (Handle k)))
    (s : Session T) : MemberSet.build ps step s =
      (MemberSet.ofHandles (outcomesOf ps step s).1.reduceOption,
        (outcomesOf ps step s).2.report (.reconciled .set (T.entityName k)
          (outcomesOf ps step s).1.length
          ((outcomesOf ps step s).1.reduceOption.map Handle.id).toFinset.card)) := by
  rw [build, Work.bind_apply, resolveEach_eq, length_outcomesOf, ← MemberSet.idSet_ofHandles,
    ← MemberSet.size_eq_card]
  rfl

end Building

/-- Different ids are counted one by one, others less than that. -/
theorem card_ids_eq_iff {hs : List (Handle k)} :
    (hs.map Handle.id).toFinset.card = hs.length ↔ (hs.map Handle.id).Nodup := by
  have hlength : (hs.map Handle.id).length = hs.length := List.length_map _
  rw [← hlength]
  exact Multiset.toFinset_card_eq_card_iff_nodup

/-- A set reports fewer members than plain values if one was not resolved or two were resolved to
one entity. -/
theorem card_ids_lt_iff {outcomes : List (Option (Handle k))} :
    (outcomes.reduceOption.map Handle.id).toFinset.card < outcomes.length ↔
      none ∈ outcomes ∨ ¬ (outcomes.reduceOption.map Handle.id).Nodup := by
  have hcard : (outcomes.reduceOption.map Handle.id).toFinset.card ≤
      outcomes.reduceOption.length := by
    refine (List.toFinset_card_le _).trans ?_
    rw [List.length_map]
  have hlength := List.reduceOption_length_le outcomes
  rw [← List.reduceOption_length_lt_iff, ← card_ids_eq_iff]
  omega

namespace Mapping

/-- Synchronizing reports accurately how many of the plain values were resolved to entities, a set
however only where these are different: one that comes up twice counts as not resolved. -/
theorem synchronize_reports (M : Mapping T) (scope : Scope) (ps : List (M.Plain k))
    (hook : Hook T k) (s : Session T) : ∃ outcomes s₁,
    (ps.mapM fun p => M.reconcile scope p hook) s = (outcomes, s₁) ∧
      outcomes.length = ps.length ∧
    (∃ event, M.syncList scope ps hook s =
        (MemberList.ofHandles outcomes.reduceOption, s₁.report event) ∧
      event.Accurate .list (T.entityName k) outcomes) ∧
    ∃ event, M.syncSet scope ps hook s =
        (MemberSet.ofHandles outcomes.reduceOption, s₁.report event) ∧
      (event.Accurate .set (T.entityName k) outcomes ↔
        (outcomes.reduceOption.map Handle.id).Nodup) ∧
      event.fields = [("entity", .text (T.entityName k)), ("requested", .count ps.length),
        ("resolved", .count (outcomes.reduceOption.map Handle.id).toFinset.card)] ∧
      (event.Warns .set ↔ none ∈ outcomes ∨ ¬ (outcomes.reduceOption.map Handle.id).Nodup) ∧
      (event.Notes .set ↔
        ¬ (none ∈ outcomes ∨ ¬ (outcomes.reduceOption.map Handle.id).Nodup)) := by
  have hlength := length_outcomesOf ps (fun p _ => M.reconcile scope p hook) s
  refine ⟨_, _, (congrFun (outcomesOf_eq_mapM ps _) s).symm, hlength,
    ⟨_, MemberList.build_eq ps _ s, ?_⟩, ⟨_, MemberSet.build_eq ps _ s, ?_, ?_, ?_, ?_⟩⟩
  · exact Event.accurate_iff.2 rfl
  · rw [Event.accurate_iff, card_ids_eq_iff]
  · rw [Event.fields, hlength]
  · rw [Event.warns_iff, card_ids_lt_iff]
  · rw [Event.notes_iff, card_ids_lt_iff]

section Red

open Sample

/-- The tag twice. -/
def redAgain : List (mapping.Plain Kind.tag) :=
  [(⟨"red", none⟩ : TagPlain), (⟨"red", none⟩ : TagPlain)]

/-- The tag is resolved both times, and the set of it warns of unresolved entries. -/
theorem set_warns_of_red : ∃ (red : Handle Kind.tag) (s₁ : Session model) (event : Event),
    (redAgain.mapM fun p => mapping.reconcile (.within ⟨1⟩) p pure) nodesOpen =
      ([some red, some red], s₁) ∧
    (mapping.syncSet (.within ⟨1⟩) redAgain pure nodesOpen).2 = s₁.report event ∧
    event.Warns .set ∧ ¬ event.Accurate .set "Tag" [some red, some red] := by
  let red : Handle Kind.tag := ⟨0, ⟨"Tag", 1⟩, ⟨1⟩⟩
  have houtcomes : ((redAgain.mapM fun p => mapping.reconcile (.within ⟨1⟩) p pure)
      nodesOpen).1 = [some red, some red] := by decide +kernel
  -- the set has one member for the two outcomes
  have hbuild := MemberSet.build_eq redAgain
    (fun p _ => mapping.reconcile (.within ⟨1⟩) p pure) nodesOpen
  rw [outcomesOf_eq_mapM, houtcomes] at hbuild
  have hwarns : (Event.reconciled .set "Tag" 2 1).Warns .set := Event.warns_of_lt (by decide)
  refine ⟨red, _, .reconciled .set "Tag" 2 1, Prod.ext houtcomes rfl, congrArg Prod.snd hbuild,
    hwarns, ?_⟩
  intro haccurate
  have hnone := haccurate.warns.1 hwarns
  simp at hnone

end Red

end Mapping

end Reconcile
