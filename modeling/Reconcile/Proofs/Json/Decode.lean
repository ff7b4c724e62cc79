import Mathlib.Data.List.Basic
import Mathlib.Data.List.Nodup
import Reconcile.Proofs.Data.SortedMap
import Reconcile.EntityId

/-!
# Reading back what was written

The readers of `Json` on the values that the writers make: members of an object with named fields,
fields that may be absent, lists, and ids.
-/

namespace Reconcile

namespace Entries

variable {α β : Type} [Ord α]

/-- Building a sorted form keeps every entry, if no key is repeated. -/
theorem find?_ofList [Std.LawfulEqOrd α] {entries : List (α × β)}
    (hnodup : (entries.map (·.1)).Nodup)
    {key : α} {value : β} (h : (key, value) ∈ entries) :
    find? key (ofList entries) = some value := by
  -- along the fold the entry is still to come, or it is in and its key does not come again
  have hfold : ∀ (rest acc : List (α × β)), (rest.map (·.1)).Nodup →
      ((key, value) ∈ rest ∨ key ∉ rest.map (·.1) ∧ find? key acc = some value) →
      find? key (rest.foldl (fun acc e => insert e.1 e.2 acc) acc) = some value := by
    intro rest
    induction rest with
    | nil =>
      intro acc _ hin
      rcases hin with hmem | ⟨_, hacc⟩
      · cases hmem
      · exact hacc
    | cons e rest ih =>
      intro acc hnodup hin
      rw [List.map_cons, List.nodup_cons] at hnodup
      refine ih _ hnodup.2 ?_
      rcases hin with hmem | ⟨hnot, hacc⟩
      · rcases List.mem_cons.1 hmem with rfl | hrest
        · exact Or.inr ⟨hnodup.1, find?_insert_self key value acc⟩
        · exact Or.inl hrest
      · rw [List.map_cons, List.mem_cons, not_or] at hnot
        refine Or.inr ⟨hnot.2, ?_⟩
        rw [find?_insert_of_ne hnot.1, hacc]
  exact hfold entries [] hnodup (Or.inl h)

theorem mem_ofList {entries : List (α × β)} {e : α × β} (h : e ∈ ofList entries) :
    e ∈ entries := by
  have step : ∀ es acc : List (α × β),
      e ∈ es.foldl (fun acc e => insert e.1 e.2 acc) acc → e ∈ acc ∨ e ∈ es := by
    intro es
    induction es with
    | nil => exact fun acc hacc => Or.inl hacc
    | cons head rest ih =>
      intro acc hfold
      rcases ih _ hfold with hinserted | hrest
      · rcases mem_insert hinserted with rfl | hacc
        · exact Or.inr List.mem_cons_self
        · exact Or.inl hacc
      · exact Or.inr (List.mem_cons_of_mem _ hrest)
  exact (step entries [] h).resolve_left List.not_mem_nil

/-- A sorted list is its own sorted form. -/
theorem ofList_of_sorted [Std.TransOrd α] {entries : List (α × β)} (h : Sorted entries) :
    ofList entries = entries := by
  have hfold : ∀ (rest acc : List (α × β)), Sorted (acc ++ rest) →
      rest.foldl (fun acc e => insert e.1 e.2 acc) acc = acc ++ rest := by
    intro rest
    induction rest with
    | nil => exact fun acc _ => (List.append_nil acc).symm
    | cons e rest ih =>
      intro acc hsorted
      have hlt : ∀ a ∈ acc, compare a.1 e.1 = .lt := by
        intro a ha
        exact (List.pairwise_append.1 hsorted).2.2 a ha e List.mem_cons_self
      rw [List.foldl_cons, insert_of_lt hlt, ih _ (by simpa using hsorted)]
      simp
  exact hfold entries [] h

/-- A key that is put in again keeps its place. -/
theorem insert_ofList_cons [Std.TransOrd α] [Std.LawfulEqOrd α] {key : α} (old value : β)
    {rest : List (α × β)}
    (hkey : key ∉ rest.map (·.1)) :
    insert key value (ofList ((key, old) :: rest)) = ofList ((key, value) :: rest) := by
  -- the two folds put in the same entries, so it is enough to compare what keys find
  have hfold : ∀ acc acc' : List (α × β), Sorted acc → Sorted acc' →
      (∀ k, find? k (insert key value acc) = find? k acc') →
      insert key value (rest.foldl (fun acc e => insert e.1 e.2 acc) acc) =
        rest.foldl (fun acc e => insert e.1 e.2 acc) acc' := by
    induction rest with
    | nil =>
      intro acc acc' hacc hacc' hfind
      exact ext (sorted_insert hacc) hacc' hfind
    | cons e rest ih =>
      intro acc acc' hacc hacc' hfind
      rw [List.map_cons, List.mem_cons, not_or] at hkey
      refine ih hkey.2 _ _ (sorted_insert hacc) (sorted_insert hacc') ?_
      intro k
      by_cases hk : k = key
      · subst hk
        rw [find?_insert_self, find?_insert_of_ne hkey.1, ← hfind, find?_insert_self]
      · rw [find?_insert_of_ne hk]
        by_cases he : k = e.1
        · subst he
          rw [find?_insert_self, find?_insert_self]
        · rw [find?_insert_of_ne he, find?_insert_of_ne he, ← hfind, find?_insert_of_ne hk]
  refine hfold _ _ (sorted_insert List.Pairwise.nil) (sorted_insert List.Pairwise.nil) ?_
  intro k
  by_cases hk : k = key
  · subst hk
    rw [find?_insert_self, find?_insert_self]
  · rw [find?_insert_of_ne hk, find?_insert_of_ne hk, find?_insert_of_ne hk]

end Entries

namespace Json

variable {α : Type}

theorem field?_ofFields {fields : List (String × Json)} (hnodup : (fields.map (·.1)).Nodup)
    {key : String} {value : Json} (h : (key, value) ∈ fields) :
    (ofFields fields).field? key = some value :=
  Entries.find?_ofList hnodup h

theorem valueAt_ofFields {fields : List (String × Json)} (hnodup : (fields.map (·.1)).Nodup)
    {key : String} {value : Json} (h : (key, value) ∈ fields) :
    (ofFields fields).valueAt key = value := by
  rw [valueAt, field?_ofFields hnodup h]
  rfl

theorem withField_ofFields {key : String} (old value : Json) {rest : List (String × Json)}
    (hkey : key ∉ rest.map (·.1)) :
    (ofFields ((key, old) :: rest)).withField key value =
      .ofFields ((key, value) :: rest) :=
  congrArg object (Entries.insert_ofList_cons old value hkey)

theorem members?_ofFields {fields : List (String × Json)} (hnodup : (fields.map (·.1)).Nodup) :
    (ofFields fields).members? (fields.map (·.1)) = some (fields.map fun f => some f.2) := by
  have hread : (ofFields fields).members? (fields.map (·.1)) =
      some ((fields.map (·.1)).map fun name => Entries.find? name (Entries.ofList fields)) := rfl
  rw [hread, List.map_map]
  refine congrArg some (List.map_congr_left ?_)
  intro f hf
  exact Entries.find?_ofList hnodup hf

/-- A field that is read back up to `f`. -/
theorem optional?_ofOption_map {encode : α → Json} {read : Json → Option α} {f : α → α}
    (hread : ∀ a, read (encode a) = some (f a)) (hnull : ∀ a, (encode a).isNull = false)
    (o : Option α) : optional? read (some (ofOption encode o)) = some (o.map f) := by
  cases o with
  | none => rfl
  | some a =>
    have hpresent : optional? read (some (encode a)) = (read (encode a)).map some := by
      cases h : encode a with
      | null =>
        have hfalse := hnull a
        rw [h] at hfalse
        cases hfalse
      | _ => rfl
    rw [ofOption, hpresent, hread]
    rfl

theorem optional?_ofOption {encode : α → Json} {read : Json → Option α}
    (hread : ∀ a, read (encode a) = some a) (hnull : ∀ a, (encode a).isNull = false)
    (o : Option α) : optional? read (some (ofOption encode o)) = some o := by
  rw [optional?_ofOption_map (f := id) hread hnull, Option.map_id_fun]
  rfl

theorem ofOption_map {encode : α → Json} {f : α → α} (h : ∀ a, encode (f a) = encode a)
    (o : Option α) : ofOption encode (o.map f) = ofOption encode o := by
  cases o with
  | none => rfl
  | some a => exact h a

theorem optional?_string (o : Option String) :
    optional? string? (some (ofOption .string o)) = some o :=
  optional?_ofOption (α := String) (fun _ => rfl) (fun _ => rfl) o

theorem optional?_int64 (o : Option Int64) :
    optional? int64? (some (ofOption .ofInt64 o)) = some o :=
  optional?_ofOption WordInt.toInt64?_ofInt64 (fun _ => rfl) o

theorem optional?_uint64 (o : Option UInt64) :
    optional? uint64? (some (ofOption .ofUInt64 o)) = some o :=
  optional?_ofOption WordInt.toUInt64?_ofUInt64 (fun _ => rfl) o

theorem listOf?_map {encode : α → Json} {read : Json → Option α}
    (hread : ∀ a, read (encode a) = some a) (as : List α) :
    (Json.array (as.map encode)).listOf? read = some as := by
  have hitems : (Json.array (as.map encode)).listOf? read = (as.map encode).mapM read := rfl
  rw [hitems]
  induction as with
  | nil => rfl
  | cons a rest ih =>
    rw [List.map_cons, List.mapM_cons, hread, ih rfl]
    rfl

end Json

namespace EntityId

theorem ofJson?_toJson (id : EntityId) : ofJson? id.toJson = some id := by
  have hmembers : id.toJson.members? ["entity", "key"] =
      some [some (.string id.entity), some (.ofUInt64 id.key)] :=
    Json.members?_ofFields (by simp)
  rw [ofJson?, hmembers]
  have hkey : (Json.ofUInt64 id.key).uint64? = some id.key := WordInt.toUInt64?_ofUInt64 id.key
  simp [Json.string?, hkey]

end EntityId

end Reconcile
