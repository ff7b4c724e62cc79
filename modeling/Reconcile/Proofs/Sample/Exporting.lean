import Reconcile.Proofs.Sample.Codec
import Reconcile.Proofs.Session.Exporting
import Reconcile.Sample.Schema

/-!
# Exports of the sample model

The payloads of the sample model hold no doubles and nest three deep at most, so the text of an
export means the rows that were exported.  Values without a fixed shape are the exception: they hold
what the schema lets pass, which is scalars as long as it describes no relationship of theirs.
-/

namespace Reconcile

/-! ## Payloads of attributes -/

namespace Attribute

theorem exact_of_check {a : Attribute} {value : Json} (h : a.check value = .ok ()) (budget : Nat) :
    value.Exact budget := by
  unfold check at h
  split at h
  · next hscalar =>
    rcases a with ⟨_, scalar, _⟩
    cases value with
    | number n =>
      cases n with
      | int n => trivial
      | double x => cases scalar <;> cases hscalar
    | array items => cases scalar <;> cases hscalar
    | object fields => cases scalar <;> cases hscalar
    | _ => trivial
  · cases h

end Attribute

namespace Description

variable {d : Description}

/-- Without relationships, what passes the check is an object of scalars. -/
theorem exact_of_checkFields (hd : d.relationships = []) {fields : List (String × Json)}
    (h : d.checkFields fields = .ok ()) (budget : Nat) :
    ∀ field ∈ fields, field.2.Exact budget := by
  induction fields with
  | nil => exact fun _ hfield => absurd hfield List.not_mem_nil
  | cons field rest ih =>
    rcases field with ⟨name, value⟩
    rcases Outcome.bind_eq_ok.1 h with ⟨_, hfirst, hrest⟩
    intro other hother
    rcases List.mem_cons.1 hother with rfl | hlater
    · unfold checkField at hfirst
      cases hattribute : d.attribute? name with
      | some a =>
        rw [hattribute] at hfirst
        exact Attribute.exact_of_check hfirst budget
      | none =>
        rw [hattribute, relationship?, hd] at hfirst
        cases hfirst
    · exact ih hrest other hlater

theorem exact_of_check (hd : d.relationships = []) {fields : List (String × Json)}
    (hsorted : Entries.Sorted fields) (h : d.check (.object fields) = .ok ()) (budget : Nat) :
    Json.Exact (budget + 1) (.object fields) := by
  rcases Outcome.bind_eq_ok.1 h with ⟨_, hfields, _⟩
  exact Json.exact_object hsorted (exact_of_checkFields hd hfields budget)

end Description

/-! ## Payloads of relationships -/

section Relationships

variable {K : Type} {k : K} {budget : Nat}

@[simp]
theorem EntityId.exact_toJson (id : EntityId) : id.toJson.Exact (budget + 1) :=
  Json.exact_ofFields (by simp)

theorem EntityId.exact_ids (ids : List EntityId) :
    Json.Exact (budget + 2) (.array (ids.map EntityId.toJson)) := by
  refine Json.exact_array ?_
  intro item hitem
  rcases List.mem_map.1 hitem with ⟨id, _, rfl⟩
  exact id.exact_toJson

@[simp]
theorem ToOne.exact_toJson (r : ToOne k) : r.toJson.Exact (budget + 1) := r.id.exact_toJson

@[simp]
theorem MemberSet.exact_toJson (r : MemberSet k) : r.toJson.Exact (budget + 2) :=
  EntityId.exact_ids r.ids

@[simp]
theorem MemberList.exact_toJson (r : MemberList k) : r.toJson.Exact (budget + 2) :=
  EntityId.exact_ids r.ids

end Relationships

namespace Sample

/-! ## Payloads of the model -/

theorem exact_encode {k : Kind} (hk : k ≠ .loose) {v : Value k} {payload : Json}
    (h : v.encode = .ok payload) (budget : Nat) : payload.Exact (budget + 3) := by
  cases k with
  | loose => exact absurd rfl hk
  | brittle =>
    have hwritten : Brittle.toJson v = .ok payload := h
    unfold Brittle.toJson at hwritten
    split at hwritten
    · cases hwritten
    · cases hwritten
      exact Json.exact_ofFields (by simp)
  | _ =>
    cases h
    exact Json.exact_ofFields (by simp)

/-! ## Stores of the model -/

open Session

variable {s : Session model} {i : StoreId} {store : Store}

/-- Values without a fixed shape hold nothing that a text would not bring back: the schema gives
them no relationships, or what they hold there has no doubles and nests no deeper than a text may. -/
def LooseExact (store : Store) : Prop :=
  (∀ d, store.schema.description? "Loose" = some d → d.relationships = []) ∨
    ∀ key row, store.rows.row? ⟨"Loose", key⟩ = some row →
      row.payload.Exact Snapshot.payloadBudget

theorem exact_snapshot (hrun : Run Deed.Native .empty s) (hstore : s.store? i = some store)
    (hvalidate : store.settings.validateOnSave = true)
    (hloose : LooseExact store) : store.snapshot.Exact := by
  have hs : Sound s := hrun.sound sound_empty
  intro entity table htable
  rintro ⟨key, row⟩ hmem
  have htable : store.rows.get? entity = some table := SortedMap.mem_toList_iff.1 htable
  have hrow : store.rows.row? ⟨entity, key⟩ = some row := by
    rw [Rows.row?, htable]
    exact SortedMap.mem_toList_iff.1 hmem
  rcases hrun.rowsWritten i store _ row hstore hrow with ⟨k, v, hname, hencode⟩
  by_cases hk : k = Kind.loose
  · subst hk
    have hentity : entity = "Loose" := hname.symm
    subst hentity
    rcases hloose with hloose | hexact
    case inr => exact hexact key row hrow
    rcases hrun.checked hstore hvalidate _ row hrow with ⟨d, hd, hcheck⟩
    have hdescription : store.schema.description? "Loose" = some d := by
      unfold Schema.require at hd
      cases hdescribed : store.schema.description? "Loose" with
      | none =>
        rw [hdescribed] at hd
        cases hd
      | some d' =>
        rw [hdescribed] at hd
        exact congrArg some (Except.ok.inj hd)
    have hpayload : Json.ofFields [("key", v.key), ("rank", v.rank), ("extra", v.extra)] =
        row.payload := Except.ok.inj hencode
    rw [← hpayload] at hcheck ⊢
    exact Description.exact_of_check (hloose d hdescription) (Entries.sorted_ofList _) hcheck 122
  · exact exact_encode hk hencode 120

/-- Without imports, a store that checks payloads can be moved to any store of the same schema, and
back, by the text of its export. -/
theorem portable_store (hrun : Run Deed.Native .empty s) (hkeys : s.KeysLeft)
    (hstore : s.store? i = some store) (hvalidate : store.settings.validateOnSave = true)
    (hloose : LooseExact store) : s.Portable i store :=
  portable_of_exact (hrun.mono fun _ _ => trivial) hkeys hstore hvalidate
    (exact_snapshot hrun hstore hvalidate hloose)

/-- The store that has the red tag moves to a new store of the blog. -/
theorem portable_redSaved : ∃ store : Store, redSaved.store? ⟨0⟩ = some store ∧
    store.rows.count = 1 ∧ redSaved.Portable ⟨0⟩ store ∧
    ∃ a', (StoreId.restore (T := model) ⟨0⟩ store.snapshot).outcome bothOpen = (.ok (), a') ∧
      (a'.store? ⟨0⟩).map Store.rows = some store.rows := by
  rcases tracked_redSaved with ⟨L, htracked⟩
  have hstore : redSaved.store? ⟨0⟩ =
      some ⟨blogSchema, .default, 2, redSaved.rowsOf ⟨1⟩⟩ := rfl
  have hportable := portable_store htracked.run (by decide +kernel) hstore rfl
    (Or.inl (by decide +kernel))
  refine ⟨_, hstore, by decide +kernel, hportable, ?_⟩
  rcases hportable.taken bothOpen ⟨0⟩ (Store.new blogSchema .default) rfl rfl with
    ⟨a', hrestore, htaken, _, _⟩
  refine ⟨a', hrestore, ?_⟩
  rw [htaken]
  rfl

end Sample

end Reconcile
