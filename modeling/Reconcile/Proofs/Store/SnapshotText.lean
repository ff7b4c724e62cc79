import Reconcile.Proofs.Json.Reading
import Reconcile.Store.SnapshotText

/-!
# The text of a snapshot is read back

A snapshot whose payloads are `Json.Exact` is read back from its text as it was, with every row in
its place.
-/

namespace Reconcile

open Source (Spells SpellsName SpellsFields)

namespace Source

/-! ## Objects -/

section Members

variable {α β : Type} {key : α → List Char} {value : β → List Char} {entries : List (α × β)}

theorem spellsFields_memberChars (units : α → List TextUnit) (source : β → Source)
    (h : ∀ e ∈ entries, SpellsName (key e.1) (units e.1) ∧ Spells (value e.2) (source e.2)) :
    entries = [] ∨ SpellsFields (Snapshot.memberChars key value entries)
      (entries.map fun e => (units e.1, source e.2)) := by
  induction entries with
  | nil => exact Or.inl rfl
  | cons e rest ih =>
    rcases h e List.mem_cons_self with ⟨hname, hvalue⟩
    have hrest := ih fun e' he' => h e' (List.mem_cons_of_mem _ he')
    cases rest with
    | nil => exact Or.inr (.last hname hvalue)
    | cons next rest =>
      exact Or.inr (.cons hname hvalue (hrest.resolve_left (List.cons_ne_nil _ _)))

/-- The members of an object, listed. -/
theorem spells_memberChars (units : α → List TextUnit) (source : β → Source)
    (h : ∀ e ∈ entries, SpellsName (key e.1) (units e.1) ∧ Spells (value e.2) (source e.2)) :
    Spells ('\x7b' :: (Snapshot.memberChars key value entries ++ ['\x7d']))
      (.object (entries.map fun e => (units e.1, source e.2))) := by
  rcases spellsFields_memberChars units source h with rfl | hfields
  · exact spells_nil_object
  · exact hfields.object

end Members

/-- A list is read item by item. -/
theorem mapM_map {α β γ : Type} {f : β → Option γ} {g : α → β} (target : α → γ) {l : List α}
    (h : ∀ a ∈ l, f (g a) = some (target a)) : (l.map g).mapM f = some (l.map target) := by
  induction l with
  | nil => rfl
  | cons a rest ih =>
    rw [List.map_cons, List.mapM_cons, h a List.mem_cons_self,
      ih fun a' ha' => h a' (List.mem_cons_of_mem _ ha')]
    rfl

/-! ## Structures -/

/-- A field of a structure: its name, the text of its value and what that is read as. -/
structure Part where
  name : String
  chars : List Char
  source : Source

/-- The text of a structure. -/
def partChars (parts : List Part) : List Char :=
  '\x7b' :: (Snapshot.memberChars Json.quoted Part.chars (parts.map fun p => (p.name, p))
    ++ ['\x7d'])

/-- What the text of a structure is read as. -/
def ofParts (parts : List Part) : Source :=
  .object (parts.map fun p => (TextUnit.ofString p.name, p.source))

theorem spells_partChars {parts : List Part} (h : ∀ p ∈ parts, Spells p.chars p.source) :
    Spells (partChars parts) (ofParts parts) := by
  have hentries : ∀ e ∈ parts.map fun p => (p.name, p),
      SpellsName (Json.quoted e.1) (TextUnit.ofString e.1) ∧ Spells e.2.chars e.2.source := by
    intro e he
    rcases List.mem_map.1 he with ⟨p, hp, rfl⟩
    exact ⟨spellsName_quoted p.name, h p hp⟩
  have hspells := spells_memberChars TextUnit.ofString Part.source hentries
  rwa [List.map_map] at hspells

theorem namedFields?_ofParts (parts : List Part) :
    namedFields? (parts.map fun p => (TextUnit.ofString p.name, p.source)) =
      some (parts.map fun p => (p.name, p.source)) := by
  refine mapM_map _ ?_
  intro p _
  show (TextUnit.decodeString (TextUnit.ofString p.name)).map (·, p.source) = _
  rw [TextUnit.decodeString_ofString]
  rfl

theorem valuesOf_of_nodup {parts : List Part} (h : (parts.map Part.name).Nodup) {p : Part}
    (hp : p ∈ parts) : valuesOf p.name (parts.map fun p => (p.name, p.source)) = [p.source] := by
  induction parts with
  | nil => cases hp
  | cons head rest ih =>
    rcases List.nodup_cons.1 h with ⟨hhead, hrest⟩
    rw [valuesOf, List.map_cons, List.filter_cons]
    rcases List.mem_cons.1 hp with rfl | htail
    · have hnone : (rest.map fun q => (q.name, q.source)).filter (·.1 == p.name) = [] := by
        refine List.filter_eq_nil_iff.2 ?_
        intro e he hsame
        rcases List.mem_map.1 he with ⟨q, hq, rfl⟩
        exact hhead (beq_iff_eq.1 hsame ▸ List.mem_map_of_mem hq)
      rw [if_pos (beq_self_eq_true p.name), hnone]
      rfl
    · have hne : ¬ (head.name == p.name) = true := by
        intro hsame
        exact hhead (beq_iff_eq.1 hsame ▸ List.mem_map_of_mem htail)
      rw [if_neg hne]
      exact ih hrest htail

/-- A structure is read off an object that has its fields and no others. -/
theorem fields?_ofParts {parts : List Part} (h : (parts.map Part.name).Nodup) :
    (ofParts parts).fields? (parts.map Part.name) = some (parts.map Part.source) := by
  show (namedFields? _).bind _ = _
  rw [namedFields?_ofParts, Option.bind_some]
  refine mapM_map _ ?_
  intro p hp
  rw [valuesOf_of_nodup h hp]

/-! ## Numbers of a word -/

def ofNat (n : Nat) : Source := .number (.ofInt n)

theorem spells_digitChars (n : Nat) : Spells (Decimal.digitChars n) (ofNat n) :=
  spells_intChars n

theorem uint64?_ofNat (n : UInt64) : (ofNat n.toNat).uint64? = some n := by
  have hnumber := Numeral.toNumber?_ofInt (.ofUInt64 n)
  show ((Numeral.ofInt (WordInt.ofUInt64 n).val).toNumber?.map Json.number).bind Json.uint64? = _
  rw [hnumber]
  exact WordInt.toUInt64?_ofUInt64 n

theorem val_ofUInt32 (n : UInt32) : (WordInt.ofUInt32 n).val = n.toNat := by
  simp [WordInt.ofUInt32, WordInt.ofUInt64]

theorem toUInt32?_ofUInt32 (n : UInt32) : (WordInt.ofUInt32 n).toUInt32? = some n := by
  have hbound : (n.toNat : Int) < UInt32.size := Int.ofNat_lt.2 n.toNat_lt_size
  unfold WordInt.toUInt32?
  rw [val_ofUInt32, if_pos ⟨Int.natCast_nonneg _, hbound⟩, Int.toNat_natCast, UInt32.ofNat_toNat]

theorem uint32?_ofNat (n : UInt32) : (ofNat n.toNat).uint32? = some n := by
  rw [ofNat, ← val_ofUInt32, uint32?, Numeral.toNumber?_ofInt, Option.map_some, Option.bind_some,
    Json.uint32?, Json.wordInt?, Option.bind_some, toUInt32?_ofUInt32]

end Source

/-! ## Rows -/

namespace EntityId

def parts (id : EntityId) : List Source.Part :=
  [⟨"entity", Json.quoted id.entity, .string (TextUnit.ofString id.entity)⟩,
    ⟨"key", Decimal.digitChars id.key.toNat, .ofNat id.key.toNat⟩]

theorem chars_eq (id : EntityId) : id.chars = Source.partChars id.parts := by
  have hentity : "\"entity\":".toList = Json.quoted "entity" ++ [':'] := by decide
  have hkey : ",\"key\":".toList = ',' :: (Json.quoted "key" ++ [':']) := by decide
  simp only [chars, Source.partChars, parts, Snapshot.memberChars, hentity, hkey, List.map_cons,
    List.map_nil, List.append_assoc, List.cons_append, List.nil_append]

theorem spells_chars (id : EntityId) : Spells id.chars (.ofParts id.parts) := by
  rw [chars_eq]
  refine Source.spells_partChars ?_
  intro p hp
  rw [parts, List.mem_cons, List.mem_singleton] at hp
  rcases hp with rfl | rfl
  · exact Source.spells_quoted id.entity
  · exact Source.spells_digitChars id.key.toNat

theorem ofSource?_ofParts (id : EntityId) : ofSource? (.ofParts id.parts) = some id := by
  have hnames : (id.parts.map Source.Part.name).Nodup := by
    show ["entity", "key"].Nodup
    decide
  have hfields : (Source.ofParts id.parts).fields? ["entity", "key"] =
      some [.string (TextUnit.ofString id.entity), .ofNat id.key.toNat] :=
    Source.fields?_ofParts hnames
  rw [ofSource?, hfields]
  simp [Source.string?, TextUnit.decodeString_ofString, Source.uint64?_ofNat]

end EntityId

namespace Row

variable {row : Row}

def parts (row : Row) : List Source.Part :=
  [⟨"id", row.id.chars, .ofParts row.id.parts⟩,
    ⟨"version", Decimal.digitChars row.version.toNat, .ofNat row.version.toNat⟩,
    ⟨"payload", row.payload.chars, row.payload.source⟩]

theorem chars_eq (row : Row) : row.chars = Source.partChars row.parts := by
  have hid : "\"id\":".toList = Json.quoted "id" ++ [':'] := by decide
  have hversion : ",\"version\":".toList = ',' :: (Json.quoted "version" ++ [':']) := by decide
  have hpayload : ",\"payload\":".toList = ',' :: (Json.quoted "payload" ++ [':']) := by decide
  simp only [chars, Source.partChars, parts, Snapshot.memberChars, hid, hversion, hpayload,
    List.map_cons, List.map_nil, List.append_assoc, List.cons_append, List.nil_append]

theorem spells_chars {budget : Nat} (h : row.payload.Exact budget) :
    Spells row.chars (.ofParts row.parts) := by
  rw [chars_eq]
  refine Source.spells_partChars ?_
  intro p hp
  rw [parts, List.mem_cons, List.mem_cons, List.mem_singleton] at hp
  rcases hp with rfl | rfl | rfl
  · exact row.id.spells_chars
  · exact Source.spells_digitChars row.version.toNat
  · exact Json.spells_chars row.payload h

theorem ofSource?_ofParts {budget : Nat} (h : row.payload.Exact budget) :
    ofSource? budget (.ofParts row.parts) = some row := by
  have hnames : (row.parts.map Source.Part.name).Nodup := by
    show ["id", "version", "payload"].Nodup
    decide
  have hfields : (Source.ofParts row.parts).fields? ["id", "version", "payload"] =
      some [.ofParts row.id.parts, .ofNat row.version.toNat, row.payload.source] :=
    Source.fields?_ofParts hnames
  rw [ofSource?, hfields]
  simp [EntityId.ofSource?_ofParts, Source.uint64?_ofNat, Json.toJson?_source row.payload h]

end Row

/-! ## Tables -/

namespace Snapshot

/-- What the digits of a row's key are read as. -/
def keyUnits (key : UInt64) : List TextUnit :=
  (Decimal.digitChars key.toNat).map .plain

theorem readUnits?_digits (n : Nat) (rest : List Char) :
    Source.readUnits? (Decimal.digitChars n ++ '"' :: rest) =
      some ((Decimal.digitChars n).map .plain, rest) := by
  have hall : ∀ cs : List Char, (∀ c ∈ cs, c.isDigit = true) →
      Source.readUnits? (cs ++ '"' :: rest) = some (cs.map .plain, rest) := by
    intro cs
    induction cs with
    | nil => exact fun _ => rfl
    | cons c cs ih =>
      intro hdigits
      have hc : c.isDigit = true := hdigits c List.mem_cons_self
      have hstart : Source.StartsNumber c := Or.inr hc
      have hlow : ¬ c.toNat < 32 := by
        rw [Char.isDigit, Bool.and_eq_true, decide_eq_true_iff] at hc
        have hle : 48 ≤ c.toNat := UInt32.le_iff_toNat_le.1 hc.1
        omega
      exact Source.readUnits?_plain (hstart.ne (by decide) (by decide))
        (hstart.ne (by decide) (by decide)) hlow
        (ih fun c' hc' => hdigits c' (List.mem_cons_of_mem _ hc'))
  exact hall _ fun _ => Source.isDigit_of_mem_digitChars

theorem spellsName_rowKeyChars (key : UInt64) : SpellsName (rowKeyChars key) (keyUnits key) := by
  refine ⟨_, rfl, ?_⟩
  intro rest
  rw [List.append_assoc]
  exact readUnits?_digits key.toNat rest

theorem rowKey?_keyUnits (key : UInt64) : rowKey? (keyUnits key) = some key := by
  have hdigits : ∀ f : TextUnit → Option Char, (∀ c, c.isDigit = true → f (.plain c) = some c) →
      (keyUnits key).mapM f = some (Decimal.digitChars key.toNat) := by
    intro f hf
    refine (Source.mapM_map id ?_).trans (by rw [List.map_id])
    exact fun c hc => hf c (Source.isDigit_of_mem_digitChars hc)
  have hbound : key.toNat < UInt64.size := key.toNat_lt_size
  unfold rowKey?
  rw [hdigits _ fun c hc => if_pos hc, Option.bind_eq_bind, Option.bind_some]
  dsimp only
  rw [Source.digitsValue_digitChars, if_pos ⟨rfl, hbound⟩, UInt64.ofNat_toNat]

/-- What the text of a table is read as. -/
def tableSource (rows : SortedMap UInt64 Row) : Source :=
  .object (rows.toList.map fun e => (keyUnits e.1, .ofParts e.2.parts))

theorem spells_tableChars {rows : SortedMap UInt64 Row} {budget : Nat}
    (h : ∀ e ∈ rows.toList, e.2.payload.Exact budget) :
    Spells (tableChars rows) (tableSource rows) :=
  Source.spells_memberChars keyUnits (fun row : Row => .ofParts row.parts) fun e he =>
    ⟨spellsName_rowKeyChars e.1, Row.spells_chars (h e he)⟩

theorem ofList_toList {α β : Type} [Ord α] [Std.TransOrd α] [Std.LawfulEqOrd α]
    (m : SortedMap α β) : SortedMap.ofList m.toList = m :=
  SortedMap.ext (Entries.ofList_of_sorted m.sorted)

theorem tableOfSource?_tableSource {rows : SortedMap UInt64 Row}
    (h : ∀ e ∈ rows.toList, e.2.payload.Exact payloadBudget) :
    tableOfSource? (tableSource rows) = some rows := by
  have hrows : ∀ f : List TextUnit × Source → Option (UInt64 × Row),
      (∀ e ∈ rows.toList, f (keyUnits e.1, .ofParts e.2.parts) = some e) →
      (rows.toList.map fun e => (keyUnits e.1, Source.ofParts e.2.parts)).mapM f =
        some rows.toList := by
    intro f hf
    exact (Source.mapM_map id hf).trans (by rw [List.map_id])
  unfold tableSource tableOfSource?
  dsimp only
  rw [hrows]
  · exact congrArg some (ofList_toList rows)
  · intro e he
    dsimp only
    rw [rowKey?_keyUnits, Row.ofSource?_ofParts (h e he)]
    rfl

/-! ## Snapshots -/

/-- Every payload has a text that means it. -/
def Exact (s : Snapshot) : Prop :=
  ∀ entity table, (entity, table) ∈ s.entities.toList → ∀ e ∈ table.toList,
    e.2.payload.Exact payloadBudget

def entitiesSource (rows : Rows) : Source :=
  .object (rows.toList.map fun e => (TextUnit.ofString e.1, tableSource e.2))

def parts (s : Snapshot) : List Source.Part :=
  [⟨"formatVersion", Decimal.digitChars s.formatVersion.toNat, .ofNat s.formatVersion.toNat⟩,
    ⟨"schemaVersion", Decimal.digitChars s.schemaVersion.toNat, .ofNat s.schemaVersion.toNat⟩,
    ⟨"nextKey", Decimal.digitChars s.nextKey.toNat, .ofNat s.nextKey.toNat⟩,
    ⟨"entities", '\x7b' :: (memberChars Json.quoted tableChars s.entities.toList ++ ['\x7d']),
      entitiesSource s.entities⟩]

theorem chars_eq (s : Snapshot) : s.chars = Source.partChars s.parts := by
  have hformat : "\"formatVersion\":".toList = Json.quoted "formatVersion" ++ [':'] := by decide
  have hschema : ",\"schemaVersion\":".toList = ',' :: (Json.quoted "schemaVersion" ++ [':']) := by
    decide
  have hnext : ",\"nextKey\":".toList = ',' :: (Json.quoted "nextKey" ++ [':']) := by decide
  have hentities : ",\"entities\":".toList = ',' :: (Json.quoted "entities" ++ [':']) := by decide
  simp only [chars, Source.partChars, parts, memberChars, hformat, hschema, hnext, hentities,
    List.map_cons, List.map_nil, List.append_assoc, List.cons_append, List.nil_append]

variable {s : Snapshot}

theorem spells_chars (h : s.Exact) : Spells s.chars (.ofParts s.parts) := by
  rw [chars_eq]
  refine Source.spells_partChars ?_
  intro p hp
  rw [parts, List.mem_cons, List.mem_cons, List.mem_cons, List.mem_singleton] at hp
  rcases hp with rfl | rfl | rfl | rfl
  · exact Source.spells_digitChars _
  · exact Source.spells_digitChars _
  · exact Source.spells_digitChars _
  · refine Source.spells_memberChars TextUnit.ofString tableSource ?_
    intro e he
    exact ⟨Source.spellsName_quoted e.1, spells_tableChars fun row hrow => h e.1 e.2 he row hrow⟩

theorem rowsOfSource?_entitiesSource (h : s.Exact) :
    rowsOfSource? (entitiesSource s.entities) = some s.entities := by
  have htables : ∀ f : List TextUnit × Source → Option (String × SortedMap UInt64 Row),
      (∀ e ∈ s.entities.toList, f (TextUnit.ofString e.1, tableSource e.2) = some e) →
      (s.entities.toList.map fun e => (TextUnit.ofString e.1, tableSource e.2)).mapM f =
        some s.entities.toList := by
    intro f hf
    exact (Source.mapM_map id hf).trans (by rw [List.map_id])
  unfold entitiesSource rowsOfSource?
  dsimp only
  rw [htables]
  · exact congrArg some (ofList_toList s.entities)
  · intro e he
    dsimp only
    rw [TextUnit.decodeString_ofString, tableOfSource?_tableSource (h e.1 e.2 he)]
    rfl

theorem ofSource?_ofParts (h : s.Exact) : ofSource? (.ofParts s.parts) = some s := by
  have hnames : (s.parts.map Source.Part.name).Nodup := by
    show ["formatVersion", "schemaVersion", "nextKey", "entities"].Nodup
    decide
  have hfields : (Source.ofParts s.parts).fields?
      ["formatVersion", "schemaVersion", "nextKey", "entities"] =
      some [.ofNat s.formatVersion.toNat, .ofNat s.schemaVersion.toNat, .ofNat s.nextKey.toNat,
        entitiesSource s.entities] :=
    Source.fields?_ofParts hnames
  rw [ofSource?, hfields]
  simp [Source.uint32?_ofNat, Source.uint64?_ofNat, rowsOfSource?_entitiesSource h]

/-- A snapshot in the current format is what its text is read as. -/
theorem ofText_text (h : s.Exact) (hformat : s.formatVersion = currentFormat) :
    ofText s.text = .ok s := by
  have hread : Source.read? s.text = some (.ofParts s.parts) := (spells_chars h).read?
  unfold ofText
  rw [hread, Option.bind_some, ofSource?_ofParts h]
  dsimp only
  rw [hformat, if_neg (by decide)]

end Snapshot

end Reconcile
