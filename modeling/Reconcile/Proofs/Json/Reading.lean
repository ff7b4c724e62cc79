import Mathlib.Tactic.SplitIfs
import Reconcile.Proofs.Json.Decode
import Reconcile.Proofs.Json.Numerals

/-!
# Printed text is read back

Text *spells* a source if the reader takes just this text off the front of whatever closes it and
answers with the source.  Compact text spells the source that the printer has in mind
(`Json.source`), and that source means the value again.
-/

namespace Reconcile

/-! ## Strings -/

namespace TextUnit

/-- A character as the printer writes it. -/
def ofChar (c : Char) : TextUnit :=
  if c = '"' ∨ c = '\\' ∨ c.toNat < 32 then .escape c.toNat else .plain c

def ofString (s : String) : List TextUnit := s.toList.map ofChar

theorem decode_ofChars (cs : List Char) : decode (cs.map ofChar) = some cs := by
  induction cs with
  | nil => rfl
  | cons c rest ih =>
    rw [List.map_cons, ofChar]
    split
    · next hescape =>
      have hlow : c.toNat < 0xD800 := by
        rcases hescape with rfl | rfl | hlt
        · decide
        · decide
        · omega
      unfold decode
      rw [if_neg (by omega), if_neg (by omega), ih, Char.ofNat_toNat]
      rfl
    · rw [decode, ih]
      rfl

theorem decodeString_ofString (s : String) : decodeString (ofString s) = some s := by
  rw [decodeString, ofString, decode_ofChars, Option.map_some, String.ofList_toList]

end TextUnit

namespace Source

theorem hexValue?_hexDigit {n : Nat} (h : n < 16) : hexValue? (Json.hexDigit n) = some n := by
  have hall : ∀ n : Fin 16, hexValue? (Json.hexDigit n) = some n.val := by decide
  exact hall ⟨n, h⟩

/-- A character that is neither a quote nor a backslash stands for itself. -/
theorem readUnits?_plain {c : Char} (hquote : c ≠ '"') (hslash : c ≠ '\\') (hlow : ¬ c.toNat < 32)
    {cs : List Char} {units : List TextUnit} {rest : List Char}
    (h : readUnits? cs = some (units, rest)) :
    readUnits? (c :: cs) = some (.plain c :: units, rest) := by
  have hcond : (decide (c.toNat < 32) || decide (c = '\\')) = false := by simp [hlow, hslash]
  unfold readUnits?
  split
  · next heq => cases heq
  · next heq => exact absurd (List.cons.inj heq).1 hquote
  · next heq => exact absurd (List.cons.inj heq).1 hslash
  · next heq => exact absurd (List.cons.inj heq).1 hslash
  · next heq =>
    cases heq
    rw [hcond, h]
    rfl

theorem readUnits?_short {c : Char} (hc : c ≠ 'u') {unit : Nat} (hunit : shortEscape? c = some unit)
    {cs : List Char} {units : List TextUnit} {rest : List Char}
    (h : readUnits? cs = some (units, rest)) :
    readUnits? ('\\' :: c :: cs) = some (.escape unit :: units, rest) := by
  rw [readUnits?]
  · rw [hunit, h]
    rfl
  · rintro _ _ _ _ _ rfl
    exact absurd rfl hc

theorem readUnits?_low {c : Char} (hlow : c.toNat < 32) {cs : List Char} {units : List TextUnit}
    {rest : List Char} (h : readUnits? cs = some (units, rest)) :
    readUnits? (['\\', 'u', '0', '0', Json.hexDigit (c.toNat / 16), Json.hexDigit (c.toNat % 16)]
      ++ cs) = some (.escape c.toNat :: units, rest) := by
  have hzero : hexValue? '0' = some 0 := by decide
  have hvalue : ((0 * 16 + 0) * 16 + c.toNat / 16) * 16 + c.toNat % 16 = c.toNat := by omega
  rw [List.cons_append, List.cons_append, List.cons_append, List.cons_append, List.cons_append,
    List.cons_append, List.nil_append, readUnits?, hzero, hexValue?_hexDigit (by omega),
    hexValue?_hexDigit (by omega), h]
  show some (TextUnit.escape (((0 * 16 + 0) * 16 + c.toNat / 16) * 16 + c.toNat % 16) :: units,
    rest) = _
  rw [hvalue]

/-- One character of a string, with its escape. -/
theorem readUnits?_escapeChar (c : Char) {cs : List Char} {units : List TextUnit}
    {rest : List Char} (h : readUnits? cs = some (units, rest)) :
    readUnits? (Json.escapeChar c ++ cs) = some (TextUnit.ofChar c :: units, rest) := by
  unfold Json.escapeChar
  -- the seven short escapes, then control characters, then what stands for itself
  split_ifs with hquote hslash hb hf hn hr ht hlow
  · subst hquote
    exact readUnits?_short (by decide) rfl h
  · subst hslash
    exact readUnits?_short (by decide) rfl h
  · subst hb
    exact readUnits?_short (by decide) rfl h
  · subst hf
    exact readUnits?_short (by decide) rfl h
  · subst hn
    exact readUnits?_short (by decide) rfl h
  · subst hr
    exact readUnits?_short (by decide) rfl h
  · subst ht
    exact readUnits?_short (by decide) rfl h
  · rw [TextUnit.ofChar, if_pos (Or.inr (Or.inr hlow))]
    exact readUnits?_low hlow h
  · have hplain : ¬ (c = '"' ∨ c = '\\' ∨ c.toNat < 32) := by simp [hquote, hslash, hlow]
    rw [TextUnit.ofChar, if_neg hplain]
    exact readUnits?_plain hquote hslash hlow h

theorem readUnits?_escapeChars (cs : List Char) (rest : List Char) :
    readUnits? (cs.flatMap Json.escapeChar ++ '"' :: rest) =
      some (cs.map TextUnit.ofChar, rest) := by
  induction cs with
  | nil => rfl
  | cons c cs ih =>
    rw [List.flatMap_cons, List.append_assoc, List.map_cons]
    exact readUnits?_escapeChar c ih

/-- What stands between quotes is read as these units. -/
def SpellsName (cs : List Char) (units : List TextUnit) : Prop :=
  ∃ body, cs = '"' :: body ∧ ∀ rest, readUnits? (body ++ rest) = some (units, rest)

theorem spellsName_quoted (s : String) : SpellsName (Json.quoted s) (TextUnit.ofString s) := by
  refine ⟨_, rfl, ?_⟩
  intro rest
  rw [List.append_assoc]
  exact readUnits?_escapeChars s.toList rest

/-! ## Values -/

/-- The text is read as the source, up to what closes it. -/
structure Spells (cs : List Char) (source : Source) : Prop where
  /-- The text does not start with a blank, and is not taken for the end of a list. -/
  start : ∃ c tail, cs = c :: tail ∧ isGap c = false ∧ c ≠ ']'
  read : ∀ fuel rest, cs.length ≤ fuel → Closed rest →
    readValue? fuel (cs ++ rest) = some (source, rest)

theorem skipGaps_cons {c : Char} (hc : isGap c = false) (cs : List Char) :
    skipGaps (c :: cs) = c :: cs := by
  rw [skipGaps, List.dropWhile_cons, if_neg (by simp [hc])]

theorem closed_cons {c : Char} (hc : c = ',' ∨ c = ']' ∨ c = '\x7d') (rest : List Char) :
    Closed (c :: rest) := by
  rintro _ ⟨⟩
  exact hc

/-- Values that are read at the first character, and without looking further. -/
theorem spells_of_cons {c : Char} {tail : List Char} {source : Source} (hgap : isGap c = false)
    (hbracket : c ≠ ']') (h : ∀ fuel rest, (c :: tail).length ≤ fuel + 1 → Closed rest →
      readValue? (fuel + 1) (c :: (tail ++ rest)) = some (source, rest)) :
    Spells (c :: tail) source := by
  refine ⟨⟨c, tail, rfl, hgap, hbracket⟩, ?_⟩
  intro fuel rest hfuel hrest
  cases fuel with
  | zero => exact absurd hfuel (by simp)
  | succ fuel => exact h fuel rest hfuel hrest

theorem spells_null : Spells (Json.chars .null) .null :=
  spells_of_cons rfl (by decide) fun _ _ _ _ => rfl

theorem spells_bool (b : Bool) : Spells (Json.chars (.bool b)) (.bool b) := by
  cases b with
  | true => exact spells_of_cons rfl (by decide) fun _ _ _ _ => rfl
  | false => exact spells_of_cons rfl (by decide) fun _ _ _ _ => rfl

theorem readValue?_quote (fuel : Nat) (tail : List Char) : readValue? (fuel + 1) ('"' :: tail) =
    (readUnits? tail).map fun (units, rest) => (.string units, rest) := rfl

theorem spells_quoted (s : String) : Spells (Json.quoted s) (.string (TextUnit.ofString s)) := by
  refine spells_of_cons rfl (by decide) ?_
  intro fuel rest _ _
  rw [List.append_assoc, List.singleton_append, readValue?_quote, readUnits?_escapeChars]
  rfl

/-- A number starts with its sign or with a digit. -/
def StartsNumber (c : Char) : Prop := c = '-' ∨ c.isDigit = true

theorem StartsNumber.ne {c d : Char} (hc : StartsNumber c) (hminus : d ≠ '-')
    (hdigit : d.isDigit = false) : c ≠ d := by
  rintro rfl
  rcases hc with hc | hc
  · exact hminus hc
  · cases hdigit.symm.trans hc

theorem StartsNumber.isGap {c : Char} (hc : StartsNumber c) : isGap c = false := by
  simp [Source.isGap, hc.ne (d := ' '), hc.ne (d := '\n'), hc.ne (d := '\t'),
    hc.ne (d := '\x0d')]

theorem startsNumber_intChars (n : Int) :
    ∃ c tail, Number.intChars n = c :: tail ∧ StartsNumber c := by
  unfold Number.intChars
  split
  · exact ⟨_, _, rfl, Or.inl rfl⟩
  · rcases hchars : Decimal.digitChars n.natAbs with _ | ⟨c, tail⟩
    · exact absurd hchars Nat.toDigits_ne_nil
    · refine ⟨c, tail, rfl, Or.inr (isDigit_of_mem_digitChars (n := n.natAbs) ?_)⟩
      rw [hchars]
      exact List.mem_cons_self

/-- A number is what starts like none of the other values. -/
theorem readValue?_number {c : Char} (hc : StartsNumber c) (fuel : Nat) (tail : List Char) :
    readValue? (fuel + 1) (c :: tail) =
      (readNumber? (c :: tail)).map fun (n, rest) => (.number n, rest) := by
  rw [readValue?, skipGaps_cons hc.isGap]
  split
  case h_1 heq => exact absurd (List.cons.inj heq).1 (hc.ne (by decide) (by decide))
  case h_2 heq => exact absurd (List.cons.inj heq).1 (hc.ne (by decide) (by decide))
  case h_3 heq => exact absurd (List.cons.inj heq).1 (hc.ne (by decide) (by decide))
  case h_4 heq => exact absurd (List.cons.inj heq).1 (hc.ne (by decide) (by decide))
  case h_5 heq => exact absurd (List.cons.inj heq).1 (hc.ne (by decide) (by decide))
  case h_6 heq => exact absurd (List.cons.inj heq).1 (hc.ne (by decide) (by decide))
  case h_7 => rfl

theorem spells_intChars (n : Int) : Spells (Number.intChars n) (.number (Numeral.ofInt n)) := by
  rcases startsNumber_intChars n with ⟨c, tail, hchars, hc⟩
  rw [hchars]
  refine spells_of_cons hc.isGap (hc.ne (by decide) (by decide)) ?_
  intro fuel rest _ hrest
  have hread := readNumber?_intChars n hrest
  rw [hchars, List.cons_append] at hread
  rw [readValue?_number hc, hread]
  rfl

/-! ## Lists and objects -/

/-- Items with commas between them. -/
inductive SpellsItems : List Char → List Source → Prop where
  | last {cs : List Char} {item : Source} : Spells cs item → SpellsItems cs [item]
  | cons {cs cs' : List Char} {item : Source} {items : List Source} : Spells cs item →
      SpellsItems cs' items → SpellsItems (cs ++ ',' :: cs') (item :: items)

/-- Members with commas between them, each a name and a value. -/
inductive SpellsFields : List Char → List (List TextUnit × Source) → Prop where
  | last {name cs : List Char} {units : List TextUnit} {value : Source} :
      SpellsName name units → Spells cs value → SpellsFields (name ++ ':' :: cs) [(units, value)]
  | cons {name cs cs' : List Char} {units : List TextUnit} {value : Source}
      {fields : List (List TextUnit × Source)} : SpellsName name units → Spells cs value →
      SpellsFields cs' fields →
      SpellsFields (name ++ ':' :: (cs ++ ',' :: cs')) ((units, value) :: fields)

theorem readItems?_comma {fuel : Nat} {cs rest : List Char} {item : Source}
    (h : readValue? fuel cs = some (item, ',' :: rest)) : readItems? (fuel + 1) cs = (do
      let (items, rest) ← readItems? fuel rest
      return (item :: items, rest)) := by
  rw [readItems?, h]
  rfl

theorem SpellsItems.read {cs : List Char} {items : List Source} (h : SpellsItems cs items) :
    ∀ {fuel : Nat} (rest : List Char), cs.length < fuel →
      readItems? fuel (cs ++ ']' :: rest) = some (items, rest) := by
  -- each item uses one unit of fuel and has at least a comma behind it, so the fuel lasts
  induction h with
  | @last cs item hitem =>
    intro fuel rest hfuel
    cases fuel with
    | zero => exact absurd hfuel (Nat.not_lt_zero _)
    | succ fuel =>
      rw [readItems?, hitem.read fuel _ (Nat.le_of_lt_succ hfuel) (closed_cons (by decide) rest)]
      rfl
  | @cons cs cs' item items hitem _ ih =>
    intro fuel rest hfuel
    cases fuel with
    | zero => exact absurd hfuel (Nat.not_lt_zero _)
    | succ fuel =>
      rw [List.length_append, List.length_cons] at hfuel
      have hfirst := hitem.read fuel (',' :: (cs' ++ ']' :: rest)) (by omega)
        (closed_cons (by decide) _)
      have hrest := ih rest (show cs'.length < fuel by omega)
      rw [List.append_assoc, List.cons_append, readItems?_comma hfirst, hrest]
      rfl

theorem readFields?_quote (fuel : Nat) (tail : List Char) : readFields? (fuel + 1) ('"' :: tail) =
    (readUnits? tail).bind fun named =>
      match skipGaps named.2 with
      | ':' :: rest => (readValue? fuel rest).bind fun read =>
        match skipGaps read.2 with
        | ',' :: rest => (readFields? fuel rest).bind fun found =>
          some ((named.1, read.1) :: found.1, found.2)
        | '\x7d' :: rest => some ([(named.1, read.1)], rest)
        | _ => none
      | _ => none := rfl

/-- A member at the front; what comes after it decides whether there are more. -/
theorem readFields?_member {name cs after : List Char} {units : List TextUnit} {value : Source}
    {fuel : Nat} (hname : SpellsName name units)
    (hvalue : readValue? fuel (cs ++ after) = some (value, after)) :
    readFields? (fuel + 1) (name ++ ':' :: (cs ++ after)) =
      match skipGaps after with
      | ',' :: rest => (readFields? fuel rest).bind fun found =>
        some ((units, value) :: found.1, found.2)
      | '\x7d' :: rest => some ([(units, value)], rest)
      | _ => none := by
  rcases hname with ⟨body, rfl, hbody⟩
  rw [List.cons_append, readFields?_quote, hbody, Option.bind_some]
  show (readValue? fuel (cs ++ after)).bind _ = _
  rw [hvalue]
  rfl

theorem SpellsFields.read {cs : List Char} {fields : List (List TextUnit × Source)}
    (h : SpellsFields cs fields) : ∀ {fuel : Nat} (rest : List Char), cs.length < fuel →
      readFields? fuel (cs ++ '\x7d' :: rest) = some (fields, rest) := by
  -- members use up fuel as items do
  induction h with
  | @last name cs units value hname hvalue =>
    intro fuel rest hfuel
    cases fuel with
    | zero => exact absurd hfuel (Nat.not_lt_zero _)
    | succ fuel =>
      simp only [List.length_append, List.length_cons] at hfuel
      have hread := hvalue.read fuel ('\x7d' :: rest) (by omega) (closed_cons (by decide) rest)
      rw [List.append_assoc, List.cons_append, readFields?_member hname hread]
      rfl
  | @cons name cs cs' units value fields hname hvalue _ ih =>
    intro fuel rest hfuel
    cases fuel with
    | zero => exact absurd hfuel (Nat.not_lt_zero _)
    | succ fuel =>
      simp only [List.length_append, List.length_cons] at hfuel
      have hread := hvalue.read fuel (',' :: (cs' ++ '\x7d' :: rest)) (by omega)
        (closed_cons (by decide) _)
      have hrest := ih rest (show cs'.length < fuel by omega)
      rw [List.append_assoc, List.cons_append, List.append_assoc, List.cons_append,
        readFields?_member hname hread]
      show (readFields? fuel (cs' ++ '\x7d' :: rest)).bind _ = _
      rw [hrest]
      rfl

theorem spells_nil_array : Spells ['[', ']'] (.array []) :=
  spells_of_cons rfl (by decide) fun _ _ _ _ => rfl

theorem spells_nil_object : Spells ['\x7b', '\x7d'] (.object []) :=
  spells_of_cons rfl (by decide) fun _ _ _ _ => rfl

theorem SpellsItems.start {cs : List Char} {items : List Source} (h : SpellsItems cs items) :
    ∃ c tail, cs = c :: tail ∧ isGap c = false ∧ c ≠ ']' := by
  cases h with
  | last hitem => exact hitem.start
  | cons hitem hrest =>
    rcases hitem.start with ⟨c, tail, rfl, hc⟩
    exact ⟨c, _, rfl, hc⟩

theorem readValue?_open (fuel : Nat) (tail : List Char) : readValue? (fuel + 1) ('[' :: tail) =
    match skipGaps tail with
    | ']' :: rest => some (.array [], rest)
    | rest => (readItems? fuel rest).map fun (items, rest) => (.array items, rest) := rfl

theorem readValue?_bracket (fuel : Nat) {c : Char} (hgap : isGap c = false) (hbracket : c ≠ ']')
    (tail : List Char) : readValue? (fuel + 1) ('[' :: c :: tail) =
      (readItems? fuel (c :: tail)).map fun found => (.array found.1, found.2) := by
  rw [readValue?_open, skipGaps_cons hgap]
  split
  · next heq => exact absurd (List.cons.inj heq).1 hbracket
  · rfl

theorem readValue?_brace (fuel : Nat) (tail : List Char) :
    readValue? (fuel + 1) ('\x7b' :: '"' :: tail) =
      (readFields? fuel ('"' :: tail)).map fun found => (.object found.1, found.2) := rfl

theorem SpellsItems.array {cs : List Char} {items : List Source} (h : SpellsItems cs items) :
    Spells ('[' :: (cs ++ [']'])) (.array items) := by
  refine spells_of_cons rfl (by decide) ?_
  intro fuel rest hfuel _
  simp only [List.length_cons, List.length_append, List.length_nil] at hfuel
  have hread := h.read rest (show cs.length < fuel by omega)
  rcases h.start with ⟨c, tail, rfl, hgap, hbracket⟩
  rw [List.cons_append] at hread
  rw [List.append_assoc, List.singleton_append, List.cons_append,
    readValue?_bracket fuel hgap hbracket, hread]
  rfl

theorem SpellsFields.start {cs : List Char} {fields : List (List TextUnit × Source)}
    (h : SpellsFields cs fields) : ∃ tail, cs = '"' :: tail := by
  cases h with
  | last hname _ =>
    rcases hname with ⟨body, rfl, _⟩
    exact ⟨_, rfl⟩
  | cons hname _ _ =>
    rcases hname with ⟨body, rfl, _⟩
    exact ⟨_, rfl⟩

theorem SpellsFields.object {cs : List Char} {fields : List (List TextUnit × Source)}
    (h : SpellsFields cs fields) : Spells ('\x7b' :: (cs ++ ['\x7d'])) (.object fields) := by
  refine spells_of_cons rfl (by decide) ?_
  intro fuel rest hfuel _
  simp only [List.length_cons, List.length_append, List.length_nil] at hfuel
  have hread := h.read rest (show cs.length < fuel by omega)
  rcases h.start with ⟨tail, rfl⟩
  rw [List.cons_append] at hread
  rw [List.append_assoc, List.singleton_append, List.cons_append, readValue?_brace, hread]
  rfl

/-- A text of one value is read as that value. -/
theorem Spells.read? {cs : List Char} {source : Source} (h : Spells cs source) :
    read? (String.ofList cs) = some source := by
  have hread := h.read (2 * cs.length + 2) [] (by omega) fun c hc => by cases hc
  rw [List.append_nil] at hread
  unfold Source.read?
  rw [String.toList_ofList]
  dsimp only
  rw [hread]
  rfl

end Source

/-! ## Values as they are printed -/

namespace Json

mutual

/-- What the text of a value is read as.  Doubles are left out: `Exact` values have none. -/
def source : Json → Source
  | .null => .null
  | .bool b => .bool b
  | .number (.int n) => .number (.ofInt n.val)
  | .number (.double _) => .null
  | .string s => .string (TextUnit.ofString s)
  | .array items => .array (sourceOfItems items)
  | .object fields => .object (sourceOfFields fields)

def sourceOfItems : List Json → List Source
  | [] => []
  | item :: rest => source item :: sourceOfItems rest

def sourceOfFields : List (String × Json) → List (List TextUnit × Source)
  | [] => []
  | (key, value) :: rest => (TextUnit.ofString key, source value) :: sourceOfFields rest

end

mutual

/-- Numbers are integers, members are in key order, and containers nest at most `budget` deep: the
text of such a value means the value. -/
def Exact (budget : Nat) : Json → Prop
  | .number (.double _) => False
  | .array items => 0 < budget ∧ ExactItems (budget - 1) items
  | .object fields => 0 < budget ∧ Entries.Sorted fields ∧ ExactFields (budget - 1) fields
  | _ => True

def ExactItems (budget : Nat) : List Json → Prop
  | [] => True
  | item :: rest => Exact budget item ∧ ExactItems budget rest

def ExactFields (budget : Nat) : List (String × Json) → Prop
  | [] => True
  | (_, value) :: rest => Exact budget value ∧ ExactFields budget rest

end

open Source (Spells SpellsItems SpellsFields)

mutual

theorem spells_chars : ∀ {budget : Nat} (j : Json), j.Exact budget → Spells j.chars j.source
  | _, .null, _ => Source.spells_null
  | _, .bool b, _ => Source.spells_bool b
  | _, .number (.int n), _ => Source.spells_intChars n.val
  | _, .string s, _ => Source.spells_quoted s
  | _, .array items, h => by
    rcases spellsItems_chars items h.2 with rfl | hitems
    · exact Source.spells_nil_array
    · exact hitems.array
  | _, .object fields, h => by
    rcases spellsFields_chars fields h.2.2 with rfl | hfields
    · exact Source.spells_nil_object
    · exact hfields.object

theorem spellsItems_chars : ∀ {budget : Nat} (items : List Json), ExactItems budget items →
    items = [] ∨ SpellsItems (itemChars items) (sourceOfItems items)
  | _, [], _ => Or.inl rfl
  | _, item :: rest, h => by
    have hitem := spells_chars item h.1
    have hrest := spellsItems_chars rest h.2
    cases rest with
    | nil => exact Or.inr (.last hitem)
    | cons next rest => exact Or.inr (.cons hitem (hrest.resolve_left (List.cons_ne_nil _ _)))

theorem spellsFields_chars : ∀ {budget : Nat} (fields : List (String × Json)),
    ExactFields budget fields →
      fields = [] ∨ SpellsFields (fieldChars fields) (sourceOfFields fields)
  | _, [], _ => Or.inl rfl
  | _, (key, value) :: rest, h => by
    have hname := Source.spellsName_quoted key
    have hvalue := spells_chars value h.1
    have hrest := spellsFields_chars rest h.2
    cases rest with
    | nil => exact Or.inr (.last hname hvalue)
    | cons next rest =>
      exact Or.inr (.cons hname hvalue (hrest.resolve_left (List.cons_ne_nil _ _)))

end

mutual

theorem toJson?_source : ∀ {budget : Nat} (j : Json), j.Exact budget →
    j.source.toJson? budget = some j
  | _, .null, _ => rfl
  | _, .bool _, _ => rfl
  | _, .number (.int n), _ => by
    rw [source, Source.toJson?, Numeral.toNumber?_ofInt]
    rfl
  | _, .string s, _ => by
    rw [source, Source.toJson?, TextUnit.decodeString_ofString]
    rfl
  | budget, .array items, h => by
    rw [source, Source.toJson?, if_neg (Nat.ne_of_gt h.1), toItems?_source items h.2]
    rfl
  | budget, .object fields, h => by
    rw [source, Source.toJson?, if_neg (Nat.ne_of_gt h.1), toFields?_source fields h.2.2,
      Option.map_some, ofFields, Entries.ofList_of_sorted h.2.1]

theorem toItems?_source : ∀ {budget : Nat} (items : List Json), ExactItems budget items →
    Source.toItems? budget (sourceOfItems items) = some items
  | _, [], _ => rfl
  | _, item :: rest, h => by
    rw [sourceOfItems, Source.toItems?, toJson?_source item h.1, toItems?_source rest h.2]
    rfl

theorem toFields?_source : ∀ {budget : Nat} (fields : List (String × Json)),
    ExactFields budget fields → Source.toFields? budget (sourceOfFields fields) = some fields
  | _, [], _ => rfl
  | _, (key, value) :: rest, h => by
    rw [sourceOfFields, Source.toFields?, TextUnit.decodeString_ofString,
      toJson?_source value h.1, toFields?_source rest h.2]
    rfl

end

/-! ## Values that are exact -/

section Exact

variable {budget : Nat}

theorem exactItems_iff {items : List Json} :
    ExactItems budget items ↔ ∀ item ∈ items, item.Exact budget := by
  induction items with
  | nil => simp [ExactItems]
  | cons item rest ih => simp [ExactItems, ih]

theorem exactFields_iff {fields : List (String × Json)} :
    ExactFields budget fields ↔ ∀ field ∈ fields, field.2.Exact budget := by
  induction fields with
  | nil => simp [ExactFields]
  | cons field rest ih => simp [ExactFields, ih]

@[simp]
theorem exact_null : Exact budget .null := trivial

@[simp]
theorem exact_string (s : String) : Exact budget (.string s) := trivial

@[simp]
theorem exact_ofInt64 (n : Int64) : Exact budget (.ofInt64 n) := trivial

@[simp]
theorem exact_ofUInt64 (n : UInt64) : Exact budget (.ofUInt64 n) := trivial

theorem exact_array {items : List Json} (h : ∀ item ∈ items, item.Exact budget) :
    Exact (budget + 1) (.array items) :=
  ⟨Nat.succ_pos budget, exactItems_iff.2 h⟩

theorem exact_object {fields : List (String × Json)} (hsorted : Entries.Sorted fields)
    (h : ∀ field ∈ fields, field.2.Exact budget) : Exact (budget + 1) (.object fields) :=
  ⟨Nat.succ_pos budget, hsorted, exactFields_iff.2 h⟩

theorem exact_ofFields {fields : List (String × Json)}
    (h : ∀ field ∈ fields, field.2.Exact budget) : Exact (budget + 1) (.ofFields fields) :=
  exact_object (Entries.sorted_ofList fields) fun field hfield =>
    h field (Entries.mem_ofList hfield)

@[simp]
theorem exact_ofOption {α : Type} {encode : α → Json} (h : ∀ a, (encode a).Exact budget)
    (o : Option α) : Exact budget (.ofOption encode o) := by
  cases o with
  | none => trivial
  | some a => exact h a

end Exact

end Json

end Reconcile
