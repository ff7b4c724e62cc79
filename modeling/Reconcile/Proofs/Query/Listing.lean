import Mathlib.Data.List.Forall2
import Reconcile.Query.Order

/-!
# Lists of sort terms in a text

A text lists keys with commas between them.  A piece between two commas is white space, which counts
for nothing, or a key with any white space around it.  A key is what can stand there, so it is not
empty, and it has no comma and no white space at its ends.  Every text is such a list in one way
(`Lists`), and this is how `SortTerm.ofText` reads it.
-/

namespace Reconcile

/-! ## Cutting and stripping -/

namespace Text

variable {separator : Char} {cs core before after : List Char} {pieces : List (List Char)}

/-- The pieces of a text between its separators, in order.  None can be made longer, as none has a
separator and every piece ends at one or at an end of the text. -/
structure Cuts (separator : Char) (cs : List Char) (pieces : List (List Char)) : Prop where
  joined : [separator].intercalate pieces = cs
  nonempty : pieces ≠ []
  clear : ∀ piece ∈ pieces, separator ∉ piece

theorem segments_eq_splitOn (separator : Char) (cs : List Char) :
    segments separator cs = cs.splitOn separator := by
  induction cs with
  | nil => rfl
  | cons c rest ih =>
    rw [segments, ih, List.splitOn_cons_eq_if_modifyHead]
    by_cases hc : c = separator
    · rw [if_pos hc, if_pos (beq_iff_eq.2 hc)]
    · rw [if_neg hc, if_neg (fun heq => hc (beq_iff_eq.1 heq))]
      cases hsplit : rest.splitOn separator with
      | nil => exact absurd hsplit (List.splitOn_ne_nil separator rest)
      | cons piece pieces => rfl

theorem not_mem_of_mem_segments {piece : List Char} (h : piece ∈ segments separator cs) :
    separator ∉ piece := by
  induction cs generalizing piece with
  | nil =>
    rw [segments, List.mem_singleton] at h
    simp [h]
  | cons c rest ih =>
    unfold segments at h
    split at h
    case isTrue =>
      rcases List.mem_cons.1 h with rfl | h
      · exact List.not_mem_nil
      · exact ih h
    case isFalse hc =>
      split at h
      case h_1 =>
        rw [List.mem_singleton] at h
        simp [h, Ne.symm hc]
      case h_2 first pieces hsegments =>
        rcases List.mem_cons.1 h with rfl | h
        · have hfirst : separator ∉ first := ih (hsegments ▸ List.mem_cons_self)
          simp [Ne.symm hc, hfirst]
        · exact ih (hsegments ▸ List.mem_cons_of_mem _ h)

/-- A text is cut in one way. -/
theorem cuts_iff : Cuts separator cs pieces ↔ segments separator cs = pieces := by
  constructor
  · rintro ⟨rfl, hnonempty, hclear⟩
    rw [segments_eq_splitOn, List.splitOn_intercalate separator hclear hnonempty]
  · rintro rfl
    refine ⟨?_, ?_, fun piece => not_mem_of_mem_segments⟩
    · rw [segments_eq_splitOn, List.intercalate_splitOn]
    · rw [segments_eq_splitOn]
      exact List.splitOn_ne_nil separator cs

/-- Nothing but white space. -/
def Blank (cs : List Char) : Prop := ∀ c ∈ cs, isBlank c = true

/-- No white space at either end. -/
structure Tight (cs : List Char) : Prop where
  first : ∀ c ∈ cs.head?, isBlank c = false
  last : ∀ c ∈ cs.getLast?, isBlank c = false

/-- What is left of a text without the white space at its ends. -/
inductive Strips : List Char → List Char → Prop where
  | intro {before core after : List Char} (hbefore : Blank before) (hcore : Tight core)
      (hafter : Blank after) : Strips (before ++ core ++ after) core

theorem first_dropWhile {c : Char} (h : c ∈ (cs.dropWhile isBlank).head?) : isBlank c = false := by
  have hnot := List.head?_dropWhile_not isBlank cs
  rw [Option.mem_def.1 h] at hnot
  simpa using hnot

theorem dropWhile_append (hbefore : Blank before) (hfirst : ∀ c ∈ cs.head?, isBlank c = false) :
    (before ++ cs).dropWhile isBlank = cs := by
  rw [List.dropWhile_append_of_pos hbefore]
  cases cs with
  | nil => rfl
  | cons c rest => rw [List.dropWhile_cons, if_neg (by simp [hfirst c rfl])]

theorem blank_takeWhile (cs : List Char) : Blank (cs.takeWhile isBlank) :=
  List.all_eq_true.1 List.all_takeWhile

theorem Blank.append (hbefore : Blank before) (hafter : Blank after) : Blank (before ++ after) :=
  fun c hc => (List.mem_append.1 hc).elim (hbefore c) (hafter c)

theorem Blank.reverse (h : Blank cs) : Blank cs.reverse := fun c hc => h c (List.mem_reverse.1 hc)

/-- Stripping leaves what trimming leaves and nothing else. -/
theorem Strips.trimBlanks_eq (h : Strips cs core) : trimBlanks cs = core := by
  cases h with
  | @intro before _ after hbefore hcore hafter =>
    cases core with
    | nil =>
      have hfront : (before ++ after ++ []).dropWhile isBlank = [] :=
        dropWhile_append (hbefore.append hafter) nofun
      rw [List.append_nil] at hfront
      rw [trimBlanks, List.append_nil, hfront]
      rfl
    | cons c rest =>
      have hfront : (before ++ (c :: rest) ++ after).dropWhile isBlank = (c :: rest) ++ after := by
        rw [List.append_assoc]
        exact dropWhile_append hbefore hcore.first
      have hback : ((c :: rest) ++ after).reverse.dropWhile isBlank = (c :: rest).reverse := by
        rw [List.reverse_append]
        refine dropWhile_append hafter.reverse ?_
        rw [List.head?_reverse]
        exact hcore.last
      rw [trimBlanks, hfront, hback, List.reverse_reverse]

theorem strips_trimBlanks (cs : List Char) : Strips cs (trimBlanks cs) := by
  have hback : trimBlanks cs ++ ((cs.dropWhile isBlank).reverse.takeWhile isBlank).reverse =
      cs.dropWhile isBlank := by
    rw [trimBlanks, ← List.reverse_append, List.takeWhile_append_dropWhile, List.reverse_reverse]
  have hsplit : cs.takeWhile isBlank ++ trimBlanks cs ++
      ((cs.dropWhile isBlank).reverse.takeWhile isBlank).reverse = cs := by
    rw [List.append_assoc, hback, List.takeWhile_append_dropWhile]
  have htight : Tight (trimBlanks cs) := by
    constructor
    case first =>
      intro c hc
      have hfirst : c ∈ (cs.dropWhile isBlank).head? := by
        rw [← hback, List.head?_append, Option.mem_def.1 hc]
        rfl
      exact first_dropWhile hfirst
    case last =>
      intro c hc
      rw [trimBlanks, List.getLast?_reverse] at hc
      exact first_dropWhile hc
  have hstrips := Strips.intro (blank_takeWhile cs) htight
    (blank_takeWhile (cs.dropWhile isBlank).reverse).reverse
  rwa [hsplit] at hstrips

theorem forall₂_strips_iff {cores : List (List Char)} :
    List.Forall₂ Strips pieces cores ↔ pieces.map trimBlanks = cores := by
  constructor
  · intro h
    induction h with
    | nil => rfl
    | cons hfirst _ ih => rw [List.map_cons, hfirst.trimBlanks_eq, ih]
  · rintro rfl
    exact List.forall₂_map_right_iff.2 (List.forall₂_same.2 fun piece _ => strips_trimBlanks piece)

end Text

/-! ## The grammar -/

namespace SortTerm

variable {cs piece : List Char} {keys : List String}

/-- What a sort term in a text can name. -/
structure IsKey (key : String) : Prop where
  nonempty : key ≠ ""
  comma : ',' ∉ key.toList
  tight : Text.Tight key.toList

/-- A piece between commas, and the key in it, if there is one. -/
inductive Piece : List Char → List String → Prop where
  | blank {cs : List Char} (h : Text.Blank cs) : Piece cs []
  | key {before after : List Char} {key : String} (hbefore : Text.Blank before) (hkey : IsKey key)
      (hafter : Text.Blank after) : Piece (before ++ key.toList ++ after) [key]

/-- Pieces with commas between them, and the keys in them. -/
inductive Lists : List Char → List String → Prop where
  | last {piece : List Char} {keys : List String} (h : Piece piece keys) : Lists piece keys
  | cons {piece rest : List Char} {keys others : List String} (h : Piece piece keys)
      (hrest : Lists rest others) : Lists (piece ++ ',' :: rest) (keys ++ others)

/-- The key that is left of a piece when it is trimmed, if anything is. -/
def keysIn (piece : List Char) : List String :=
  if (Text.trimBlanks piece).isEmpty then [] else [String.ofList (Text.trimBlanks piece)]

theorem ofText_eq (text : String) (ascending : Bool) : ofText text ascending =
    ((Text.segments ',' text.toList).flatMap keysIn).map fun key => ⟨key, ascending⟩ := by
  unfold ofText
  dsimp only
  induction Text.segments ',' text.toList with
  | nil => rfl
  | cons piece rest ih =>
    rw [List.flatMap_cons, List.map_append, ← ih, List.map_cons, List.filter_cons, keysIn]
    cases (Text.trimBlanks piece).isEmpty <;> rfl

theorem Piece.comma (h : Piece piece keys) : ',' ∉ piece := by
  have hblank : ∀ {cs : List Char}, Text.Blank cs → ',' ∉ cs := by
    intro cs hcs hmem
    exact absurd (hcs ',' hmem) (by decide)
  cases h with
  | blank h => exact hblank h
  | key hbefore hkey hafter =>
    simp [hblank hbefore, hkey.comma, hblank hafter]

theorem Piece.isKey (h : Piece piece keys) : ∀ key ∈ keys, IsKey key := by
  cases h with
  | blank => exact nofun
  | key _ hkey _ => exact fun key hmem => List.mem_singleton.1 hmem ▸ hkey

theorem Lists.isKey (h : Lists cs keys) : ∀ key ∈ keys, IsKey key := by
  induction h with
  | last h => exact h.isKey
  | cons h _ ih => exact List.forall_mem_append.2 ⟨h.isKey, ih⟩

theorem keysIn_of_strips {core : List Char} (h : Text.Strips piece core) :
    keysIn piece = if core.isEmpty then [] else [String.ofList core] := by
  rw [keysIn, h.trimBlanks_eq]

theorem Piece.keysIn_eq (h : Piece piece keys) : keysIn piece = keys := by
  cases h with
  | blank h =>
    have hstrips : Text.Strips (piece ++ [] ++ []) [] := .intro h ⟨nofun, nofun⟩ nofun
    rw [List.append_nil, List.append_nil] at hstrips
    rw [keysIn_of_strips hstrips]
    rfl
  | @key _ _ key hbefore hkey hafter =>
    have hcore : key.toList.isEmpty = false := by simpa using hkey.nonempty
    rw [keysIn_of_strips (.intro hbefore hkey.tight hafter), hcore, String.ofList_toList]
    rfl

theorem piece_keysIn (h : ',' ∉ piece) : Piece piece (keysIn piece) := by
  have hstrips := Text.strips_trimBlanks piece
  rw [keysIn_of_strips hstrips]
  generalize Text.trimBlanks piece = core at hstrips
  cases hstrips with
  | @intro before _ after hbefore hcore hafter =>
    by_cases hempty : core = []
    · subst hempty
      rw [List.append_nil]
      exact .blank (hbefore.append hafter)
    · have hkey : IsKey (String.ofList core) := by
        refine ⟨?_, ?_, ?_⟩
        · simpa using hempty
        · rw [String.toList_ofList]
          exact fun hmem => h (by simp [hmem])
        · rw [String.toList_ofList]
          exact hcore
      have hpiece := Piece.key hbefore hkey hafter
      rw [String.toList_ofList] at hpiece
      rwa [if_neg (by simpa using hempty)]

/-- A text has one reading at most. -/
theorem Lists.keys_eq (h : Lists cs keys) : (Text.segments ',' cs).flatMap keysIn = keys := by
  rw [Text.segments_eq_splitOn]
  induction h with
  | last h =>
    rw [List.splitOn_eq_singleton h.comma, List.flatMap_singleton]
    exact h.keysIn_eq
  | cons h _ ih =>
    rw [List.splitOn_append_cons_self_of_not_mem h.comma, List.flatMap_cons, h.keysIn_eq, ih]

theorem lists_of_cuts {pieces : List (List Char)} (h : Text.Cuts ',' cs pieces) :
    Lists cs (pieces.flatMap keysIn) := by
  rcases h with ⟨rfl, hnonempty, hclear⟩
  induction pieces with
  | nil => exact absurd rfl hnonempty
  | cons piece rest ih =>
    rcases List.forall_mem_cons.1 hclear with ⟨hpiece, hrest⟩
    have hpiece := piece_keysIn hpiece
    cases rest with
    | nil =>
      rw [List.intercalate_singleton, List.flatMap_singleton]
      exact .last hpiece
    | cons next rest =>
      rw [List.intercalate_cons_cons, List.append_assoc, List.flatMap_cons]
      exact .cons hpiece (ih (List.cons_ne_nil _ _) hrest)

/-- A text has a reading. -/
theorem lists_segments (cs : List Char) : Lists cs ((Text.segments ',' cs).flatMap keysIn) :=
  lists_of_cuts (Text.cuts_iff.2 rfl)

/-- The keys are, in order, what is left of the pieces between the commas without the white space at
their ends, where anything is left, so each of them can be a key.  And they are the keys that the
text lists: no text lists others as well. -/
theorem ofText_reads_lists (text : String) (ascending : Bool) :
    (∀ terms, ofText text ascending = terms ↔ ∃ pieces cores,
      Text.Cuts ',' text.toList pieces ∧ List.Forall₂ Text.Strips pieces cores ∧
      terms = (cores.filter (· ≠ [])).map fun core => ⟨String.ofList core, ascending⟩) ∧
    (∀ term ∈ ofText text ascending, IsKey term.key ∧ term.ascending = ascending) ∧
    ∀ keys, ofText text ascending = keys.map (fun key => ⟨key, ascending⟩) ↔
      Lists text.toList keys := by
  refine ⟨?_, ?_, ?_⟩
  · intro terms
    have hfilter : (fun core : List Char => !core.isEmpty) = fun core => decide (core ≠ []) := by
      funext core
      cases core <;> rfl
    rw [ofText, hfilter]
    constructor
    · rintro rfl
      exact ⟨_, _, Text.cuts_iff.2 rfl, Text.forall₂_strips_iff.2 rfl, rfl⟩
    · rintro ⟨pieces, cores, hcuts, hstrips, rfl⟩
      rw [Text.cuts_iff.1 hcuts, Text.forall₂_strips_iff.1 hstrips]
  · intro term hterm
    rw [ofText_eq] at hterm
    rcases List.mem_map.1 hterm with ⟨key, hkey, rfl⟩
    exact ⟨(lists_segments text.toList).isKey key hkey, rfl⟩
  · intro keys
    rw [ofText_eq]
    constructor
    · intro h
      have hkeys := congrArg (List.map SortTerm.key) h
      rw [List.map_map, List.map_map] at hkeys
      have hread : (Text.segments ',' text.toList).flatMap keysIn = keys := by
        simpa [Function.comp_def] using hkeys
      exact hread ▸ lists_segments text.toList
    · intro h
      rw [h.keys_eq]

/-- White space is more than spaces, and pieces of nothing else do not count. -/
example : ofText " last name ,\u3000,\tfirst\u2003,," false =
    [⟨"last name", false⟩, ⟨"first", false⟩] := by
  decide +kernel

end SortTerm

end Reconcile
