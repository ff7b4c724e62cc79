/-!
# Maps kept in key order

A `SortedMap` is a list of entries whose keys strictly increase, so a map has one form: two
maps with the same entries are equal.  Everything that an answer shows in key order (rows of a
store, objects of a context, fields of an object) is read off `toList`.

* `Entries` holds the operations on bare entry lists.  `Entries.insert` keeps a list sorted,
  and `Entries.find?` works on any list and answers with the first entry of a key.
* `SortedMap` bundles a list with the proof that it is sorted.
-/

namespace Reconcile

/-! ## Entry lists -/

namespace Entries

variable {α β γ : Type} [Ord α]

/-- Keys strictly increase along the list. -/
def Sorted (entries : List (α × β)) : Prop :=
  entries.Pairwise fun a b => compare a.1 b.1 = .lt

/-- The value of the first entry with this key. -/
def find? (key : α) : List (α × β) → Option β
  | [] => none
  | (k, v) :: rest => if compare key k = .eq then some v else find? key rest

/-- Puts an entry at its place, over an entry of the same key. -/
def insert (key : α) (value : β) : List (α × β) → List (α × β)
  | [] => [(key, value)]
  | (k, v) :: rest =>
    match compare key k with
    | .lt => (key, value) :: (k, v) :: rest
    | .eq => (key, value) :: rest
    | .gt => (k, v) :: insert key value rest

/-- Drops every entry of a key. -/
def erase (key : α) (entries : List (α × β)) : List (α × β) :=
  entries.filter fun e => compare key e.1 ≠ .eq

/-- The sorted form of a list of entries; of two entries with one key the later one stays. -/
def ofList (entries : List (α × β)) : List (α × β) :=
  entries.foldl (fun acc e => insert e.1 e.2 acc) []

theorem sizeOf_find? [SizeOf α] [SizeOf β] {key : α} {value : β} {entries : List (α × β)}
    (h : find? key entries = some value) : sizeOf value < sizeOf entries := by
  induction entries with
  | nil => simp [find?] at h
  | cons head rest ih =>
    obtain ⟨k, v⟩ := head
    unfold find? at h
    split at h
    · obtain rfl := Option.some.inj h
      simp only [List.cons.sizeOf_spec, Prod.mk.sizeOf_spec]
      omega
    · have := ih h
      simp only [List.cons.sizeOf_spec]
      omega

theorem mem_insert {key : α} {value : β} {e : α × β} {entries : List (α × β)}
    (h : e ∈ insert key value entries) : e = (key, value) ∨ e ∈ entries := by
  induction entries with
  | nil => simpa [insert] using h
  | cons head rest ih =>
    obtain ⟨k, v⟩ := head
    unfold insert at h
    split at h
    · simpa using h
    · rcases List.mem_cons.1 h with h | h
      · exact .inl h
      · exact .inr (List.mem_cons_of_mem _ h)
    · rcases List.mem_cons.1 h with h | h
      · exact .inr (h ▸ List.mem_cons_self)
      · exact (ih h).imp id (List.mem_cons_of_mem _)

theorem sorted_insert [Std.TransOrd α] {key : α} {value : β} {entries : List (α × β)}
    (h : Sorted entries) : Sorted (insert key value entries) := by
  induction entries with
  | nil => simp [insert, Sorted]
  | cons head rest ih =>
    obtain ⟨k, v⟩ := head
    obtain ⟨hhead, hrest⟩ := List.pairwise_cons.1 h
    unfold insert
    split
    · next hlt =>
      refine List.pairwise_cons.2 ⟨fun e he => ?_, h⟩
      rcases List.mem_cons.1 he with rfl | he
      · exact hlt
      · exact Std.TransCmp.lt_trans hlt (hhead e he)
    · next heq =>
      exact List.pairwise_cons.2
        ⟨fun e he => Std.TransCmp.lt_of_eq_of_lt heq (hhead e he), hrest⟩
    · next hgt =>
      refine List.pairwise_cons.2 ⟨fun e he => ?_, ih hrest⟩
      rcases mem_insert he with rfl | he
      · exact Std.OrientedCmp.lt_of_gt hgt
      · exact hhead e he

theorem sorted_ofList [Std.TransOrd α] (entries : List (α × β)) : Sorted (ofList entries) := by
  have step : ∀ (es acc : List (α × β)), Sorted acc →
      Sorted (es.foldl (fun acc e => insert e.1 e.2 acc) acc) := by
    intro es
    induction es with
    | nil => exact fun _ h => h
    | cons e es ih => exact fun acc h => ih _ (sorted_insert h)
  exact step entries [] List.Pairwise.nil

end Entries

/-! ## Maps -/

/-- A finite map, stored as entries in strictly increasing key order. -/
structure SortedMap (α β : Type) [Ord α] where
  entries : List (α × β)
  sorted : Entries.Sorted entries

namespace SortedMap

variable {α β γ : Type} [Ord α]

@[ext]
theorem ext {m n : SortedMap α β} (h : m.entries = n.entries) : m = n := by
  cases m; cases n; simp_all

instance [DecidableEq α] [DecidableEq β] : DecidableEq (SortedMap α β) := fun m n =>
  decidable_of_iff (m.entries = n.entries) ⟨ext, fun h => h ▸ rfl⟩

def empty : SortedMap α β := ⟨[], List.Pairwise.nil⟩

instance : Inhabited (SortedMap α β) := ⟨empty⟩

instance : EmptyCollection (SortedMap α β) := ⟨empty⟩

/-- Entries in increasing key order. -/
def toList (m : SortedMap α β) : List (α × β) := m.entries

def keys (m : SortedMap α β) : List α := m.entries.map (·.1)

def values (m : SortedMap α β) : List β := m.entries.map (·.2)

def size (m : SortedMap α β) : Nat := m.entries.length

def isEmpty (m : SortedMap α β) : Bool := m.entries.isEmpty

def get? (m : SortedMap α β) (key : α) : Option β := Entries.find? key m.entries

def contains (m : SortedMap α β) (key : α) : Bool := (m.get? key).isSome

/-- The entry's value after the call is `value`; an entry already there is replaced. -/
def insert [Std.TransOrd α] (m : SortedMap α β) (key : α) (value : β) : SortedMap α β :=
  ⟨Entries.insert key value m.entries, Entries.sorted_insert m.sorted⟩

def erase (m : SortedMap α β) (key : α) : SortedMap α β :=
  ⟨Entries.erase key m.entries, m.sorted.filter _⟩

/-- Keeps the entries that satisfy `p`. -/
def filter (m : SortedMap α β) (p : α → β → Bool) : SortedMap α β :=
  ⟨m.entries.filter fun e => p e.1 e.2, m.sorted.filter _⟩

/-- Changes every value and no key. -/
def map (m : SortedMap α β) (f : β → γ) : SortedMap α γ :=
  ⟨m.entries.map fun e => (e.1, f e.2), by
    simpa [Entries.Sorted, List.pairwise_map] using m.sorted⟩

/-- Of two entries with one key the later one stays. -/
def ofList [Std.TransOrd α] (entries : List (α × β)) : SortedMap α β :=
  ⟨Entries.ofList entries, Entries.sorted_ofList entries⟩

end SortedMap

end Reconcile
