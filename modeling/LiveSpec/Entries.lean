/-!
# Named entries

A list of entries in the order of their names, each name at most once. Objects, variables and the
members of a fixture are kept this way, so that what is printed does not depend on the order in
which it was entered. `find?_put` says what a write changes.
-/

namespace LiveSpec

/-- Entries by name. -/
abbrev Entries (α : Type) := List (String × α)

namespace Entries

variable {α : Type}

/-- The entry of a name. -/
def find? (name : String) : Entries α → Option α
  | [] => none
  | (n, a) :: rest => if n = name then some a else find? name rest

/-- Writes an entry: over the one of the same name, else where its name belongs. -/
def put (name : String) (a : α) : Entries α → Entries α
  | [] => [(name, a)]
  | (n, b) :: rest =>
    if n = name then (name, a) :: rest
    else if name < n then (name, a) :: (n, b) :: rest
    else (n, b) :: put name a rest

/-- Says whether there is an entry of a name. -/
def has (name : String) (es : Entries α) : Bool := (es.find? name).isSome

/-- The names, in order. -/
def names (es : Entries α) : List String := es.map Prod.fst

/-- Entries from pairs; of a repeated name the last one stays. -/
def ofPairs (pairs : List (String × α)) : Entries α :=
  pairs.foldl (fun es (n, a) => es.put n a) []

/-- A write is read back, and changes no other entry. -/
theorem find?_put (name other : String) (a : α) (es : Entries α) :
    (es.put name a).find? other = if name = other then some a else es.find? other := by
  induction es with
  | nil => simp [put, find?]
  | cons e rest ih =>
    obtain ⟨n, b⟩ := e
    unfold put
    split
    · next hn => subst hn; by_cases h : n = other <;> simp [find?, h]
    · next hn =>
      split
      · simp [find?]
      · by_cases h : n = other
        · subst h; simp [find?, Ne.symm hn]
        · simp [find?, h, ih]

end Entries
end LiveSpec
