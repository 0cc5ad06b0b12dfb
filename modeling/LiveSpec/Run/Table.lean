import LiveSpec.Command.Call
import LiveSpec.Markup.Document

/-!
# Tables that drive commands

A command on a table applies the commands in its header row to the rows below. The header row is the
row that the first of these commands stands in, or the first row if there is none; the rows below
are all later ones. A command of the header belongs to the column of the cell that it stands in.
-/

namespace LiveSpec

open Markup (NodeId Tree TreeError)

/-- The header row of a table and the rows after it. -/
structure TableLayout where
  header : NodeId
  rows : List NodeId
deriving DecidableEq, Repr

namespace TableLayout

/-- The cells of a row. -/
def cells (t : Tree) (row : NodeId) : Except TreeError (List NodeId) := do
  return (← t.childElements row).filter fun c => t.isNamed c "th" || t.isNamed c "td"

/-- Says whether an element lies in another or is the same, at most `fuel` levels up. -/
def isWithin (t : Tree) (outer : NodeId) : Nat → NodeId → Bool
  | 0, _ => false
  | fuel + 1, n =>
    n == outer ||
      match t.parent? n with
      | .ok (some p) => isWithin t outer fuel p
      | _ => false

/-- The layout of a table whose first command stands at `first`. -/
def of (t : Tree) (table : NodeId) (first : Option NodeId) : Except TreeError TableLayout := do
  let all ← t.descendants table "tr"
  let position :=
    match first with
    | some n => (all.findIdx? fun row => isWithin t row (t.nodes.size + 1) n).getD 0
    | none => 0
  match all.drop position with
  | header :: rows => return ⟨header, rows⟩
  | [] => throw (.missing "tr")

/-- The column of the header cell that an element stands in, at most `fuel` levels up. -/
def columnWithin (t : Tree) (header : NodeId) : Nat → NodeId → Except TreeError (Option Nat)
  | 0, _ => .ok none
  | fuel + 1, n => do
    match ← t.parent? n with
    | none => return none
    | some p =>
      if p = header then return (← cells t header).findIdx? (· == n) else
        columnWithin t header fuel p

/-- The column that a command of the header belongs to. -/
def column? (l : TableLayout) (t : Tree) (n : NodeId) : Except TreeError (Option Nat) :=
  columnWithin t l.header (t.nodes.size + 1) n

/-- The commands of the header that have a cell in a row, with that cell. -/
def inRow (l : TableLayout) (t : Tree) (columns : List Occurrence) (row : NodeId) :
    Except TreeError (List (Occurrence × NodeId)) := do
  let rowCells ← cells t row
  let placed ← columns.mapM fun o => do
    let column ← l.column? t o.element
    return (column.bind fun i => rowCells[i]?).map fun cell => (o, cell)
  return placed.filterMap id

/-- The leftmost column with a command, and the first command of it. -/
def keyColumn? (l : TableLayout) (t : Tree) (columns : List Occurrence) :
    Except TreeError (Option (Nat × Occurrence)) :=
  columns.foldlM (fun best o => do
    match best, ← l.column? t o.element with
    | best, none => return best
    | none, some i => return some (i, o)
    | some (k, o'), some i => return if k ≤ i then some (k, o') else some (i, o)) none

/-- The text that a row is known by: that of its cell in a column, empty if it lacks the cell. -/
def keyText (t : Tree) (column : Nat) (row : NodeId) : Except TreeError String := do
  return ((← cells t row)[column]?.map fun c => Text.normal (t.text c)).getD ""

/-- Adds empty cells to a row. -/
def addCells (row : NodeId) : Nat → Tree → Except TreeError Tree
  | 0, t => .ok t
  | count + 1, t => do
    let (cell, t) := t.newElement "td"
    addCells row count (← t.appendChild row cell)

/-- Adds a row after another, with as many empty cells as the header has. -/
def appendRow (l : TableLayout) (t : Tree) (after : NodeId) : Except TreeError (NodeId × Tree) := do
  let (row, t) := t.newElement "tr"
  let t ← addCells row (← cells t l.header).length t
  return (row, ← t.insertAfter after row)

end TableLayout
end LiveSpec
