import LiveSpec.Run.State
import LiveSpec.Run.Table
import LiveSpec.Value.Matching

/-!
# Comparing a sequence with the rows of a table

The command `verifyRows` names a loop variable and a sequence, `#item : items()`. Each item takes
the first row that shows its key and is not taken yet; the commands of the header then run on that
row. An item without row gets one at the end of the table, and a row without item is left over.

The key is the value of the first command of the leftmost column with a command. Without such a
column it is the item itself, and the first cell of a row.

`Reconciliation` is the account of such a comparison: what became of each item (`Fate`), and which
rows were left over.
-/

namespace LiveSpec

open Markup (NodeId)

/-- The loop variable and the sequence of the expression of a `verifyRows`. -/
def splitBinding (expression : String) : Except EvaluationError (String × String) :=
  match Text.cutAt? ':' expression.toList with
  | none => .error (.syntaxFault expression "expected '#variable : expression'")
  | some (before, after) =>
    match Text.trim before with
    | '#' :: c :: rest => .ok (.ofList (c :: rest), .ofList (Text.trim after))
    | _ => .error (.syntaxFault expression "loop variable must start with '#'")

/-- What became of an item. -/
inductive Fate where
  /-- Its key had no value, which was recorded. -/
  | keyless
  /-- It took a row, and these calls ran on it. -/
  | shown (key : String) (row : NodeId) (calls : List Occurrence)
  /-- No row was left that shows it, and one was added. -/
  | missing (key : String) (row : NodeId)
deriving DecidableEq, Repr, Inhabited

/-- The account of a comparison: the rows of the table and the column of their keys, what became of
each item in order, and the rows that no item took. -/
structure Reconciliation where
  layout : TableLayout
  column : Nat
  fates : List Fate
  surplus : List NodeId
deriving DecidableEq, Repr

namespace Run

variable {φ : Type} [Fixture φ]

/-- The commands of the header, moved to the cells of a row. Each keeps its values in a slot of its
own. -/
def retarget (l : TableLayout) (columns : List Occurrence) (row : NodeId) :
    Run φ (List Occurrence) := do
  let placed ← find fun t => l.inRow t columns row
  placed.mapM fun (o, cell) => do return { o with element := cell, slot := ← freshSlot }

/-- The first row that has a key, and the others. -/
def takeRow (column : Nat) (key : String) : List NodeId → Run φ (Option NodeId × List NodeId)
  | [] => return (none, [])
  | row :: rest => do
    if (← find fun t => TableLayout.keyText t column row) = key then return (some row, rest)
    else
      let (found, others) ← takeRow column key rest
      return (found, row :: others)

/-- The key of an item: the value of the key column's command, or the item itself. None if there is
no value, which has been recorded. -/
def itemKey (env : Surroundings) (table : NodeId) (key? : Option (Nat × Occurrence))
    (item : Value) :
    Run φ (Option String) := do
  match key? with
  | some (_, o) => return (← evaluateAt env table o.expression).map fun v => Text.normal v.display
  | none => return some (Text.normal item.display)

/-- Adds a row for an item and records it as missing. -/
def addMissingRow (env : Surroundings) (l : TableLayout) (column : Nat) (key : String)
    (last : NodeId) :
    Run φ NodeId := do
  let row ← do
    let (row, t) ← find fun t => l.appendRow t last
    change fun _ => t
    pure row
  match (← find fun t => TableLayout.cells t row)[column]? with
  | some cell => change fun t => t.setText cell key
  | none => pure ()
  recordMissingRow env row key
  return row

/-- Gives each item its row, and says what became of it. The rows that no item has taken yet are
handed on, and the row after which the next missing one goes. What is left at the end are the
surplus rows. -/
def matchItems (env : Surroundings) (runRow : List Occurrence → Run φ Unit) (o : Occurrence)
    (columns : List Occurrence) (name : String) (l : TableLayout)
    (key? : Option (Nat × Occurrence)) :
    List Value → List NodeId → NodeId → Run φ (List Fate × List NodeId)
  | [], free, _ => return ([], free)
  | item :: items, free, last => do
    let column := (key?.map Prod.fst).getD 0
    bindVariable name item
    match ← itemKey env o.element key? item with
    | none => do
      let (fates, free) ← matchItems env runRow o columns name l key? items free last
      return (.keyless :: fates, free)
    | some key =>
      match ← takeRow column key free with
      | (some row, free) => do
        let calls ← retarget l columns row
        holding (calls.map Occurrence.element) (runRow calls)
        let (fates, free) ← matchItems env runRow o columns name l key? items free last
        return (.shown key row calls :: fates, free)
      | (none, _) => do
        let row ← addMissingRow env l column key last
        let (fates, free) ← matchItems env runRow o columns name l key? items free row
        return (.missing key row :: fates, free)

/-- Records the rows that no item took. -/
def recordSurplus (env : Surroundings) (column : Nat) : List NodeId → Run φ Unit
  | [] => return
  | row :: rest => do
    let key ← find fun t => TableLayout.keyText t column row
    recordSurplusRow env row key
    recordSurplus env column rest

/-- Evaluates the sequence and keeps it. -/
def produceItems (env : Surroundings) (o : Occurrence) : Run φ Unit := do
  match splitBinding o.expression with
  | .error e => recordException env o.element o.expression e
  | .ok (_, sequence) =>
    match ← evaluateAt env o.element sequence with
    | some (.array items) => do
      tell env.bus (.expressionEvaluated (← spot o.element) sequence items)
      keep o.slot (.array items)
    | some other => recordException env o.element sequence (.mismatch sequence "array" other)
    | none => pure ()

/-- Compares a sequence with the rows of the table. -/
def reconcile (env : Surroundings) (runRow : List Occurrence → Run φ Unit) (o : Occurrence)
    (columns : List Occurrence) (name : String) (items : List Value) : Run φ Reconciliation := do
  let l ← find fun t => TableLayout.of t o.element (columns.head?.map Occurrence.element)
  holding (l.header :: l.rows) do
    let key? ← find fun t => l.keyColumn? t columns
    let column := (key?.map Prod.fst).getD 0
    let (fates, free) ← matchItems env runRow o columns name l key? items l.rows
        (l.rows.getLastD l.header)
    recordSurplus env column free
    return ⟨l, column, fates, free⟩

/-- Compares the kept sequence with the rows of the table. -/
def compareRows (env : Surroundings) (runRow : List Occurrence → Run φ Unit) (o : Occurrence)
    (columns : List Occurrence) : Run φ Unit := do
  match ← kept? o.slot, splitBinding o.expression with
  | some (.array items), .ok (name, _) => do
    let _ ← reconcile env runRow o columns name items
  | _, _ => pure ()

end Run
end LiveSpec
