import LiveSpec.Run.Commands

/-!
# The three phases

Each phase passes over all calls before the next one begins. Preparing and executing go from a call
to the calls inside it, comparing goes from the calls inside to the call around them. A command that
owns the calls inside it decides itself when they run.

A row of a table passes through all three phases at once. Its calls have no calls inside them.
-/

namespace LiveSpec

namespace Run

variable {φ : Type} [Fixture φ]

/-- A phase of a call: what the command does, and the calls inside unless it owns them. -/
def step (env : Surroundings) (runRow : List Occurrence → Run φ Unit → Run φ Unit) (o : Occurrence)
    (columns : List Occurrence) (inside : Inside φ) (p : Phase) : Run φ Unit := do
  let own := act env runRow o columns inside p
  if o.command.owns (!columns.isEmpty) then own
  else
    match p with
    | .verify => do
      inside.phase p
      own
    | p => do
      own
      inside.phase p

/-- A phase of a call that has no calls inside it, and so no rows to run them on. -/
def stepAlone (env : Surroundings) (p : Phase) (o : Occurrence) : Run φ Unit :=
  step env (fun _ between => between) o [] .none p

/-- Runs the calls of a row through all three phases; what binds variables executes before
`between`, the rest after it. -/
def runRow (env : Surroundings) (calls : List Occurrence) (between : Run φ Unit) : Run φ Unit := do
  calls.forM (stepAlone env .setup)
  (calls.filter fun o => o.command.binds).forM (stepAlone env .execute)
  between
  (calls.filter fun o => !o.command.binds).forM (stepAlone env .execute)
  calls.forM (stepAlone env .verify)

mutual
/-- Runs a phase of a call and of the calls inside it. -/
def runCall (env : Surroundings) (p : Phase) : Call → Run φ Unit
  | .mk o inside =>
    step env (runRow env) o (inside.map Call.head)
      ⟨fun p => runCalls env p inside, fun b => runBinding env b inside⟩ p
/-- Runs a phase of several calls, in order. -/
def runCalls (env : Surroundings) (p : Phase) : List Call → Run φ Unit
  | [] => pure ()
  | c :: cs => do
    runCall env p c
    runCalls env p cs
/-- Executes those of several calls that bind variables, or the others. -/
def runBinding (env : Surroundings) (binding : Bool) : List Call → Run φ Unit
  | [] => pure ()
  | c :: cs => do
    if c.head.command.binds == binding then runCall env .execute c
    runBinding env binding cs
end

/-- Runs all phases of all calls. -/
def runGraph (env : Surroundings) (g : CallGraph) : Run φ Unit := do
  runCalls env .setup g.roots
  runCalls env .execute g.roots
  runCalls env .verify g.roots

end Run
end LiveSpec
