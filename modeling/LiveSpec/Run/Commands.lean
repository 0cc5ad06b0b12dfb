import LiveSpec.Run.Rows

/-!
# What each command does

A command acts at its element in each phase. What it needs of the calls inside it is handed to it:
how to run a phase over them, and how to execute those that bind variables or the others.

An error of evaluation is recorded and the run goes on; only a listener that refuses and a tree that
lacks what is needed end it.
-/

namespace LiveSpec

open Markup (NodeId)

/-- How the calls inside a call are run. -/
structure Inside (φ : Type) where
  /-- Runs a phase over them. -/
  phase : Phase → Run φ Unit
  /-- Executes those that bind variables, or the others. -/
  binding : Bool → Run φ Unit

/-- The inside of a call without calls inside it. -/
def Inside.none {φ : Type} : Inside φ := ⟨fun _ => pure (), fun _ => pure ()⟩

namespace Run

variable {φ : Type} [Fixture φ]

/-- Executes what binds variables, then `between`, then the rest. -/
def bindingFirst (inside : Inside φ) (between : Run φ Unit) : Run φ Unit := do
  inside.binding true
  between
  inside.binding false

/-- Evaluates the expression of an `execute` for an element. -/
def executeAt (env : Surroundings) (o : Occurrence) (n : NodeId) : Run φ Unit := do
  match ← evaluateAt env n o.expression with
  | some v => keep o.slot v
  | none => pure ()
  tell env.bus (.executeCompleted (← spot n) o.expression)

/-- Executes the rows of a table one after the other. -/
def executeRows (env : Surroundings) (runRow : List Occurrence → Run φ Unit → Run φ Unit)
    (o : Occurrence) (columns : List Occurrence) (l : TableLayout) : List NodeId → Run φ Unit
  | [] => return
  | row :: rest => do
    let calls ← retarget l columns row
    holding (calls.map Occurrence.element) (runRow calls (executeAt env o row))
    executeRows env runRow o columns l rest

/-- Applies the commands of the header to each row of the table. -/
def executeTable (env : Surroundings) (runRow : List Occurrence → Run φ Unit → Run φ Unit)
    (o : Occurrence) (columns : List Occurrence) : Run φ Unit := do
  let l ← find fun t => TableLayout.of t o.element (columns.head?.map Occurrence.element)
  holding (l.header :: l.rows) (executeRows env runRow o columns l l.rows)

/-- Says whether an `execute` applies the commands of a header to the rows of a table. -/
def isTableDriven (t : Markup.Tree) (o : Occurrence) (columns : List Occurrence) : Bool :=
  t.isNamed o.element "table" && !columns.isEmpty

/-- The phases of `assertEquals`: evaluate, then compare with the text. -/
def assertEquals (env : Surroundings) (o : Occurrence) : Phase → Run φ Unit
  | .setup => pure ()
  | .execute => do
    match ← evaluateAt env o.element o.expression with
    | some v => keep o.slot v
    | none => pure ()
  | .verify => do
    match ← kept? o.slot with
    | none => pure ()
    | some actual => do
      let expected := Text.normal (← look fun t => t.text o.element)
      if actual.confirms expected then recordSuccess env o.element
      else recordFailure env o.element expected actual.describe

/-- The text of a truth value. -/
def truthText (b : Bool) : String := if b then "true" else "false"

/-- The phases of `assertTrue` and `assertFalse`. A value of another kind is an exception. -/
def assertBoolean (env : Surroundings) (expected : Bool) (o : Occurrence) : Phase → Run φ Unit
  | .setup => pure ()
  | .execute => do
    match ← evaluateAt env o.element o.expression with
    | some (.bool b) => keep o.slot (.bool b)
    | some other =>
      recordException env o.element o.expression (.mismatch o.expression "boolean" other)
    | none => pure ()
  | .verify => do
    match ← kept? o.slot with
    | some (.bool actual) =>
      if actual = expected then recordSuccess env o.element
      else recordFailure env o.element (truthText expected) (truthText actual)
    | _ => pure ()

/-- The phases of `echo`. The absent value, an unbound variable and a missing property all leave no
text. -/
def echo (env : Surroundings) (o : Occurrence) : Phase → Run φ Unit
  | .execute => do
    bindElement o.element
    match ← evaluate o.expression with
    | .ok v => do
      change fun t => t.setText o.element v.display
      tidy
    | .error e =>
      if e.isAbsent then do
        change fun t => t.setText o.element ""
        tidy
      else recordException env o.element o.expression e
  | _ => pure ()

/-- The phases of `set`. -/
def setTarget (env : Surroundings) (o : Occurrence) : Phase → Run φ Unit
  | .execute => do
    let text := Text.normal (← look fun t => t.text o.element)
    bindElement o.element
    match ← assign o.expression (.string text) with
    | .ok () => pure ()
    | .error e => recordException env o.element o.expression e
  | _ => pure ()

/-- The phases of `run`: ask for the nested run, then compare its verdict. -/
def runLinked (env : Surroundings) (o : Occurrence) : Phase → Run φ Unit
  | .setup => pure ()
  | .execute => do
    match ← look fun t => t.attribute? o.element "href" with
    | none =>
      recordException env o.element o.expression
        (.syntaxFault o.expression "run requires an href attribute")
    | some href => do
      let request : RunRequest :=
        ⟨env.fixtureName, env.resource.resolve href, href, env.context.depth + 1⟩
      let verdict ←
        if request.depth > env.maxDepth then
          pure (.error (.depthExceeded request.depth env.maxDepth))
        else inWorld (env.nested o.expression request)
      match verdict with
      | .ok v => keep o.slot (.string v.word)
      | .error (.aborted cause) => throw cause
      | .error e => recordException env o.element o.expression (e.toEvaluationError o.expression)
  | .verify => do
    match ← kept? o.slot with
    | some (.string actual) => do
      let expectedText :=
        (← look fun t => t.namespacedAttribute? o.element o.key.ns "expected").getD
        Verdict.success.word
      match Verdict.read? expectedText with
      | none =>
        recordException env o.element o.expression
          (.syntaxFault expectedText "expected must be one of success, failure, exception")
      | some expected =>
        if expected.word = actual then recordSuccess env o.element
        else recordFailure env o.element expected.word actual
    | _ => pure ()

/-- The phases of `execute`. On a table the commands of the header are applied to each row;
elsewhere the calls inside that bind variables come before the expression, the others after it. Its
own part in a phase is the expression; it comes before the calls inside when preparing and after
them when comparing. -/
def executeCommand (env : Surroundings) (runRow : List Occurrence → Run φ Unit → Run φ Unit)
    (o : Occurrence) (columns : List Occurrence) (inside : Inside φ) (p : Phase) : Run φ Unit := do
  if isTableDriven (← get).tree o columns then
    visit p o (if p = .execute then executeTable env runRow o columns else pure ())
  else
    match p with
    | .setup => do
      visit .setup o (pure ())
      inside.phase .setup
    | .execute => bindingFirst inside (visit .execute o (executeAt env o o.element))
    | .verify => do
      inside.phase .verify
      visit .verify o (pure ())

/-- The phases of `verifyRows`. -/
def verifyRows (env : Surroundings) (runRow : List Occurrence → Run φ Unit → Run φ Unit)
    (o : Occurrence) (columns : List Occurrence) : Phase → Run φ Unit
  | .setup => pure ()
  | .execute => produceItems env o
  | .verify => compareRows env (fun calls => runRow calls (pure ())) o columns

/-- What a probe does beside logging. -/
def probeAct (env : Surroundings) (o : Occurrence) (inside : Inside φ) (p : Phase) :
    ProbeAct → Run φ Unit
  | .success => recordSuccess env o.element
  | .failure => recordFailure env o.element "probe-expected" "probe-actual"
  | .evaluate => do
    match ← evaluateAt env o.element o.expression with
    | some v => do
      log (.value v)
      keep o.slot v
    | none => pure ()
  | .remove => do
    attempt fun t => t.remove o.element
    tidy
  | .drive => inside.phase p
  | .rows => do
    inside.phase .setup
    bindingFirst inside (log .between)
    inside.phase .verify
  | .describe => do log (.described ((← get).scope.describe o.expression))

/-- The phases of a probe. -/
def probePhase (env : Surroundings) (probe : Probe) (o : Occurrence) (inside : Inside φ)
    (p : Phase) :
    Run φ Unit := do
  let report : ProbeReport :=
    ⟨probe.name, p, o.id, o.expression, ← spot o.element, env.context, env.fixtureName,
      env.resource.path,
      (← get).scope.bindings.find? "TEXT"⟩
  log (.probed report)
  match probe.act with
  | some (p', act) => if p' = p then probeAct env o inside p act else pure ()
  | none => pure ()

/-- What a command itself does in a phase. -/
def act (env : Surroundings) (runRow : List Occurrence → Run φ Unit → Run φ Unit) (o : Occurrence)
    (columns : List Occurrence) (inside : Inside φ) (p : Phase) : Run φ Unit :=
  match o.command with
  | .assertEquals => visit p o (assertEquals env o p)
  | .assertBoolean expected => visit p o (assertBoolean env expected o p)
  | .echo => visit p o (echo env o p)
  | .execute => executeCommand env runRow o columns inside p
  | .set => visit p o (setTarget env o p)
  | .run => visit p o (runLinked env o p)
  | .verifyRows => visit p o (verifyRows env runRow o columns p)
  | .inert => visit p o (pure ())
  | .probe probe => visit p o (probePhase env probe o inside p)

end Run
end LiveSpec
