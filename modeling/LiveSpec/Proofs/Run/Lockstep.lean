import LiveSpec.Engine
import LiveSpec.Proofs.Run.Parts

/-!
# Two runs side by side

Two runs of the same calls, in surroundings that differ in who listens and in how nested runs are
run, are put together from the same parts in the same order. `Lockstep` says what a relation between
the parts of two runs needs: that it is kept by putting parts together, and that it holds of the few
parts that everything is made of. It then holds of what each command does, of each phase of a call,
and of the whole run (`Lockstep.runGraph`, `Lockstep.pipeline`).

Of the parts, reporting an outcome stands for all five kinds of it (`Run.report`): the outcome is
added to the record, and the event of it is told. A relation that looks at one run alone is one
between a run and itself.
-/

namespace LiveSpec

open Markup (NodeId Tree TreeError)

/-! ## Outcomes, and the events of them -/

/-- Records an outcome. -/
def Record.add (r : Record) (x : Recorded) : Record :=
  match x.outcome with
  | .success => r.success x.element
  | .failure expected actual => r.failure x.element expected actual
  | .exception expression error => r.exception x.element expression error
  | .missingRow expected => r.missingRow x.element expected
  | .surplusRow actual => r.surplusRow x.element actual

/-- Whatever is recorded comes last in the list of outcomes. -/
theorem Record.outcomes_add (r : Record) (x : Recorded) :
    (r.add x).outcomes = r.outcomes ++ [x] := by
  obtain ⟨n, outcome⟩ := x
  cases outcome <;> rfl

/-- The event that tells of an outcome, at an element as it looks at that moment. -/
def Recorded.event (x : Recorded) (shown : Spot) : Event :=
  match x.outcome with
  | .success => .successReported shown
  | .failure expected actual => .failureReported shown expected actual
  | .exception expression error => .exceptionCaught shown expression error
  | .missingRow expected => .missingRow shown expected
  | .surplusRow actual => .surplusRow shown actual

/-- The outcome that an event tells of. -/
def Event.outcome? : Event → Option Recorded
  | .successReported s => some ⟨s.node, .success⟩
  | .failureReported s expected actual => some ⟨s.node, .failure expected actual⟩
  | .exceptionCaught s expression error => some ⟨s.node, .exception expression error⟩
  | .missingRow s expected => some ⟨s.node, .missingRow expected⟩
  | .surplusRow s actual => some ⟨s.node, .surplusRow actual⟩
  | _ => none

/-- The request of an entry of the log. -/
def LogEntry.requested? : LogEntry → Option RunRequest
  | .requested r => some r
  | _ => none

/-- All requests for nested runs whose documents were read, in order. -/
def World.requests (w : World) : List RunRequest := w.log.filterMap LogEntry.requested?

/-- Outcomes are told of once the document is parsed. -/
theorem Recorded.event_not_parsing (x : Recorded) (shown : Spot) :
    (x.event shown).channel ≠ .parsing := by
  unfold Recorded.event
  cases x.outcome <;> exact nofun

/-- An outcome can be read off the event that reports it. -/
theorem Recorded.outcome?_event (x : Recorded) (shown : String) :
    (x.event ⟨x.element, shown⟩).outcome? = some x := by
  obtain ⟨n, outcome⟩ := x
  cases outcome <;> rfl

variable {φ : Type}

/-- Says that a run can make a request: in the name of its fixture and for one level below it, if
that is not too deep, and for a document that a link in its own one leads to. -/
structure Surroundings.Asks (env : Surroundings) (request : RunRequest) : Prop where
  caller : request.caller = env.fixtureName
  depth : request.depth = env.context.depth + 1
  allowed : request.depth ≤ env.maxDepth
  linked : ∃ link, request.resource = env.resource.resolve link

/-- A state in another world, in which listeners heard something else. -/
def RunState.amid (s : RunState φ) (w : World) (heard : List (Nat × Event)) : RunState φ :=
  { s with heard := heard, world := w }

/-- Two states that differ in neither the record, nor what listeners heard, nor the world. -/
structure Inner (s s' : RunState φ) : Prop where
  record : s'.record = s.record
  heard : s'.heard = s.heard
  world : s'.world = s.world

namespace Run

/-- Records an outcome and tells of it. -/
def report (env : Surroundings) (x : Recorded) : Run φ Unit := do
  note fun r => r.add x
  tell env.bus (x.event (← spot x.element))

/-- Asks for a nested run. If that one was ended by an error, so is this one. -/
def ask (env : Surroundings) (name : String) (request : RunRequest) :
    Run φ (Except RunnerError Verdict) := do
  match ← inWorld (env.nested name request) with
  | .error (.aborted cause) => throw cause
  | verdict => return verdict

/-- Where an ended nested run ends the asking run, it makes no difference when that is seen to. -/
theorem ask_bind {α : Type} {env : Surroundings} {name : String} {request : RunRequest}
    {f : Except RunnerError Verdict → Run φ α}
    (hf : ∀ cause, f (.error (.aborted cause)) = throw cause) :
    inWorld (env.nested name request) >>= f = ask env name request >>= f := by
  unfold ask
  rw [bind_assoc]
  refine bind_congr fun verdict => ?_
  rcases verdict with e | v
  · cases e with
    | aborted cause => exact hf cause
    | _ => rfl
  · rfl

/-- The answer of a nested run as the asking run gets it: what ended that one ends this one. -/
def relayed : Except RunnerError Verdict → Except Error (Except RunnerError Verdict)
  | .error (.aborted cause) => .error cause
  | verdict => .ok verdict

/-- What is done in the world beside a run changes nothing else of its state. -/
theorem result_inWorld {α : Type} {part : StateM World α} {s : RunState φ} :
    (inWorld part : Run φ α).result s =
    (.ok (part.run s.world).1, { s with world := (part.run s.world).2 }) := rfl

/-- A request for a nested run changes the world alone. -/
theorem result_ask {env : Surroundings} {name : String} {request : RunRequest} {s : RunState φ} :
    (ask env name request).result s = (relayed ((env.nested name request).run s.world).1,
      { s with world := ((env.nested name request).run s.world).2 }) := by
  unfold ask
  rw [result_bind, result_inWorld]
  dsimp only
  rcases (env.nested name request).run s.world with ⟨e | v, w⟩
  · cases e <;> rfl
  · rfl

/-- A slot is taken by a change of the state that is the run's own. -/
theorem freshSlot_eq : (freshSlot : Run φ Nat) = (do
    let s ← get
    modify fun s => { s with nextSlot := s.nextSlot + 1 }
    return s.nextSlot) := ext fun _ => rfl

end Run

/-- What a relation between the parts of two runs needs in order to hold of the runs as a whole. -/
structure Lockstep (i i' : Fixture φ) (env env' : Surroundings)
    (R : (α : Type) → Run φ α → Run φ α → Prop) :
    Prop where
  resource : env'.resource = env.resource
  fixtureName : env'.fixtureName = env.fixtureName
  context : env'.context = env.context
  maxDepth : env'.maxDepth = env.maxDepth
  name : @Fixture.name φ i' = @Fixture.name φ i
  pure {α : Type} (a : α) : R α (pure a) (pure a)
  bind {α β : Type} {x y : Run φ α} {f g : α → Run φ β} : R α x y → (∀ a, R β (f a) (g a)) →
    R β (x >>= f) (y >>= g)
  throw {α : Type} (e : Error) : R α (throw e) (throw e)
  /-- Of the state, a run looks at what is its own. -/
  getting {α : Type} {x y : RunState φ → Run φ α} : (∀ s, R α (x s) (y s)) →
    (∀ s w heard, x (s.amid w heard) = x s) →
    (∀ s w heard, y (s.amid w heard) = y s) → R α (get >>= x) (get >>= y)
  /-- A run changes what is its own, whatever world is around it. -/
  modify {f : RunState φ → RunState φ} :
    (∀ s, Inner s (f s) ∧ ∀ w heard, f (s.amid w heard) = (f s).amid w heard) →
    R PUnit (modify f) (modify f)
  log {entry : LogEntry} : entry.heard? = none → entry.requested? = none →
    R Unit (Run.log entry) (Run.log entry)
  evaluate (source : String) : R _ (@Run.evaluate φ i source) (@Run.evaluate φ i' source)
  assign (source : String) (v : Value) : R _ (@Run.assign φ i source v) (@Run.assign φ i' source v)
  tell {e : Event} : e.outcome? = none → R Unit (Run.tell env.bus e) (Run.tell env'.bus e)
  report (x : Recorded) : R Unit (Run.report env x) (Run.report env' x)
  ask (name : String) {request : RunRequest} : env.Asks request →
    R _ (Run.ask env name request) (Run.ask env' name request)

namespace Lockstep

open Run

variable {i i' : Fixture φ} {env env' : Surroundings} {R : (α : Type) → Run φ α → Run φ α → Prop}
  {n : NodeId} {o : Occurrence} {p : Phase} {α β : Type}
  (h : Lockstep i i' env env' R)
include h

/-! ## Small parts -/

/-- Two sides that read the tree read the same off it. -/
theorem look {f : Tree → α} : R α (Run.look f) (Run.look f) := h.getting (fun _ => h.pure _)
    (fun _ _ _ => rfl) fun _ _ _ => rfl

/-- Neither side finds what the other one misses. -/
theorem find {f : Tree → Except TreeError α} : R α (Run.find f) (Run.find f) := by
  refine h.getting (fun s => ?_) (fun _ _ _ => rfl) fun _ _ _ => rfl
  split
  · exact h.pure _
  · exact h.throw _

theorem change {f : Tree → Tree} : R Unit (Run.change f) (Run.change f) :=
  h.modify fun _ => ⟨⟨rfl, rfl, rfl⟩, fun _ _ => rfl⟩

theorem attempt {f : Tree → Except TreeError Tree} : R Unit (Run.attempt f) (Run.attempt f) :=
  h.bind h.find fun _ => h.change

theorem spot : R Spot (Run.spot n) (Run.spot n) := h.look

/-- The visit of a call is noted on both sides, and then its parts go in step. -/
theorem visit {x y : Run φ Unit} (hxy : R Unit x y) : R Unit (Run.visit p o x) (Run.visit p o y) :=
  h.bind (h.modify fun _ => ⟨⟨rfl, rfl, rfl⟩, fun _ _ => rfl⟩) fun _ => hxy

/-- Values are kept in the same slots. -/
theorem keep {slot : Nat} {v : Value} : R Unit (Run.keep slot v) (Run.keep slot v) :=
  h.modify fun _ => ⟨⟨rfl, rfl, rfl⟩, fun _ _ => rfl⟩

theorem kept? {slot : Nat} : R (Option Value) (Run.kept? slot) (Run.kept? slot) := h.getting
    (fun _ => h.pure _) (fun _ _ _ => rfl) fun _ _ _ => rfl

/-- Both sides take the same slot. -/
theorem freshSlot : R Nat Run.freshSlot Run.freshSlot := by
  rw [freshSlot_eq]
  exact h.getting (fun _ => h.bind (h.modify fun _ => ⟨⟨rfl, rfl, rfl⟩, fun _ _ => rfl⟩)
    fun _ => h.pure _)
    (fun _ _ _ => rfl) fun _ _ _ => rfl

/-- What nobody holds is let go on both sides. -/
theorem tidy : R Unit Run.tidy Run.tidy := h.modify fun _ => ⟨⟨rfl, rfl, rfl⟩, fun _ _ => rfl⟩

/-- Parts that go in step also do so while elements are held. -/
theorem holding {ns : List NodeId} {x y : Run φ α} (hxy : R α x y) :
    R α (Run.holding ns x) (Run.holding ns y) :=
  h.getting (fun _ => h.bind (h.modify fun _ => ⟨⟨rfl, rfl, rfl⟩, fun _ _ => rfl⟩) fun _ =>
    h.bind hxy fun _ =>
    h.bind (h.modify fun _ => ⟨⟨rfl, rfl, rfl⟩, fun _ _ => rfl⟩) fun _ =>
      h.bind h.tidy fun _ => h.pure _)
    (fun _ _ _ => rfl) fun _ _ _ => rfl

/-- Parts of a list, one after the other. -/
theorem forM {xs : List β} {f g : β → Run φ PUnit} (hfg : ∀ x, R PUnit (f x) (g x)) :
    R PUnit (xs.forM f) (xs.forM g) := by
  induction xs with
  | nil => exact h.pure _
  | cons x xs ih => exact h.bind (hfg x) fun _ => ih

/-- Lists are gone through in step if each entry is. -/
theorem mapM {xs : List β} {f g : β → Run φ α} (hfg : ∀ x, R α (f x) (g x)) :
    R (List α) (xs.mapM f) (xs.mapM g) := by
  induction xs with
  | nil => exact h.pure _
  | cons x xs ih =>
    rw [List.mapM_cons, List.mapM_cons]
    exact h.bind (hfg x) fun _ => h.bind ih fun _ => h.pure _

/-! ## Evaluating and reporting -/

theorem bindVariable {name : String} {v : Value} :
    R Unit (Run.bindVariable name v) (Run.bindVariable name v) :=
  h.modify fun _ => ⟨⟨rfl, rfl, rfl⟩, fun _ _ => rfl⟩

/-- The variables of an element are bound on both sides. -/
theorem bindElement : R Unit (Run.bindElement n) (Run.bindElement n) :=
  h.bind h.look fun _ => h.bind h.bindVariable fun _ => h.bind h.look fun _ => h.bindVariable

/-- A success is recorded on both sides and told to both buses. -/
theorem success : R Unit (recordSuccess env n) (recordSuccess env' n) := h.report ⟨n, .success⟩

/-- So is a failure, with the same texts. -/
theorem failure {expected actual : String} :
    R Unit (recordFailure env n expected actual) (recordFailure env' n expected actual) :=
  h.report ⟨n, .failure expected actual⟩

/-- And an exception, with the same error. -/
theorem exception {expression : String} {error : EvaluationError} :
    R Unit (recordException env n expression error) (recordException env' n expression error) :=
  h.report ⟨n, .exception expression error⟩

/-- A row that is missing is recorded on both sides. -/
theorem missingRow {expected : String} :
    R Unit (recordMissingRow env n expected) (recordMissingRow env' n expected) :=
  h.report ⟨n, .missingRow expected⟩

/-- A row that is left over is recorded on both sides. -/
theorem surplusRow {actual : String} :
    R Unit (recordSurplusRow env n actual) (recordSurplusRow env' n actual) :=
  h.report ⟨n, .surplusRow actual⟩

/-- A comparison of two values, the result of which is reported. -/
theorem verdict {q : Prop} [Decidable q] {expected actual : String} :
    R Unit (if q then recordSuccess env n else recordFailure env n expected actual)
      (if q then recordSuccess env' n else recordFailure env' n expected actual) := by
  split
  · exact h.success
  · exact h.failure

/-- An evaluation at an element, and the exception that it may leave. -/
theorem evaluateAt {source : String} :
    R _ (@Run.evaluateAt φ i env n source) (@Run.evaluateAt φ i' env' n source) := by
  refine h.bind h.bindElement fun _ => h.bind (h.evaluate source) fun answer => ?_
  cases answer with
  | ok v => exact h.pure _
  | error e => exact h.bind h.exception fun _ => h.pure _

/-- A value that is kept if there is one. -/
theorem keepSome {slot : Nat} {v? : Option Value} :
    R Unit (match v? with | some v => Run.keep slot v | none => Pure.pure ())
      (match v? with | some v => Run.keep slot v | none => Pure.pure ()) := by
  cases v? with
  | some v => exact h.keep
  | none => exact h.pure _

/-- The expression of an `execute`, evaluated for an element. -/
theorem executeAt : R _ (@Run.executeAt φ i env o n) (@Run.executeAt φ i' env' o n) := by
  have hdone : R Unit (do Run.tell env.bus (.executeCompleted (← Run.spot n) o.expression))
      (do Run.tell env'.bus (.executeCompleted (← Run.spot n) o.expression)) :=
    h.bind h.spot fun _ => h.tell rfl
  refine h.bind h.evaluateAt fun v? => ?_
  cases v? with
  | some v => exact h.bind h.keep fun _ => hdone
  | none => exact hdone

/-! ## What each command does at its element -/

/-- The phases of `assertEquals` go in step, and so do those of the commands that follow. -/
theorem assertEquals : R _ (@Run.assertEquals φ i env o p) (@Run.assertEquals φ i' env' o p) := by
  cases p with
  | setup => exact h.pure _
  | execute => exact h.bind h.evaluateAt fun _ => h.keepSome
  | verify =>
    refine h.bind h.kept? fun v? => ?_
    cases v? with
    | none => exact h.pure _
    | some v => exact h.bind h.look fun _ => h.verdict

theorem assertBoolean {expected : Bool} :
    R _ (@Run.assertBoolean φ i env expected o p) (@Run.assertBoolean φ i' env' expected o p) := by
  cases p with
  | setup => exact h.pure _
  | execute =>
    refine h.bind h.evaluateAt fun v? => ?_
    split
    · exact h.keep
    · exact h.exception
    · exact h.pure _
  | verify =>
    refine h.bind h.kept? fun v? => ?_
    split
    · exact h.verdict
    · exact h.pure _

theorem echo : R _ (@Run.echo φ i env o p) (@Run.echo φ i' env' o p) := by
  cases p with
  | setup => exact h.pure _
  | execute =>
    refine h.bind h.bindElement fun _ => h.bind (h.evaluate _) fun answer => ?_
    cases answer with
    | ok v => exact h.bind h.change fun _ => h.tidy
    | error e =>
      dsimp only
      split
      · exact h.bind h.change fun _ => h.tidy
      · exact h.exception
  | verify => exact h.pure _

theorem setTarget : R _ (@Run.setTarget φ i env o p) (@Run.setTarget φ i' env' o p) := by
  cases p with
  | setup => exact h.pure _
  | execute =>
    refine h.bind h.look fun _ => h.bind h.bindElement fun _ =>
      h.bind (h.assign _ _) fun answer => ?_
    cases answer with
    | ok _ => exact h.pure _
    | error e => exact h.exception
  | verify => exact h.pure _

theorem runLinked : R Unit (Run.runLinked env o p) (Run.runLinked env' o p) := by
  cases p with
  | setup => exact h.pure _
  | execute =>
    refine h.bind h.look fun href? => ?_
    cases href? with
    | none => exact h.exception
    | some href =>
      dsimp only
      rw [h.fixtureName, h.resource, h.context, h.maxDepth]
      split
      · exact h.exception
      · next hallowed =>
        rw [ask_bind fun _ => rfl, ask_bind fun _ => rfl]
        refine h.bind (h.ask _ ⟨rfl, rfl, Nat.le_of_not_lt hallowed, href, rfl⟩) fun verdict => ?_
        split
        · exact h.keep
        · exact h.throw _
        · exact h.exception
  | verify =>
    refine h.bind h.kept? fun v? => ?_
    split
    · refine h.bind h.look fun _ => ?_
      dsimp only
      split
      · exact h.exception
      · exact h.verdict
    · exact h.pure _

/-! ## The rows of a table -/

/-- The commands of a header are moved to the same cells, with the same slots. -/
theorem retarget {l : TableLayout} {columns : List Occurrence} {row : NodeId} :
    R _ (Run.retarget l columns row) (Run.retarget l columns row) :=
  h.bind h.find fun _ => h.mapM fun _ => h.bind h.freshSlot fun _ => h.pure _

/-- Both sides take the same row for a key. -/
theorem takeRow {column : Nat} {key : String} {rows : List NodeId} :
    R _ (Run.takeRow column key rows) (Run.takeRow column key rows) := by
  induction rows with
  | nil => exact h.pure _
  | cons row rows ih =>
    refine h.bind h.find fun found => ?_
    split
    · exact h.pure _
    · exact h.bind ih fun _ => h.pure _

/-- Both sides have the same key for an item. -/
theorem itemKey {key? : Option (Nat × Occurrence)} {item : Value} :
    R _ (@Run.itemKey φ i env n key? item) (@Run.itemKey φ i' env' n key? item) := by
  cases key? with
  | none => exact h.pure _
  | some key => exact h.bind h.evaluateAt fun _ => h.pure _

/-- The same row is added for an item. -/
theorem addMissingRow {l : TableLayout} {column : Nat} {key : String} {last : NodeId} :
    R _ (Run.addMissingRow env l column key last) (Run.addMissingRow env' l column key last) := by
  refine h.bind h.find fun _ => h.bind h.change fun _ => h.bind (h.pure _) fun _ =>
    h.bind h.find fun _ => ?_
  dsimp only
  split
  · exact h.bind h.change fun _ => h.bind h.missingRow fun _ => h.pure _
  · exact h.bind h.missingRow fun _ => h.pure _

/-- The same rows are left over. -/
theorem recordSurplus {column : Nat} {rows : List NodeId} :
    R Unit (Run.recordSurplus env column rows) (Run.recordSurplus env' column rows) := by
  induction rows with
  | nil => exact h.pure _
  | cons row rows ih => exact h.bind h.find fun _ => h.bind h.surplusRow fun _ => ih

theorem produceItems : R _ (@Run.produceItems φ i env o) (@Run.produceItems φ i' env' o) := by
  unfold Run.produceItems
  split
  · exact h.exception
  · refine h.bind h.evaluateAt fun v? => ?_
    split
    · exact h.bind h.spot fun _ => h.bind (h.tell rfl) fun _ => h.keep
    · exact h.exception
    · exact h.pure _

section Rows

variable {columns : List Occurrence} {name : String}

/-- Items get the same rows if what runs on the rows goes in step. -/
theorem matchItems {l : TableLayout} {key? : Option (Nat × Occurrence)}
    {runRow runRow' : List Occurrence → Run φ Unit}
    (hrow : ∀ calls, R Unit (runRow calls) (runRow' calls)) {items : List Value}
    {free : List NodeId} {last : NodeId} :
    R _ (@Run.matchItems φ i env runRow o columns name l key? items free last)
      (@Run.matchItems φ i' env' runRow' o columns name l key? items free last) := by
  induction items generalizing free last with
  | nil => exact h.pure _
  | cons item items ih =>
    refine h.bind h.bindVariable fun _ => h.bind h.itemKey fun k? => ?_
    cases k? with
    | none => exact h.bind ih fun _ => h.pure _
    | some key =>
      refine h.bind h.takeRow fun found => ?_
      split
      · exact h.bind h.retarget fun calls => h.bind (h.holding (hrow calls)) fun _ =>
          h.bind ih fun _ => h.pure _
      · exact h.bind h.addMissingRow fun _ => h.bind ih fun _ => h.pure _

/-- A whole comparison goes in step if what runs on the rows does. -/
theorem reconcile {runRow runRow' : List Occurrence → Run φ Unit}
    (hrow : ∀ calls, R Unit (runRow calls) (runRow' calls)) {items : List Value} :
    R _ (@Run.reconcile φ i env runRow o columns name items)
    (@Run.reconcile φ i' env' runRow' o columns name items) :=
  h.bind h.find fun _ => h.holding (h.bind h.find fun _ => h.bind (h.matchItems hrow) fun _ =>
    h.bind h.recordSurplus fun _ => h.pure _)

theorem compareRows {runRow runRow' : List Occurrence → Run φ Unit}
    (hrow : ∀ calls, R Unit (runRow calls) (runRow' calls)) :
    R _ (@Run.compareRows φ i env runRow o columns)
    (@Run.compareRows φ i' env' runRow' o columns) := by
  refine h.bind h.kept? fun v? => ?_
  split
  · exact h.bind (h.reconcile hrow) fun _ => h.pure _
  · exact h.pure _

variable {runRow runRow' : List Occurrence → Run φ Unit → Run φ Unit}
  (hrow : ∀ calls x y, R Unit x y → R Unit (runRow calls x) (runRow' calls y))
include hrow

/-- The phases of `verifyRows`, where the comparison is the last of them. -/
theorem verifyRows :
    R _ (@Run.verifyRows φ i env runRow o columns p)
    (@Run.verifyRows φ i' env' runRow' o columns p) := by
  cases p with
  | setup => exact h.pure _
  | execute => exact h.produceItems
  | verify => exact h.compareRows fun calls => hrow calls _ _ (h.pure _)

/-- A table is gone through row by row, in step. -/
theorem executeRows {l : TableLayout} {rows : List NodeId} :
    R _ (@Run.executeRows φ i env runRow o columns l rows)
    (@Run.executeRows φ i' env' runRow' o columns l rows) := by
  induction rows with
  | nil => exact h.pure _
  | cons row rows ih =>
    exact h.bind h.retarget fun calls => h.bind (h.holding (hrow calls _ _ h.executeAt)) fun _ => ih

/-- Both sides find the same layout of a table and go through its rows in step. -/
theorem executeTable :
    R _ (@Run.executeTable φ i env runRow o columns)
    (@Run.executeTable φ i' env' runRow' o columns) :=
  h.bind h.find fun _ => h.holding (h.executeRows hrow)

/-! ## A command with the calls inside it -/

variable {inside inside' : Inside φ} (hphase : ∀ p, R Unit (inside.phase p) (inside'.phase p))
  (hbinding : ∀ b, R Unit (inside.binding b) (inside'.binding b))

omit hrow in
include hbinding in
/-- What binds variables comes first on both sides. -/
theorem bindingFirst {x y : Run φ Unit} (hxy : R Unit x y) :
    R _ (Run.bindingFirst inside x) (Run.bindingFirst inside' y) :=
  h.bind (hbinding true) fun _ => h.bind hxy fun _ => hbinding false

include hphase hbinding

/-- An `execute` is driven by the same table, or by none, on both sides. -/
theorem executeCommand : R _ (@Run.executeCommand φ i env runRow o columns inside p)
    (@Run.executeCommand φ i' env' runRow' o columns inside' p) := by
  refine h.getting (fun s => ?_) (fun _ _ _ => rfl) fun _ _ _ => rfl
  split
  · refine h.visit ?_
    split
    · exact h.executeTable hrow
    · exact h.pure _
  · cases p with
    | setup => exact h.bind (h.visit (h.pure _)) fun _ => hphase _
    | execute => exact h.bindingFirst hbinding (h.visit h.executeAt)
    | verify => exact h.bind (hphase _) fun _ => h.visit (h.pure _)

omit hrow in
/-- What a probe does beside logging. -/
theorem probeAct {a : ProbeAct} :
    R _ (@Run.probeAct φ i env o inside p a) (@Run.probeAct φ i' env' o inside' p a) := by
  cases a with
  | success => exact h.success
  | failure => exact h.failure
  | evaluate =>
    refine h.bind h.evaluateAt fun v? => ?_
    cases v? with
    | some v => exact h.bind (h.log rfl rfl) fun _ => h.keep
    | none => exact h.pure _
  | remove => exact h.bind h.attempt fun _ => h.tidy
  | drive => exact hphase p
  | rows =>
    exact h.bind (hphase _) fun _ => h.bind
      (h.bindingFirst hbinding (h.log rfl rfl)) fun _ => hphase _
  | describe =>
    refine h.getting (fun s => ?_) (fun _ _ _ => rfl) fun _ _ _ => rfl
    have hd :
        @Scope.describe φ i' s.scope o.expression = @Scope.describe φ i s.scope o.expression := by
      unfold Scope.describe
      rw [h.name]
    rw [hd]
    exact h.log rfl rfl

omit hrow in
theorem probePhase {probe : Probe} :
    R _ (@Run.probePhase φ i env probe o inside p)
    (@Run.probePhase φ i' env' probe o inside' p) := by
  refine h.bind h.spot fun _ => h.getting (fun _ => ?_) (fun _ _ _ => rfl) fun _ _ _ => rfl
  rw [h.context, h.fixtureName, h.resource]
  refine h.bind (h.log rfl rfl) fun _ => ?_
  split
  · split
    · exact h.probeAct hphase hbinding
    · exact h.pure _
  · exact h.pure _

/-- What a command does in a phase, whichever command it is. -/
theorem act : R _ (@Run.act φ i env runRow o columns inside p)
    (@Run.act φ i' env' runRow' o columns inside' p) := by
  unfold Run.act
  split
  · exact h.visit h.assertEquals
  · exact h.visit h.assertBoolean
  · exact h.visit h.echo
  · exact h.executeCommand hrow hphase hbinding
  · exact h.visit h.setTarget
  · exact h.visit h.runLinked
  · exact h.visit (h.verifyRows hrow)
  · exact h.visit (h.pure _)
  · exact h.visit (h.probePhase hphase hbinding)

/-- A call and the calls inside it, in the order that the command asks for. -/
theorem step : R _ (@Run.step φ i env runRow o columns inside p)
    (@Run.step φ i' env' runRow' o columns inside' p) := by
  have hact : R _ (@Run.act φ i env runRow o columns inside p)
      (@Run.act φ i' env' runRow' o columns inside' p) :=
    h.act hrow hphase hbinding
  unfold Run.step
  dsimp only
  split
  · exact hact
  · split
    · exact h.bind (hphase _) fun _ => hact
    · exact h.bind hact fun _ => hphase _

end Rows

/-! ## Whole runs -/

/-- A call that has no calls inside it. -/
theorem stepAlone : R _ (@Run.stepAlone φ i env p o) (@Run.stepAlone φ i' env' p o) :=
  h.step (fun _ _ _ hxy => hxy) (fun _ => h.pure _) fun _ => h.pure _

/-- The calls of a row go through all phases in step. -/
theorem runRow {calls : List Occurrence} {x y : Run φ Unit} (hxy : R Unit x y) :
    R _ (@Run.runRow φ i env calls x) (@Run.runRow φ i' env' calls y) :=
  h.bind (h.forM fun _ => h.stepAlone) fun _ => h.bind (h.forM fun _ => h.stepAlone) fun _ =>
    h.bind hxy fun _ => h.bind (h.forM fun _ => h.stepAlone) fun _ => h.forM fun _ => h.stepAlone

mutual

/-- By induction on calls: a phase of a call and of all that lies inside it. -/
theorem runCall (p : Phase) :
    (c : Call) → R _ (@Run.runCall φ i env p c) (@Run.runCall φ i' env' p c)
  | .mk o inside => by
    unfold Run.runCall
    refine h.step ?_ ?_ ?_
    · exact fun _ _ _ => h.runRow
    · exact fun p => runCalls p inside
    · exact fun b => runBinding b inside

theorem runCalls (p : Phase) : (cs : List Call) → R _ (@Run.runCalls φ i env p cs)
    (@Run.runCalls φ i' env' p cs)
  | [] => by
    unfold Run.runCalls
    exact h.pure _
  | c :: cs => by
    unfold Run.runCalls
    exact h.bind (runCall p c) fun _ => runCalls p cs

theorem runBinding (b : Bool) :
    (cs : List Call) → R _ (@Run.runBinding φ i env b cs) (@Run.runBinding φ i' env' b cs)
  | [] => by
    unfold Run.runBinding
    exact h.pure _
  | c :: cs => by
    unfold Run.runBinding
    have hrest := runBinding b cs
    split
    · exact h.bind (runCall .execute c) fun _ => hrest
    · exact hrest

end

/-- The three phases of all calls. -/
theorem runGraph {g : CallGraph} : R _ (@Run.runGraph φ i env g) (@Run.runGraph φ i' env' g) :=
  h.bind (h.runCalls _ _) fun _ => h.bind (h.runCalls _ _) fun _ => h.runCalls _ _

/-- Painting reads the record and the tree, which are the same on both sides. -/
theorem paint : R (List Diagnostic) Engine.paint Engine.paint :=
  h.getting (fun _ => h.bind h.change fun _ => h.pure _) (fun _ _ _ => rfl) fun _ _ _ => rfl

/-- Two engines with the same configuration, and two sets that differ in the listeners alone. -/
theorem pipeline {e e' : Engine φ} {set set' : ExtensionSet} (hconfig : e'.config = e.config)
    (hregistry : set'.registry = set.registry) (hhead : set'.head = set.head)
    (hassets : set'.assets = set.assets) :
    R _ (@Engine.pipeline φ i e set env) (@Engine.pipeline φ i' e' set' env') := by
  unfold Engine.pipeline
  rw [hconfig, hregistry, hhead, hassets, h.resource]
  refine h.bind (h.tell rfl) fun _ => h.bind h.attempt fun _ =>
    h.getting (fun s => ?_) (fun _ _ _ => rfl) fun _ _ _ => rfl
  dsimp only
  split
  on_goal 1 => refine h.bind (h.pure _) fun graph => ?_
  on_goal 2 => refine h.bind (h.throw _) fun graph => ?_
  -- Either way the rest is the same.
  all_goals
    refine h.getting (fun _ => h.bind (h.tell rfl) fun _ => ?_) (fun _ _ _ => rfl) fun _ _ _ => rfl
    refine h.bind (h.modify fun _ => ⟨⟨rfl, rfl, rfl⟩, fun _ _ => rfl⟩) fun _ =>
      h.bind h.runGraph fun _ => ?_
    refine h.getting (fun _ => ?_) (fun _ _ _ => rfl) fun _ _ _ => rfl
    refine h.bind h.paint fun _ => h.bind (h.tell rfl) fun _ => ?_
    exact h.getting (fun _ => h.pure _) (fun _ _ _ => rfl) fun _ _ _ => rfl

end Lockstep

/-! ## The run of a document -/

namespace Engine

variable [Fixture φ] {e : Engine φ} {nested : Nested} {context : Context} {fixture : φ}
  {html : String} {resource : Resource} {world : World}

/-- The state in which the run of a document starts. -/
def start (fixture : φ) (html : String) (world : World) : RunState φ :=
  ⟨Tree.read html, ⟨fixture, []⟩, .empty, [], 0, [], [], [], world⟩

/-- The surroundings of a run that starts with a fixture and a set of extensions. -/
def surroundings (e : Engine φ) (set : ExtensionSet) (nested : Nested) (context : Context)
    (fixture : φ) (resource : Resource) : Surroundings :=
  ⟨set.listeners, resource, Fixture.name fixture, context, e.config.maxNestingDepth, nested⟩

/-- Running a document is one run of the pipeline, if its extensions can be put together. -/
theorem processUsing_eq : e.processUsing nested context fixture html resource world =
    match ExtensionSet.of (e.extensions ++ Fixture.extensions fixture) with
    | .error error => (.error error, fixture, world)
    | .ok set =>
      let (result, s) :=
  (e.pipeline set (e.surroundings set nested context fixture resource)).result
        (start fixture html world)
      (result, s.scope.fixture, s.world) := by
  unfold processUsing
  cases ExtensionSet.of (e.extensions ++ Fixture.extensions fixture) <;> rfl

/-- What a nested run has to say for itself when it ended. -/
def delivered (r : Result φ) : Except RunnerError Verdict × World :=
  match r.1 with
  | .error error => (.error (.aborted error), r.2.2)
  | .ok output =>
    (.ok (.ofSummary output.summary), { r.2.2 with outputs := r.2.2.outputs ++ [output] })

omit [Fixture φ] in
/-- The verdict of a nested run, and its output in the world. -/
theorem run_delivered (r : Result φ) :
    (match r.1 with
      | .error error => return .error (.aborted error)
      | .ok output => do
        modify fun w => { w with outputs := w.outputs ++ [output] }
        return .ok (.ofSummary output.summary) :
          StateM World (Except RunnerError Verdict)).run r.2.2 =
      delivered r := by
  rcases r with ⟨_ | _, _⟩ <;> rfl

omit [Fixture φ] in
/-- A nested run asks for the document and the fixture first, and fails if one of them is missing.
-/
theorem run_runRequest {runner : Runner φ}
    {process : Context → φ → String → Resource → World → Result φ} {request : RunRequest} :
    (runRequest runner process request).run world =
      match runner.read request.resource, runner.fixture request with
      | .error error, _ => (.error (.source request.resource error.message), world)
      | .ok _, .error error =>
        (.error error, { world with log := world.log ++ [.requested request] })
      | .ok html, .ok fixture =>
        delivered (process ⟨request.depth, some request.caller⟩ fixture html request.resource
          { world with log := world.log ++ [.requested request] }) := by
  unfold runRequest
  cases runner.read request.resource with
  | error error => rfl
  | ok html =>
    cases runner.fixture request with
    | error error => rfl
    | ok fixture => exact run_delivered (process ⟨_, _⟩ fixture html _ _)

end Engine
end LiveSpec
