import LiveSpec.Proofs.Evaluation.Watching
import LiveSpec.Proofs.Results

/-!
# Expressions are evaluated part by part

Within an expression each part comes before what is made of it, and the parts come from left to
right (`Expr.postorder`): arguments before their call, a target before the key that picks from it.
`Scope.Performs` takes a list of expressions in such an order one after the other. Values wait on a
stack until the expression is reached that they are parts of; what it makes of them is said by
`Scope.perform`, in which the call of a method is the only thing that is asked of the fixture. The
first expression without a value ends it.

An evaluation is just that (`Scope.performs_value`). So the fixture is asked for the calls in
postorder, up to the first expression that fails, and for nothing else
(`Scope.evaluate_in_postorder`).
-/

namespace LiveSpec

namespace Expr

/-- The expressions whose values an expression makes something of, from left to right. -/
def parts : Expr → List Expr
  | .literal _ | .variable _ | .property _ => []
  | .call _ args => args
  | .field target _ => [target]
  | .index target key => [target, key]

mutual
/-- The expressions within an expression and itself, each after its parts. -/
def postorder : Expr → List Expr
  | .literal v => [.literal v]
  | .variable name => [.variable name]
  | .property name => [.property name]
  | .call method args => postorderAll args ++ [.call method args]
  | .field target name => postorder target ++ [.field target name]
  | .index target key => postorder target ++ postorder key ++ [.index target key]
/-- The expressions within several, from left to right. -/
def postorderAll : List Expr → List Expr
  | [] => []
  | e :: es => postorder e ++ postorderAll es
end

/-- The values on top of a stack that belong to the parts of an expression. -/
def operands (e : Expr) (stack : List Value) : List Value := (stack.take e.parts.length).reverse

/-- The stack without the values of the parts of an expression. -/
def beneath (e : Expr) (stack : List Value) : List Value := stack.drop e.parts.length

end Expr

/-- The expression whose value a statement has. -/
def Statement.body : Statement → Expr
  | .assign _ e | .eval e => e

/-- The variables after a statement with an answer: an assignment that has a value binds it. -/
def Statement.after (answer : Except EvaluationError Value) (bindings : Entries Value) :
    Statement → Entries Value
  | .assign name _ =>
    match answer with
    | .ok v => bindings.put name v
    | .error _ => bindings
  | .eval _ => bindings

@[simp] theorem Statement.after_error (err : EvaluationError) (bindings : Entries Value)
    (st : Statement) :
    st.after (.error err) bindings = bindings := by
  cases st <;> rfl

/-- An expression that was performed: the values of its parts, and what was made of them. -/
structure Step where
  node : Expr
  args : List Value
  answer : Except EvaluationError Value

/-- What is asked of the fixture by it. -/
def Step.request? (t : Step) : Option Request :=
  match t.node with
  | .call method _ => some (.call method t.args)
  | _ => none

namespace Scope

variable {φ : Type} [Fixture φ]

/-- What an expression makes of the values of its parts, and the fixture after it. -/
def perform (source : String) (bindings : Entries Value) (f : φ) (vs : List Value) :
    Expr → Except EvaluationError Value × φ
  | .literal v => (.ok v, f)
  | .variable name =>
    match bindings.find? name with
    | some v => (.ok v, f)
    | none => (.error (.targetNotFound source ("#" ++ name)), f)
  | .property name => ((Fixture.property f name).mapError (.ofFixture source), f)
  | .call method _ =>
    let (answer, f) := Fixture.call f method vs
    (answer.mapError (.ofFixture source), f)
  | .field _ name =>
    match fieldOf? (vs.getD 0 .null) name with
    | some part => (.ok part, f)
    | none => (.error (.targetNotFound source name), f)
  | .index _ _ =>
    match pick? (vs.getD 0 .null) (vs.getD 1 .null) with
    | some part => (.ok part, f)
    | none => (.error (.targetNotFound source ("[" ++ (vs.getD 1 .null).describe ++ "]")), f)

/-- Expressions that are performed one after the other, until one of them has no value. The stack
holds the values that are still to be used, the last one on top. -/
inductive Performs (source : String) (bindings : Entries Value) :
    List Expr → φ → List Value → List Step → Except EvaluationError (List Value) × φ → Prop
  | done {f : φ} {stack : List Value} : Performs source bindings [] f stack [] (.ok stack, f)
  | step {e : Expr} {es : List Expr} {f f₁ : φ} {stack : List Value} {v : Value} {steps : List Step}
    {r : Except EvaluationError (List Value) × φ}
    (performs : perform source bindings f (e.operands stack) e = (.ok v, f₁))
    (rest : Performs source bindings es f₁ (v :: e.beneath stack) steps r) :
    Performs source bindings (e :: es) f stack (⟨e, e.operands stack, .ok v⟩ :: steps) r
  | failed {e : Expr} {es : List Expr} {f f₁ : φ} {stack : List Value} {err : EvaluationError}
    (fails : perform source bindings f (e.operands stack) e = (.error err, f₁)) :
    Performs source bindings (e :: es) f stack [⟨e, e.operands stack, .error err⟩] (.error err, f₁)

variable {source : String} {b b' : Entries Value} {es es' : List Expr} {f f₁ : φ}
  {stack stack₁ : List Value} {steps steps' : List Step}
  {r r' : Except EvaluationError (List Value) × φ} {err : EvaluationError}

namespace Performs

/-- What comes after expressions that all have a value. -/
theorem append (h : Performs source b es f stack steps (.ok stack₁, f₁))
    (h' : Performs source b es' f₁ stack₁ steps' r) :
    Performs source b (es ++ es') f stack (steps ++ steps') r := by
  generalize hend : (Except.ok stack₁, f₁) = ended at h
  induction h with
  | done =>
    cases hend
    exact h'
  | step hperforms _ ih => exact .step hperforms (ih hend)
  | failed => cases hend

/-- What comes after an expression without value is not performed. -/
theorem stopped (h : Performs source b es f stack steps (.error err, f₁)) :
    Performs source b (es ++ es') f stack steps (.error err, f₁) := by
  generalize hend : ((Except.error err : Except EvaluationError (List Value)), f₁) = ended at h ⊢
  induction h with
  | done => cases hend
  | step hperforms _ ih => exact .step hperforms (ih hend)
  | failed hfails => exact .failed hfails

/-- There is only one way to perform a list of expressions. -/
theorem unique (h : Performs source b es f stack steps r)
    (h' : Performs source b es f stack steps' r') :
    steps' = steps ∧ r' = r := by
  induction h generalizing steps' r' with
  | done =>
    cases h'
    exact ⟨rfl, rfl⟩
  | step hperforms _ ih =>
    cases h' with
    | step hperforms' hrest' =>
      obtain ⟨hv, rfl⟩ := Prod.mk.inj (hperforms.symm.trans hperforms')
      cases hv
      obtain ⟨rfl, rfl⟩ := ih hrest'
      exact ⟨rfl, rfl⟩
    | failed hfails =>
      rw [hperforms] at hfails
      cases hfails
  | failed hfails =>
    cases h' with
    | step hperforms' _ =>
      rw [hfails] at hperforms'
      cases hperforms'
    | failed hfails' =>
      rw [hfails] at hfails'
      cases hfails'
      exact ⟨rfl, rfl⟩

/-- If all is well, each expression was performed and has a value. -/
theorem complete (h : Performs source b es f stack steps (.ok stack₁, f₁)) :
    steps.map Step.node = es ∧ ∀ t ∈ steps, t.answer.isOk = true := by
  generalize hend : (Except.ok stack₁, f₁) = ended at h
  induction h with
  | done => exact ⟨rfl, nofun⟩
  | step _ _ ih =>
    obtain ⟨hnodes, hok⟩ := ih hend
    exact ⟨congrArg _ hnodes, List.forall_mem_cons.mpr ⟨rfl, hok⟩⟩
  | failed => cases hend

/-- Otherwise the last expression that was performed is the first one without a value. -/
theorem incomplete (h : Performs source b es f stack steps (.error err, f₁)) :
    steps.map Step.node <+: es ∧ ∃ before last, steps = before ++ [last] ∧
      last.answer = .error err ∧
      ∀ t ∈ before, t.answer.isOk = true := by
  generalize hend : ((Except.error err : Except EvaluationError (List Value)), f₁) = ended at h
  induction h with
  | done => cases hend
  | step _ _ ih =>
    obtain ⟨hnodes, before, last, rfl, hlast, hok⟩ := ih hend
    exact ⟨(List.prefix_cons_inj _).mpr hnodes, _ :: before, last, rfl, hlast,
      List.forall_mem_cons.mpr ⟨rfl, hok⟩⟩
  | failed _ =>
    cases hend
    exact ⟨⟨_, rfl⟩, [], _, rfl, rfl, nofun⟩

end Performs

/-! ## Evaluating is performing -/

theorem length_values {vs : List Value} (h : values source b f es = (.ok vs, f₁)) :
    vs.length = es.length := by
  induction es generalizing f vs with
  | nil =>
    cases h
    rfl
  | cons e es ih =>
    rw [values] at h
    split at h
    · cases h
    · next v f₂ _ =>
      split at h
      · cases h
      · next vs' f₃ hvs =>
        cases h
        rw [List.length_cons, List.length_cons, ih hvs]

/-- What is left on the stack by an evaluation: its value above what was there. -/
def leaving (stack : List Value) (r : Except EvaluationError Value × φ) :
    Except EvaluationError (List Value) × φ :=
  (r.1.map (· :: stack), r.2)

/-- An expression that is performed after its parts. -/
theorem performs_last (source : String) (b : Entries Value) (f : φ) (stack : List Value) (e : Expr)
    (vs : List Value) (hlength : vs.length = e.parts.length) :
    ∃ steps, Performs source b [e] f (vs.reverse ++ stack) steps
      (leaving stack (perform source b f vs e)) := by
  have hoperands : e.operands (vs.reverse ++ stack) = vs := by
    rw [Expr.operands, ← hlength, ← List.length_reverse, List.take_left, List.reverse_reverse]
  have hbeneath : e.beneath (vs.reverse ++ stack) = stack := by
    rw [Expr.beneath, ← hlength, ← List.length_reverse, List.drop_left]
  rcases hperform : perform source b f vs e with ⟨err | v, f₁⟩
  · rw [← hoperands] at hperform
    exact ⟨_, .failed hperform⟩
  · have hdone : Performs source b [] f₁ (v :: e.beneath (vs.reverse ++ stack)) []
      (.ok (v :: stack), f₁) := by
      rw [hbeneath]
      exact .done
    rw [← hoperands] at hperform
    exact ⟨_, .step hperform hdone⟩

mutual
/-- **To evaluate an expression is to perform all expressions within it in postorder,** whatever is
on the stack. -/
theorem performs_value (source : String) (b : Entries Value) (f : φ) (stack : List Value) :
    (e : Expr) → ∃ steps, Performs source b e.postorder f stack steps
      (leaving stack (value source b f e))
  | .literal v => by
    unfold value
    exact performs_last source b f stack (.literal v) [] rfl
  | .variable name => by
    unfold value
    exact performs_last source b f stack (.variable name) [] rfl
  | .property name => by
    unfold value
    exact performs_last source b f stack (.property name) [] rfl
  | .call method args => by
    -- the arguments leave their values on the stack, the last one on top, where the call finds them
    obtain ⟨steps, hargs⟩ := performs_values source b f stack args
    unfold value Expr.postorder
    rcases hvalues : values source b f args with ⟨err | vs, f₁⟩
    · rw [hvalues] at hargs
      exact ⟨steps, hargs.stopped⟩
    · rw [hvalues] at hargs
      obtain ⟨last, hlast⟩ :=
        performs_last source b f₁ stack (.call method args) vs (length_values hvalues)
      exact ⟨steps ++ last, hargs.append hlast⟩
  | .field target name => by
    obtain ⟨steps, htarget⟩ := performs_value source b f stack target
    unfold value Expr.postorder
    rcases hvalue : value source b f target with ⟨err | v, f₁⟩
    · rw [hvalue] at htarget
      exact ⟨steps, htarget.stopped⟩
    · rw [hvalue] at htarget
      obtain ⟨last, hlast⟩ := performs_last source b f₁ stack (.field target name) [v] rfl
      exact ⟨steps ++ last, htarget.append hlast⟩
  | .index target key => by
    obtain ⟨steps, htarget⟩ := performs_value source b f stack target
    unfold value Expr.postorder
    rw [List.append_assoc]
    rcases hvalue : value source b f target with ⟨err | v, f₁⟩
    · rw [hvalue] at htarget
      exact ⟨steps, htarget.stopped⟩
    · rw [hvalue] at htarget
      -- the value of the target stays on the stack while the key is evaluated
      obtain ⟨more, hkey⟩ := performs_value source b f₁ (v :: stack) key
      dsimp only
      rcases hvalue' : value source b f₁ key with ⟨err | k, f₂⟩
      · rw [hvalue'] at hkey
        exact ⟨steps ++ more, htarget.append hkey.stopped⟩
      · rw [hvalue'] at hkey
        obtain ⟨last, hlast⟩ := performs_last source b f₂ stack (.index target key) [v, k] rfl
        exact ⟨steps ++ (more ++ last), htarget.append (hkey.append hlast)⟩
theorem performs_values (source : String) (b : Entries Value) (f : φ) (stack : List Value) :
    (es : List Expr) → ∃ steps, Performs source b (Expr.postorderAll es) f stack steps
      ((values source b f es).1.map (fun vs => vs.reverse ++ stack), (values source b f es).2)
  | [] => by
    unfold values
    exact ⟨[], .done⟩
  | e :: es => by
    obtain ⟨steps, hfirst⟩ := performs_value source b f stack e
    unfold values Expr.postorderAll
    rcases hvalue : value source b f e with ⟨err | v, f₁⟩
    · rw [hvalue] at hfirst
      exact ⟨steps, hfirst.stopped⟩
    · rw [hvalue] at hfirst
      obtain ⟨more, hothers⟩ := performs_values source b f₁ (v :: stack) es
      dsimp only
      rcases hvalues : values source b f₁ es with ⟨err | vs, f₂⟩
      · rw [hvalues] at hothers
        exact ⟨steps ++ more, hfirst.append hothers⟩
      · rw [hvalues] at hothers
        have hstack : (v :: vs).reverse ++ stack = vs.reverse ++ v :: stack := by simp
        refine ⟨steps ++ more, hfirst.append ?_⟩
        dsimp only [Except.map]
        rw [hstack]
        exact hothers
end

/-! ## What is asked of a watched fixture -/

theorem perform_watched (w : Watched φ) (vs : List Value) (e : Expr) :
    perform source b w vs e = ((perform source b w.fixture vs e).1,
      ⟨(perform source b w.fixture vs e).2,
      w.requests ++ (Step.request? ⟨e, vs, (perform source b w.fixture vs e).1⟩).toList⟩) := by
  cases e with
  | call method args => rfl
  | literal v => simp [perform, Step.request?]
  | property name => simp [perform, Step.request?, Fixture.property]
  | «variable» name | field target name | index target key =>
    unfold perform
    dsimp only
    split <;> simp [Step.request?]

/-- To watch a fixture changes nothing else, and what is noted are the calls that are performed. -/
theorem Performs.watched {w : Watched φ} {r : Except EvaluationError (List Value) × Watched φ}
    (h : Performs source b es w stack steps r) :
    Performs source b es w.fixture stack steps (r.1, r.2.fixture) ∧
      r.2.requests = w.requests ++ steps.filterMap Step.request? := by
  induction h with
  | done => exact ⟨.done, (List.append_nil _).symm⟩
  | @step e es w w₁ stack v steps r hperforms _ ih =>
    rw [perform_watched] at hperforms
    obtain ⟨hv, rfl⟩ := Prod.mk.inj hperforms
    obtain ⟨hrest, hrequests⟩ := ih
    refine ⟨.step (Prod.ext hv rfl) hrest, ?_⟩
    rw [hrequests, hv, List.append_assoc, List.filterMap_cons]
    cases Step.request? ⟨e, e.operands stack, .ok v⟩ <;> rfl
  | @failed e es w w₁ stack err hfails =>
    rw [perform_watched] at hfails
    obtain ⟨herr, rfl⟩ := Prod.mk.inj hfails
    refine ⟨.failed (Prod.ext herr rfl), ?_⟩
    rw [herr, List.filterMap_cons]
    cases Step.request? ⟨e, e.operands stack, .error err⟩ <;> rfl

omit [Fixture φ] in
/-- What is left on a stack tells the value and the fixture. -/
theorem leaving_inj {r r' : Except EvaluationError Value × φ}
    (h : leaving stack r' = leaving stack r) : r' = r := by
  obtain ⟨answer, f⟩ := r
  obtain ⟨answer', f'⟩ := r'
  obtain ⟨hanswer, rfl⟩ := Prod.mk.inj h
  cases answer <;> cases answer' <;> cases hanswer <;> rfl

/-- **An evaluation asks a fixture for the calls that it performs,** and is not changed by being
watched. -/
theorem value_watched (source : String) (b : Entries Value) (f : φ) (e : Expr) :
    ∃ steps, Performs source b e.postorder f [] steps (leaving [] (value source b f e)) ∧
      value source b (⟨f, []⟩ : Watched φ) e =
        ((value source b f e).1, ⟨(value source b f e).2, steps.filterMap Step.request?⟩) := by
  obtain ⟨steps, hsteps⟩ := performs_value source b f [] e
  obtain ⟨steps', hsteps'⟩ := performs_value source b (⟨f, []⟩ : Watched φ) [] e
  obtain ⟨hinner, hrequests⟩ := hsteps'.watched
  obtain ⟨rfl, hend⟩ := hsteps.unique hinner
  refine ⟨steps', hsteps, ?_⟩
  rcases hvalue : value source b (⟨f, []⟩ : Watched φ) e with ⟨answer, w⟩
  rw [hvalue] at hrequests hend
  have hsame : (answer, w.fixture) = value source b f e := leaving_inj hend
  rw [← hsame]
  exact Prod.ext rfl (congrArg (Watched.mk w.fixture) hrequests)

/-! ## Statements -/

variable {st : Statement}

/-- A statement has the value of its expression. -/
theorem evaluate_of_read (s : Scope φ) (h : Statement.read source = .ok st) :
    s.evaluate source = ((value source s.bindings s.fixture st.body).1,
      ⟨(value source s.bindings s.fixture st.body).2,
        st.after (value source s.bindings s.fixture st.body).1 s.bindings⟩) := by
  unfold evaluate
  rw [h]
  cases st with
  | eval e => rfl
  | assign name e =>
    dsimp only [Statement.body]
    rcases value source s.bindings s.fixture e with ⟨err | v, f⟩
    · rfl
    · rfl

/-- The account of an evaluation: what was performed, what the fixture was asked for, and what was
bound. -/
structure Account (s : Scope φ) (source : String) (st : Statement) (steps : List Step) : Prop where
  /-- The expressions are performed in postorder, and the fixture is handed on from each to the
  next. -/
  performs : Performs source s.bindings st.body.postorder s.fixture [] steps
    ((s.evaluate source).1.map ([·]), (s.evaluate source).2.fixture)
  /-- The fixture is asked for the calls among them, with the values of their arguments, and for
  nothing else. -/
  requests : (s.watched.evaluate source).2.requests = steps.filterMap Step.request?
  /-- With a value, all expressions were performed, and each has a value. -/
  complete {v : Value} : (s.evaluate source).1 = .ok v →
    steps.map Step.node = st.body.postorder ∧ ∀ t ∈ steps, t.answer.isOk = true
  /-- Without one, the last expression that was performed is the first one that failed. -/
  incomplete {err : EvaluationError} : (s.evaluate source).1 = .error err →
    steps.map Step.node <+: st.body.postorder ∧
    ∃ before last, steps = before ++ [last] ∧ last.answer = .error err ∧
      ∀ t ∈ before, t.answer.isOk = true
  /-- An assignment binds its variable to the value and leaves the others, an expression leaves them
  all. -/
  bound {v : Value} : (s.evaluate source).1 = .ok v →
    match st with
    | .assign name _ => ∀ other, (s.evaluate source).2.bindings.find? other =
        if name = other then some v else s.bindings.find? other
    | .eval _ => (s.evaluate source).2.bindings = s.bindings
  /-- Without a value nothing is bound. -/
  unbound {err : EvaluationError} : (s.evaluate source).1 = .error err →
    (s.evaluate source).2.bindings = s.bindings

theorem account_of_read (s : Scope φ) (h : Statement.read source = .ok st) :
    s.evaluate source = ((s.watched.evaluate source).1, (s.watched.evaluate source).2.unwatched) ∧
      ∃ steps, s.Account source st steps := by
  obtain ⟨steps, hperforms, hwatched⟩ := value_watched source s.bindings s.fixture st.body
  have hscope := s.evaluate_of_read h
  have hwatching : s.watched.evaluate source = ((s.evaluate source).1,
      ⟨⟨(s.evaluate source).2.fixture, steps.filterMap Step.request?⟩,
        (s.evaluate source).2.bindings⟩) := by
    rw [s.watched.evaluate_of_read h, hscope]
    simp only [watched, hwatched]
  refine ⟨by rw [hwatching]; rfl, steps, ?_⟩
  rw [hscope] at hwatching
  rcases hvalue : value source s.bindings s.fixture st.body with ⟨answer, f⟩
  rw [hvalue] at hperforms hscope hwatching
  refine ⟨?_, ?_, fun hok => ?_, fun herr => ?_, fun hok => ?_, fun herr => ?_⟩
  · rw [hscope]
    exact hperforms
  · rw [hwatching]
    rfl
  · rw [hscope] at hok
    obtain rfl : answer = .ok _ := hok
    exact hperforms.complete
  · rw [hscope] at herr
    obtain rfl : answer = .error _ := herr
    exact hperforms.incomplete
  · rw [hscope] at hok ⊢
    obtain rfl : answer = .ok _ := hok
    cases st with
    | eval e => rfl
    | assign name e => exact fun other => Entries.find?_put name other _ s.bindings
  · rw [hscope] at herr ⊢
    obtain ⟨err, rfl⟩ : ∃ err, answer = .error err := ⟨_, herr⟩
    exact st.after_error err s.bindings

/-- **An evaluation does the parts of an expression in order.** A text that cannot be read asks
nothing of the fixture. Otherwise the expressions within it are performed in postorder, up to the
first one without a value, and the fixture is asked for the calls among them and for nothing else:
no property is written. Only an assignment that has a value changes a variable, the one that it
names. -/
theorem evaluate_in_postorder (s : Scope φ) (source : String) :
    s.evaluate source = ((s.watched.evaluate source).1, (s.watched.evaluate source).2.unwatched) ∧
    (∀ q ∈ (s.watched.evaluate source).2.requests, q.isCall = true) ∧
    match Statement.read source with
    | .error fault =>
      s.watched.evaluate source = (.error (.syntaxFault source fault.message), s.watched)
    | .ok st => ∃ steps, s.Account source st steps := by
  cases h : Statement.read source with
  | error fault =>
    have hwatched : s.watched.evaluate source = (.error (.syntaxFault source fault.message),
        s.watched) := by
      unfold evaluate
      rw [h]
    have hscope : s.evaluate source = (.error (.syntaxFault source fault.message), s) := by
      unfold evaluate
      rw [h]
    refine ⟨by rw [hscope, hwatched]; rfl, ?_, hwatched⟩
    rw [hwatched]
    nofun
  | ok st =>
    obtain ⟨hwatched, steps, haccount⟩ := s.account_of_read h
    refine ⟨hwatched, fun q hq => ?_, steps, haccount⟩
    rw [haccount.requests] at hq
    obtain ⟨t, -, hq⟩ := List.mem_filterMap.mp hq
    unfold Step.request? at hq
    split at hq
    · cases hq
      rfl
    · cases hq

/-- A call whose second argument has no value is not made, and neither are the calls after that
argument. -/
example :
    (value (φ := Watched StockFixture) "f(g(1), #x, h())" []
      ⟨.table "F" [("g", .arguments, 0)] [] [], []⟩
    (.call "f" [.call "g" [.literal (.int 1)], .variable "x", .call "h" []])).2.requests =
      [.call "g" [.int 1]] := rfl

end Scope
end LiveSpec
