import LiveSpec.Proofs.Graph.Without
import LiveSpec.Proofs.Isolation.Twins
import LiveSpec.Proofs.Outcome.Accounting

/-!
# An error of evaluation concerns one call

A call whose expression has no value records the error and is done: it binds nothing, keeps nothing
and changes no element (`Failed`). So from there on the run goes as if the call were not there:
states that were twins before stay twins.

Before and after it executes such a call does nothing at all (`part_idle`). Had its expression had a
value, it would not have recorded such an error (`part_ventures`).
-/

namespace LiveSpec

open Markup (NodeId Tree)

variable {φ α β : Type}

/-! ## A failure -/

/-- The second state has an outcome on top of the first one; beside that they differ in nothing but
the variables that are bound for each element anew. -/
structure Failed (same : φ → φ → Prop) (x : Recorded) (s s' : RunState φ) : Prop where
  tree : s'.tree = s.tree
  scope : Scope.Alike same elementVariables s.scope s'.scope
  outcomes : s'.record.outcomes = s.record.outcomes ++ [x]
  kept : s'.kept = s.kept
  held : s'.held = s.held

theorem Failed.undisturbed {same : φ → φ → Prop} {x : Recorded} {s s₁ s₂ : RunState φ}
    (h : Failed same x s s₁) (hs : Undisturbed s₁ s₂) : Failed same x s s₂ := by
  obtain ⟨htree, hscope, houtcomes, hkept, hheld⟩ := hs
  refine ⟨htree.trans h.tree, ?_, houtcomes.trans h.outcomes, hkept.trans h.kept,
    hheld.trans h.held⟩
  rw [hscope]
  exact h.scope

/-- Says whether there was a value, but one of another kind than is needed. -/
def EvaluationError.isMismatch : EvaluationError → Bool
  | .typeMismatch _ _ _ => true
  | _ => false

/-- Says that an outcome is the error of a call whose expression could not be evaluated, or nothing
be assigned to it. -/
def Occurrence.Lacks (o : Occurrence) (x : Recorded) : Prop :=
  ∃ error, x = o.excepted error ∧ error.isMismatch = false

theorem Twins.failed {t : Tree} {same : φ → φ → Prop} {c : Occurrence} {x : Recorded}
    {s s' s₁ : RunState φ} [Fixture φ] (hsteady : Fixture.Steady same)
    (h : Twins t same c elementVariables [] s s') (hfailed : Failed same x s s₁)
    (hx : x.element = c.element) : Twins t same c elementVariables [x] s₁ s' := by
  obtain ⟨htree, hscope, houtcomes, hkept, hheld⟩ := hfailed
  obtain ⟨before, after, hhere, hthere⟩ := h.outcomes
  constructor
  · rw [htree]
    exact h.tree
  · rw [htree]
    exact h.grown
  · exact (hscope.symm hsteady).trans hsteady h.scope
  · refine ⟨before ++ after, [], ?_, ?_⟩
    · rw [houtcomes, hhere, List.append_nil, List.append_nil]
    · rw [hthere, List.append_nil]
  · exact h.others
  · exact fun hy => List.mem_singleton.mp hy ▸ hx
  · rw [hkept]
    exact h.kept
  · rw [hkept]
    exact h.empty
  · intro n hn
    rw [hheld]
    exact h.held hn

namespace Run

variable {env : Surroundings} {n : NodeId} {o c : Occurrence} {p : Phase} {s s' s₁ : RunState φ}
  {same : φ → φ → Prop}

/-! ## What can be added -/

theorem report_adds {P : Recorded → Prop} {x : Recorded} (hx : P x) :
    Always (Adds P) (report env x : Run φ Unit) := by
  refine .bind (.modify fun s => ⟨[x], s.record.outcomes_add x,
    fun y hy => List.mem_singleton.mp hy ▸ hx⟩) fun _ => ?_
  exact .bind .spot fun _ => tell_overheard.mono fun h => .none h.record

theorem verdict_adds {P : Recorded → Prop} {q : Prop} [Decidable q] {expected actual : String}
    (hsuccess : P ⟨n, .success⟩) (hfailure : P ⟨n, .failure expected actual⟩) :
    Always (Adds P) (if q then recordSuccess env n else
      recordFailure env n expected actual : Run φ Unit) := by
  split
  · exact report_adds (x := ⟨n, .success⟩) hsuccess
  · exact report_adds (x := ⟨n, .failure expected actual⟩) hfailure

/-- An outcome is recorded before it is told, and nobody objects. -/
theorem report_failed (hbus : env.bus.Accepts) {x : Recorded} {scope : Scope φ}
    (hscope : Scope.Alike same elementVariables s.scope scope) :
    ∃ s₁, (report env x).result { s with scope := scope } = (.ok (), s₁) ∧ Failed same x s s₁ := by
  obtain ⟨s₁, hresult, htree, hscope₁, houtcomes, hkept, hheld⟩ :=
    tell_accepted (s := { s with scope := scope, record := s.record.add x }) hbus
      (x.event_not_parsing ⟨x.element, s.tree.describe x.element⟩)
  refine ⟨s₁, hresult, htree, hscope₁ ▸ hscope, ?_, hkept, hheld⟩
  rw [houtcomes]
  exact s.record.outcomes_add x

variable [Fixture φ] (hsteady : Fixture.Steady same) (hsame : same s.scope.fixture s.scope.fixture)
include hsteady hsame

/-- Binding the text and the link of an element hides no other variable. -/
theorem bound_alike : Scope.Alike same elementVariables s.scope (s.bound n).scope := by
  have hself : Scope.Alike same elementVariables s.scope s.scope := ⟨hsame, fun _ => rfl⟩
  have hbound : Scope.Alike same elementVariables (s.bound n).scope s.scope :=
    (hself.bind_hidden List.mem_cons_self).bind_hidden (List.mem_cons_of_mem _ List.mem_cons_self)
  exact hbound.symm hsteady

theorem evaluated_alike {source : String} {error : EvaluationError}
    (h : ((s.bound n).scope.evaluate source).1 = .error error) :
    Scope.Alike same elementVariables s.scope ((s.bound n).scope.evaluate source).2 :=
  (bound_alike hsteady hsame).trans hsteady
    (Scope.Alike.of_evaluate_error (s := (s.bound n).scope) hsteady hsame h).hide

omit hsteady hsame in
/-- What follows on an evaluation sees its answer, and the scope with the element bound. -/
theorem result_evaluate_bound (source : String) (f : Except EvaluationError Value → Run φ α) :
    (bindElement n >>= fun _ => evaluate source >>= f).result s =
      (f ((s.bound n).scope.evaluate source).1).result
        { s with scope := ((s.bound n).scope.evaluate source).2 } := rfl

omit hsteady hsame in
theorem result_assign_bound (source : String) (v : Value)
    (f : Except EvaluationError Unit → Run φ α) :
    (bindElement n >>= fun _ => assign source v >>= f).result s =
      (f ((s.bound n).scope.assign source v).1).result
        { s with scope := ((s.bound n).scope.assign source v).2 } := rfl

/-- An expression has a value, or it is a failure. -/
theorem evaluateAt_cases (source : String) (hbus : env.bus.Accepts) :
    (∃ v s₁, (evaluateAt env n source).result s = (.ok (some v), s₁) ∧ s₁.record = s.record) ∨
    ∃ error s₁, (evaluateAt env n source).result s = (.ok none, s₁) ∧
      Failed same ⟨n, .exception source error⟩ s s₁ := by
  unfold evaluateAt
  rw [result_evaluate_bound]
  cases hanswer : ((s.bound n).scope.evaluate source).1 with
  | ok v => exact .inl ⟨v, _, rfl, rfl⟩
  | error error =>
    obtain ⟨s₁, hreport, hfailed⟩ := report_failed (x := ⟨n, .exception source error⟩) hbus
      (evaluated_alike hsteady hsame hanswer)
    exact .inr ⟨error, s₁, result_bind_of hreport, hfailed⟩

/-! ## The call that fails -/

omit hsteady hsame in
/-- Before and after it executes, a call that keeps no value does nothing. -/
theorem part_idle (hbuiltIn : c.command.isBuiltIn = true) (hrows : c.command ≠ .verifyRows)
    (hp : p ≠ .execute) (hempty : s.kept.lookup c.slot = none) :
    (part env c p).result s = (.ok (), s) := by
  have hkept : ∀ f : Option Value → Run φ Unit,
      (kept? c.slot >>= f).result s = (f none).result s := fun f => by
    have hlook : (kept? c.slot).result s = (.ok (s.kept.lookup c.slot), s) := result_kept?
    rw [result_bind_of hlook, hempty]
  unfold part
  cases hc : c.command with
  | assertEquals =>
    cases p with
    | setup => rfl
    | execute => exact absurd rfl hp
    | verify => exact hkept _
  | assertBoolean expected =>
    cases p with
    | setup => rfl
    | execute => exact absurd rfl hp
    | verify => exact hkept _
  | run =>
    cases p with
    | setup => rfl
    | execute => exact absurd rfl hp
    | verify => exact hkept _
  | echo => cases p <;> first | rfl | exact absurd rfl hp
  | set => cases p <;> first | rfl | exact absurd rfl hp
  | execute =>
    dsimp only
    rw [if_neg hp]
    rfl
  | verifyRows => exact absurd hc hrows
  | inert => rw [hc] at hbuiltIn; cases hbuiltIn
  | probe probe => rw [hc] at hbuiltIn; cases hbuiltIn

omit hsteady hsame in
/-- Before and after it executes, a call records no error of evaluation. -/
theorem part_adds (hbuiltIn : c.command.isBuiltIn = true) (hrows : c.command ≠ .verifyRows)
    (hrun : c.command ≠ .run) (hp : p ≠ .execute) :
    Always (Adds fun x => ¬ c.Lacks x) (part env c p : Run φ Unit) := by
  have hverdict : ∀ (q : Prop) [Decidable q] (expected actual : String),
      Always (Adds fun x => ¬ c.Lacks x)
      (if q then recordSuccess env c.element else
        recordFailure env c.element expected actual : Run φ Unit) :=
    fun q _ expected actual => verdict_adds (fun ⟨_, hx, _⟩ => by cases hx) fun ⟨_, hx,
      _⟩ => by cases hx
  unfold part
  cases hc : c.command with
  | assertEquals =>
    cases p with
    | setup => exact .pure
    | execute => exact absurd rfl hp
    | verify =>
      refine .bind .kept? fun v? => ?_
      cases v? with
      | none => exact .pure
      | some v => exact .bind .look fun _ => hverdict _ _ _
  | assertBoolean expected =>
    cases p with
    | setup => exact .pure
    | execute => exact absurd rfl hp
    | verify =>
      refine .bind .kept? fun v? => ?_
      split
      · exact hverdict _ _ _
      · exact .pure
  | echo => cases p <;> first | exact .pure | exact absurd rfl hp
  | execute =>
    dsimp only
    rw [if_neg hp]
    exact .pure
  | set => cases p <;> first | exact .pure | exact absurd rfl hp
  | run => exact absurd hc hrun
  | verifyRows => exact absurd hc hrows
  | inert => rw [hc] at hbuiltIn; cases hbuiltIn
  | probe probe => rw [hc] at hbuiltIn; cases hbuiltIn

/-! ## What comes of an expression -/

omit [Fixture φ] hsteady hsame in
/-- In a state, a part fails by an error of a call and leaves no other trace, or it records no error
of evaluation of that call. -/
def Ventures (same : φ → φ → Prop) (c : Occurrence) (s : RunState φ) (x : Run φ Unit) : Prop :=
  (∃ error s₁, x.result s = (.ok (), s₁) ∧ Failed same (c.excepted error) s s₁) ∨
    Adds (fun x => ¬ c.Lacks x) s (x.result s).2

variable (hbus : env.bus.Accepts)
include hbus

/-- An expression is evaluated, and something done with its value. -/
theorem evaluating_ventures {f : Option Value → Run φ Unit}
    (hsome : ∀ v, Always (Adds fun x => ¬ c.Lacks x) (f (some v)))
    (hnone : ∀ s, ∃ s₁, (f none).result s = (.ok (), s₁) ∧ Undisturbed s s₁) :
    Ventures same c s (evaluateAt env c.element c.expression >>= f) := by
  rcases evaluateAt_cases hsteady hsame c.expression hbus (n := c.element) with
    ⟨v, s₁, hresult, hrecord⟩ | ⟨error, s₁, hresult, hfailed⟩
  · refine .inr ?_
    rw [result_bind_of hresult]
    exact trans_of (Adds _) (.none hrecord) (hsome v s₁)
  · obtain ⟨s₂, hdone, hs₂⟩ := hnone s₁
    exact .inl ⟨error, s₂, (result_bind_of hresult).trans hdone, hfailed.undisturbed hs₂⟩

theorem assertEquals_ventures : Ventures same c s (assertEquals env c .execute) :=
  evaluating_ventures hsteady hsame hbus (fun _ _ => .none rfl) fun s =>
    ⟨s, rfl, rfl, rfl, rfl, rfl, rfl⟩

theorem assertBoolean_ventures {expected : Bool} :
    Ventures same c s (assertBoolean env expected c .execute) := by
  refine evaluating_ventures hsteady hsame hbus (fun v => ?_) fun s =>
    ⟨s, rfl, rfl, rfl, rfl, rfl, rfl⟩
  have hmismatch : ¬ c.Lacks (c.excepted (.mismatch c.expression "boolean" v)) := by
    rintro ⟨error, hx, hvalueless⟩
    cases hx
    cases hvalueless
  have hother : Always (Adds fun x => ¬ c.Lacks x)
      (recordException env c.element c.expression (.mismatch c.expression "boolean" v) :
        Run φ Unit) :=
    report_adds (x := c.excepted _) hmismatch
  cases v with
  | bool b => exact fun _ => .none rfl
  | _ => exact hother

theorem executeAt_ventures : Ventures same c s (executeAt env c c.element) := by
  let done : Run φ Unit := spot c.element >>= fun shown =>
    tell env.bus (.executeCompleted shown c.expression)
  have htold : Always (Adds fun x => ¬ c.Lacks x) done :=
    .bind .spot fun _ => tell_overheard.mono fun h => .none h.record
  have hdone : ∀ s, ∃ s₁, done.result s = (.ok (), s₁) ∧ Undisturbed s s₁ := by
    intro s
    obtain ⟨s₁, hresult, hs₁⟩ := tell_accepted (s := s) hbus
      (show (Event.executeCompleted ⟨c.element, s.tree.describe c.element⟩ c.expression).channel ≠
        .parsing from nofun)
    exact ⟨s₁, (result_bind_of result_look).trans hresult, hs₁⟩
  refine evaluating_ventures hsteady hsame hbus (fun v => ?_) hdone
  exact .bind (.modify fun _ => .none rfl) fun _ => htold

theorem echo_ventures : Ventures same c s (echo env c .execute) := by
  unfold Ventures echo
  dsimp only
  rw [result_evaluate_bound]
  cases hanswer : ((s.bound c.element).scope.evaluate c.expression).1 with
  | ok v => exact .inr (.none rfl)
  | error error =>
    dsimp only
    split
    · exact .inr (.none rfl)
    · exact .inl ⟨error, report_failed (x := c.excepted error) hbus
        (evaluated_alike hsteady hsame hanswer)⟩

theorem setTarget_ventures : Ventures same c s (setTarget env c .execute) := by
  let v := Value.string (Text.normal (s.tree.text c.element))
  unfold Ventures setTarget
  dsimp only
  rw [result_bind_of (show (look fun t => t.text c.element).result s = (.ok (s.tree.text c.element),
    s) from rfl),
    result_assign_bound]
  cases hanswer : ((s.bound c.element).scope.assign c.expression v).1 with
  | ok _ => exact .inr (.none rfl)
  | error error =>
    refine .inl ⟨error, report_failed (x := c.excepted error) hbus ?_⟩
    have hbound : Scope.Alike same elementVariables s.scope (s.bound c.element).scope :=
      bound_alike hsteady hsame
    have hassigned : Scope.Alike same [] (s.bound c.element).scope
        ((s.bound c.element).scope.assign c.expression v).2 :=
      .of_assign_error hsteady hsame hanswer
    exact hbound.trans hsteady hassigned.hide

/-- **A call that executes fails and leaves no other trace, or it records no error of evaluation.**
-/
theorem part_ventures (hbuiltIn : c.command.isBuiltIn = true) (hrows : c.command ≠ .verifyRows)
    (hrun : c.command ≠ .run) : Ventures same c s (part env c .execute) := by
  unfold part
  cases hc : c.command with
  | assertEquals => exact assertEquals_ventures hsteady hsame hbus
  | assertBoolean expected => exact assertBoolean_ventures hsteady hsame hbus
  | echo => exact echo_ventures hsteady hsame hbus
  | execute =>
    dsimp only
    rw [if_pos rfl]
    exact executeAt_ventures hsteady hsame hbus
  | set => exact setTarget_ventures hsteady hsame hbus
  | run => exact absurd hc hrun
  | verifyRows => exact absurd hc hrows
  | inert => rw [hc] at hbuiltIn; cases hbuiltIn
  | probe probe => rw [hc] at hbuiltIn; cases hbuiltIn

end Run
end LiveSpec
