import LiveSpec.Evaluation.Scope
import Mathlib

/-!
# Fixtures that calls do not change

What an expression is worth depends on the fixture. If the methods of a fixture are functions of
their arguments and change nothing, it does not matter which expressions were evaluated before, or
how far an evaluation came before it failed. `Fixture.Steady` says so of a relation between fixtures
that cannot be told apart; this leaves room for fixtures that count their calls and tell nobody, as
the stock fixtures do (`StockFixture.steady`).

Scopes with such fixtures in which the same variables have the same values evaluate alike
(`Scope.Alike.evaluate`), and a failed evaluation leaves a scope as it was
(`Scope.Alike.of_evaluate_error`).
-/

namespace LiveSpec

variable {φ : Type}

/-- A relation between fixtures that answer alike. A call changes nothing that can be told, and
neither does writing a property that is refused. -/
structure Fixture.Steady [Fixture φ] (same : φ → φ → Prop) : Prop where
  symm {f f' : φ} : same f f' → same f' f
  trans {f f' f'' : φ} : same f f' → same f' f'' → same f f''
  answer {f f' : φ} :
    same f f' → ∀ method args, (Fixture.call f' method args).1 = (Fixture.call f method args).1
  called {f : φ} : same f f → ∀ method args, same f (Fixture.call f method args).2
  property {f f' : φ} : same f f' → ∀ name, Fixture.property f' name = Fixture.property f name
  writable {f f' : φ} :
    same f f' → ∀ name v, (Fixture.setProperty f' name v).1 = (Fixture.setProperty f name v).1
  written {f f' : φ} : same f f' → ∀ name v, same (Fixture.setProperty f name v).2
    (Fixture.setProperty f' name v).2
  refused {f : φ} : same f f → ∀ name v e, (Fixture.setProperty f name v).1 = .error e →
    same f (Fixture.setProperty f name v).2

namespace Fixture.Steady

variable [Fixture φ] {same : φ → φ → Prop} {f f' : φ}

theorem left (h : Fixture.Steady same) (hf : same f f') : same f f := h.trans hf (h.symm hf)

theorem right (h : Fixture.Steady same) (hf : same f f') : same f' f' := h.trans (h.symm hf) hf

end Fixture.Steady

/-! ## Stock fixtures -/

/-- A behaviour that does not depend on how often the method was called before. -/
def Behaviour.Even (b : Behaviour) : Prop :=
  ∀ calls calls' args, b.answer calls args = b.answer calls' args

/-- Two stock fixtures that differ in nothing but how often their methods were called, to which none
of these pays heed. -/
inductive StockFixture.Same : StockFixture → StockFixture → Prop
  | table {name : String} {methods methods' : Entries (Behaviour × Nat)}
    {properties : Entries Value}
    {extensions : List Extension} (behaviours : ∀ m, (methods'.find? m).map Prod.fst =
      (methods.find? m).map Prod.fst)
    (even : ∀ m b calls, methods.find? m = some (b, calls) → b.Even) :
    Same (.table name methods properties extensions) (.table name methods' properties extensions)
  | data {name : String} {properties : Entries Value} :
    Same (.data name properties) (.data name properties)
  | bare {name : String} : Same (.bare name) (.bare name)

/-- A method of one table stands in the other one as well. -/
theorem StockFixture.exists_method {methods methods' : Entries (Behaviour × Nat)} {m : String}
    {b : Behaviour} {calls : Nat}
    (h : (methods'.find? m).map Prod.fst = (methods.find? m).map Prod.fst)
    (hm : methods'.find? m = some (b, calls)) :
    ∃ calls', methods.find? m = some (b, calls') := by
  rw [hm] at h
  obtain ⟨⟨_, calls'⟩, hfound, rfl⟩ := Option.map_eq_some_iff.mp h.symm
  exact ⟨calls', hfound⟩

/-- **Stock fixtures are steady** as far as their methods do not count their calls. -/
theorem StockFixture.steady : Fixture.Steady StockFixture.Same where
  symm := by
    rintro f f' (⟨hbehaviours, heven⟩ | _ | _)
    · refine .table (fun m => (hbehaviours m).symm) fun m b calls hm => ?_
      obtain ⟨calls', hm'⟩ := exists_method (hbehaviours m) hm
      exact heven m b calls' hm'
    · exact .data
    · exact .bare
  trans := by
    rintro f f' f'' (⟨hbehaviours, heven⟩ | _ | _) hf'
    · obtain ⟨hbehaviours', -⟩ := hf'
      exact .table (fun m => (hbehaviours' m).trans (hbehaviours m)) heven
    · exact hf'
    · exact hf'
  answer := by
    rintro f f' (@⟨_, methods, methods', _, _, hbehaviours, heven⟩ | _ | _) m args
    · have hm := hbehaviours m
      show (StockFixture.call _ m args).1 = (StockFixture.call _ m args).1
      unfold StockFixture.call
      dsimp only
      cases hfound : methods.find? m with
      | none =>
        rw [hfound] at hm
        rw [Option.map_eq_none_iff.mp hm]
      | some found =>
        obtain ⟨b, calls⟩ := found
        obtain ⟨calls', hfound'⟩ := exists_method hm.symm hfound
        rw [hfound']
        exact congrArg (Except.mapError _) (heven m b calls hfound calls' calls args)
    · rfl
    · rfl
  called := by
    rintro f (@⟨_, methods, _, _, _, hbehaviours, heven⟩ | _ | _) m args
    · show Same _ (StockFixture.call _ m args).2
      unfold StockFixture.call
      dsimp only
      cases hfound : methods.find? m with
      | none => exact .table hbehaviours heven
      | some found =>
        refine .table (fun other => ?_) heven
        rw [Entries.find?_put]
        split
        · next hother =>
          rw [← hother, hfound]
          rfl
        · rfl
    · exact .data
    · exact .bare
  property := by
    rintro f f' (_ | _ | _) name
    · rfl
    · rfl
    · rfl
  writable := by
    rintro f f' (_ | _ | _) name v
    · rfl
    · rfl
    · rfl
  written := by
    rintro f f' (⟨hbehaviours, heven⟩ | _ | _) name v
    · exact .table hbehaviours heven
    · exact .data
    · exact .bare
  refused := by
    rintro f (_ | _ | _) name v e he
    · cases he
    · cases he
    · exact .bare

/-! ## Evaluations -/

/-- Two replies with the same answer, after both of which the fixture is still the same as `f`. -/
structure Replies {α : Type} (same : φ → φ → Prop) (f : φ) (r r' : α × φ) : Prop where
  answer : r'.1 = r.1
  here : same f r.2
  there : same f r'.2

theorem Replies.cases {α : Type} {same : φ → φ → Prop} {f : φ} {r r' : α × φ}
    (h : Replies same f r r') :
    ∃ a f₁ f₁', r = (a, f₁) ∧ r' = (a, f₁') ∧ same f f₁ ∧ same f f₁' :=
  ⟨r.1, r.2, r'.2, rfl, Prod.ext h.answer rfl, h.here, h.there⟩

section Values

variable [Fixture φ] {same : φ → φ → Prop} {source : String} {b b' : Entries Value} {f : φ}

mutual
/-- Two evaluations of an expression, in which the same variables have the same values. -/
theorem Scope.value_replies (h : Fixture.Steady same) (hb : ∀ name, b'.find? name = b.find? name)
    {f₁ f₁' : φ} (hf : same f f₁) (hf' : same f f₁') :
    (e : Expr) → Replies same f (Scope.value source b f₁ e) (Scope.value source b' f₁' e)
  | .literal v => by
    unfold Scope.value
    exact ⟨rfl, hf, hf'⟩
  | .variable name => by
    unfold Scope.value
    rw [hb]
    split
    · exact ⟨rfl, hf, hf'⟩
    · exact ⟨rfl, hf, hf'⟩
  | .property name => by
    unfold Scope.value
    rw [h.property (h.trans (h.symm hf) hf')]
    exact ⟨rfl, hf, hf'⟩
  | .call method args => by
    unfold Scope.value
    obtain ⟨vs?, f₂, f₂', hr, hr', hf, hf'⟩ := (Scope.values_replies h hb hf hf' args).cases
    rw [hr, hr']
    cases vs? with
    | error e => exact ⟨rfl, hf, hf'⟩
    | ok vs =>
      have hsame : same f₂ f₂' := h.trans (h.symm hf) hf'
      refine ⟨?_, h.trans hf (h.called (h.left hsame) method vs),
        h.trans hf' (h.called (h.right hsame) method vs)⟩
      exact congrArg (Except.mapError (EvaluationError.ofFixture source)) (h.answer hsame method vs)
  | .field target name => by
    unfold Scope.value
    obtain ⟨v?, f₂, f₂', hr, hr', hf, hf'⟩ := (Scope.value_replies h hb hf hf' target).cases
    rw [hr, hr']
    cases v? with
    | error e => exact ⟨rfl, hf, hf'⟩
    | ok v =>
      dsimp only
      split
      · exact ⟨rfl, hf, hf'⟩
      · exact ⟨rfl, hf, hf'⟩
  | .index target key => by
    unfold Scope.value
    obtain ⟨v?, f₂, f₂', hr, hr', hf, hf'⟩ := (Scope.value_replies h hb hf hf' target).cases
    rw [hr, hr']
    cases v? with
    | error e => exact ⟨rfl, hf, hf'⟩
    | ok v =>
      dsimp only
      obtain ⟨k?, f₃, f₃', hr, hr', hf, hf'⟩ := (Scope.value_replies h hb hf hf' key).cases
      rw [hr, hr']
      cases k? with
      | error e => exact ⟨rfl, hf, hf'⟩
      | ok k =>
        dsimp only
        split
        · exact ⟨rfl, hf, hf'⟩
        · exact ⟨rfl, hf, hf'⟩
theorem Scope.values_replies (h : Fixture.Steady same) (hb : ∀ name, b'.find? name = b.find? name)
    {f₁ f₁' : φ} (hf : same f f₁) (hf' : same f f₁') :
    (es : List Expr) → Replies same f (Scope.values source b f₁ es) (Scope.values source b' f₁' es)
  | [] => by
    unfold Scope.values
    exact ⟨rfl, hf, hf'⟩
  | e :: es => by
    unfold Scope.values
    obtain ⟨v?, f₂, f₂', hr, hr', hf, hf'⟩ := (Scope.value_replies h hb hf hf' e).cases
    rw [hr, hr']
    cases v? with
    | error err => exact ⟨rfl, hf, hf'⟩
    | ok v =>
      dsimp only
      obtain ⟨vs?, f₃, f₃', hr, hr', hf, hf'⟩ := (Scope.values_replies h hb hf hf' es).cases
      rw [hr, hr']
      cases vs? with
      | error err => exact ⟨rfl, hf, hf'⟩
      | ok vs => exact ⟨rfl, hf, hf'⟩
end

end Values

/-! ## Scopes -/

/-- Two scopes with the same fixture, in which all variables but the hidden ones have the same
values. -/
structure Scope.Alike (same : φ → φ → Prop) (hidden : List String) (s s' : Scope φ) : Prop where
  fixture : same s.fixture s'.fixture
  bindings {name : String} : name ∉ hidden → s'.bindings.find? name = s.bindings.find? name

namespace Scope.Alike

variable {same : φ → φ → Prop} {hidden : List String} {s s' s'' : Scope φ} {source name : String}
  {v : Value}

theorem hide (h : Alike same [] s s') : Alike same hidden s s' :=
  ⟨h.fixture, fun _ => h.bindings List.not_mem_nil⟩

theorem bind (h : Alike same hidden s s') : Alike same hidden (s.bind name v) (s'.bind name v) := by
  refine ⟨h.fixture, fun {other} hother => ?_⟩
  unfold Scope.bind
  rw [Entries.find?_put, Entries.find?_put, h.bindings hother]

/-- A variable that is bound in both scopes need not be hidden. -/
theorem show_bound (h : Alike same (name :: hidden) s s') :
    Alike same hidden (s.bind name v) (s'.bind name v) := by
  refine ⟨h.fixture, fun {other} hother => ?_⟩
  unfold Scope.bind
  rw [Entries.find?_put, Entries.find?_put]
  split
  · rfl
  · next hne => exact h.bindings (List.not_mem_cons_of_ne_of_not_mem (Ne.symm hne) hother)

/-- A hidden variable can be bound in one scope alone. -/
theorem bind_hidden (h : Alike same hidden s s') (hname : name ∈ hidden) :
    Alike same hidden (s.bind name v) s' := by
  refine ⟨h.fixture, fun {other} hother => ?_⟩
  have hne : name ≠ other := fun heq => hother (heq ▸ hname)
  unfold Scope.bind
  rw [Entries.find?_put, if_neg hne]
  exact h.bindings hother

variable [Fixture φ] (hsteady : Fixture.Steady same)
include hsteady

theorem symm (h : Alike same hidden s s') : Alike same hidden s' s :=
  ⟨hsteady.symm h.fixture, fun hname => (h.bindings hname).symm⟩

theorem trans (h : Alike same hidden s s') (h' : Alike same hidden s' s'') :
    Alike same hidden s s'' :=
  ⟨hsteady.trans h.fixture h'.fixture, fun hname => (h'.bindings hname).trans (h.bindings hname)⟩

/-- **Scopes that are alike evaluate alike**, and are alike afterwards. -/
theorem evaluate (h : Alike same [] s s') :
    (s'.evaluate source).1 = (s.evaluate source).1 ∧ Alike same []
    (s.evaluate source).2 (s'.evaluate source).2 := by
  have hvalue : ∀ e, Replies same s.fixture (Scope.value source s.bindings s.fixture e)
      (Scope.value source s'.bindings s'.fixture e) := fun e =>
    Scope.value_replies hsteady (fun _ => h.bindings List.not_mem_nil)
      (hsteady.left h.fixture) h.fixture e
  have hkept : ∀ {f f'}, same s.fixture f → same s.fixture f' →
      Alike same [] { s with fixture := f } { s' with fixture := f' } := fun hf hf' =>
    ⟨hsteady.trans (hsteady.symm hf) hf', h.bindings⟩
  unfold Scope.evaluate
  cases Statement.read source with
  | error fault => exact ⟨rfl, h⟩
  | ok statement =>
    cases statement with
    | eval e => exact ⟨(hvalue e).answer, hkept (hvalue e).here (hvalue e).there⟩
    | assign name e =>
      obtain ⟨v?, f, f', hr, hr', hf, hf'⟩ := (hvalue e).cases
      dsimp only
      rw [hr, hr']
      cases v? with
      | error err => exact ⟨rfl, hkept hf hf'⟩
      | ok v => exact ⟨rfl, (hkept hf hf').bind⟩

theorem assign (h : Alike same [] s s') :
    (s'.assign source v).1 = (s.assign source v).1 ∧ Alike same []
    (s.assign source v).2 (s'.assign source v).2 := by
  unfold Scope.assign
  split
  · exact ⟨rfl, h⟩
  · exact ⟨rfl, h.bind⟩
  · next name _ =>
    refine ⟨congrArg (Except.mapError (EvaluationError.ofFixture source))
      (hsteady.writable h.fixture name v), ?_, h.bindings⟩
    exact hsteady.written h.fixture name v
  · exact ⟨rfl, h⟩

/-- **A failed evaluation leaves the scope as it was.** -/
theorem of_evaluate_error {e : EvaluationError} (hs : same s.fixture s.fixture)
    (he : (s.evaluate source).1 = .error e) :
    Alike same [] s (s.evaluate source).2 := by
  have hvalue : ∀ e, Replies same s.fixture (Scope.value source s.bindings s.fixture e)
      (Scope.value source s.bindings s.fixture e) := fun e =>
        Scope.value_replies hsteady (fun _ => rfl) hs hs e
  unfold Scope.evaluate at he ⊢
  cases hread : Statement.read source with
  | error fault => exact ⟨hs, fun _ => rfl⟩
  | ok statement =>
    cases statement with
    | eval e => exact ⟨(hvalue e).here, fun _ => rfl⟩
    | assign name e =>
      obtain ⟨v?, f, -, hr, -, hf, -⟩ := (hvalue e).cases
      rw [hread] at he
      dsimp only at he ⊢
      rw [hr] at he ⊢
      cases v? with
      | error err => exact ⟨hf, fun _ => rfl⟩
      | ok v => cases he

/-- **So does a failed assignment.** -/
theorem of_assign_error {e : EvaluationError} (hs : same s.fixture s.fixture)
    (he : (s.assign source v).1 = .error e) :
    Alike same [] s (s.assign source v).2 := by
  unfold Scope.assign at he ⊢
  split at he
  · exact ⟨hs, fun _ => rfl⟩
  · cases he
  · next name _ =>
    refine ⟨?_, fun _ => rfl⟩
    cases hanswer : (Fixture.setProperty s.fixture name v).1 with
    | error cause => exact hsteady.refused hs name v cause hanswer
    | ok _ =>
      have he : (Fixture.setProperty s.fixture name v).1.mapError
          (EvaluationError.ofFixture source) = .error e := he
      rw [hanswer] at he
      cases he
  · exact ⟨hs, fun _ => rfl⟩

end Scope.Alike
end LiveSpec
