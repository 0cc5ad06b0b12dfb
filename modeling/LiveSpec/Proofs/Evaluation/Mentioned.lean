import LiveSpec.Proofs.Evaluation.Postorder
import LiveSpec.Proofs.Expr.Spelling

/-!
# An evaluation depends on what is mentioned

The variables that an expression mentions are those among the expressions within it
(`Expr.mentioned`). No other variable is looked up when these are performed, so that two scopes with
the same fixture, in which the mentioned variables have the same values, evaluate a text alike: to
the same value or the same error, with the same calls, and with the same variable bound
(`Scope.evaluate_of_mentioned`). The variable that an assignment binds need not be among them.
-/

namespace LiveSpec

/-- The name of a variable. -/
def Expr.variable? : Expr → Option String
  | .variable name => some name
  | _ => none

/-- The variables that occur in an expression. -/
def Expr.mentioned (e : Expr) : List String := e.postorder.filterMap Expr.variable?

theorem Expr.mem_mentioned {e : Expr} {name : String} : name ∈ e.mentioned ↔
    .variable name ∈ e.postorder := by
  rw [mentioned, List.mem_filterMap]
  constructor
  · rintro ⟨e', hmem, he'⟩
    cases e' with
    | «variable» other =>
      obtain rfl : other = name := Option.some.inj he'
      exact hmem
    | _ => cases he'
  · exact fun h => ⟨_, h, rfl⟩

namespace Scope

variable {φ : Type} [Fixture φ] {source : String} {b b' : Entries Value} {es : List Expr} {f : φ}
  {stack : List Value} {steps : List Step} {r : Except EvaluationError (List Value) × φ} {e : Expr}
  {s s' : Scope φ}

theorem perform_congr (hagree : ∀ name, e = .variable name → b'.find? name = b.find? name)
    (vs : List Value) :
    perform source b' f vs e = perform source b f vs e := by
  cases e with
  | «variable» name => simp only [perform, hagree name rfl]
  | _ => rfl

/-- Expressions are performed alike where the variables among them have the same values. -/
theorem Performs.congr (h : Performs source b es f stack steps r)
    (hagree : ∀ name, .variable name ∈ es → b'.find? name = b.find? name) :
    Performs source b' es f stack steps r := by
  induction h with
  | done => exact .done
  | step hperforms _ ih =>
    refine .step ?_ (ih fun name hmem => hagree name (List.mem_cons_of_mem _ hmem))
    rw [perform_congr fun name he => hagree name (he ▸ List.mem_cons_self)]
    exact hperforms
  | failed hfails =>
    refine .failed ?_
    rw [perform_congr fun name he => hagree name (he ▸ List.mem_cons_self)]
    exact hfails

/-- **The value of an expression depends on no variable that it does not mention.** -/
theorem value_congr (hagree : ∀ name ∈ e.mentioned, b'.find? name = b.find? name) :
    value source b' f e = value source b f e := by
  obtain ⟨steps, hsteps⟩ := performs_value source b f [] e
  obtain ⟨steps', hsteps'⟩ := performs_value source b' f [] e
  have hsame := hsteps.congr fun name hmem => hagree name (Expr.mem_mentioned.mpr hmem)
  exact leaving_inj (hsame.unique hsteps').2

/-- Two scopes in which a text evaluates alike, as far as its statement has the same value. -/
theorem evaluate_congr (hfixture : s'.fixture = s.fixture)
    (hagree : ∀ st, Statement.read source = .ok st →
      ∀ name ∈ st.body.mentioned, s'.bindings.find? name = s.bindings.find? name) :
    (s'.evaluate source).1 = (s.evaluate source).1 ∧
    (s'.evaluate source).2.fixture = (s.evaluate source).2.fixture ∧
      ∃ written : Option (String × Value),
        (s.evaluate source).2.bindings = written.elim s.bindings (fun w => s.bindings.put w.1 w.2) ∧
        (s'.evaluate source).2.bindings = written.elim s'.bindings
          (fun w => s'.bindings.put w.1 w.2) := by
  cases h : Statement.read source with
  | error fault =>
    unfold evaluate
    rw [h]
    exact ⟨rfl, hfixture, none, rfl, rfl⟩
  | ok st =>
    rw [s.evaluate_of_read h, s'.evaluate_of_read h, hfixture, value_congr (hagree st h)]
    refine ⟨rfl, rfl, ?_⟩
    cases (value source s.bindings s.fixture st.body).1 with
    | error err => exact ⟨none, st.after_error err _, st.after_error err _⟩
    | ok v =>
      cases st with
      | eval e => exact ⟨none, rfl, rfl⟩
      | assign name e => exact ⟨some (name, v), rfl, rfl⟩

/-- **What an expression does not mention cannot matter to it.** In two scopes with the same fixture
and the same values of the mentioned variables a text has the same value or the same error, asks the
fixture for the same calls with the same arguments, leaves it the same, and binds the same variable,
whatever else is bound. -/
theorem evaluate_of_mentioned (hfixture : s'.fixture = s.fixture)
    (hagree : ∀ st, Statement.read source = .ok st →
      ∀ name ∈ st.body.mentioned, s'.bindings.find? name = s.bindings.find? name) :
    (s'.evaluate source).1 = (s.evaluate source).1 ∧
    (s'.watched.evaluate source).2.requests = (s.watched.evaluate source).2.requests ∧
    (s'.evaluate source).2.fixture = (s.evaluate source).2.fixture ∧
    ∃ written : Option (String × Value),
      (s.evaluate source).2.bindings = written.elim s.bindings (fun w => s.bindings.put w.1 w.2) ∧
      (s'.evaluate source).2.bindings =
        written.elim s'.bindings (fun w => s'.bindings.put w.1 w.2) := by
  have hwatched : s'.watched.fixture = s.watched.fixture := congrArg (Watched.mk · []) hfixture
  obtain ⟨hanswer, hafter, hwritten⟩ := evaluate_congr hfixture hagree
  obtain ⟨-, hrequests, -⟩ := evaluate_congr hwatched hagree
  exact ⟨hanswer, congrArg Watched.requests hrequests, hafter, hwritten⟩

namespace Sample

/-- A fixture that adds, and that counts its calls. -/
def counting : StockFixture := .table "Totals" [("f", .sum, 0), ("g", .counter 5, 0)] [] []

/-- The scope at one row of a table. -/
def row : Scope StockFixture :=
  ⟨counting, [("HREF", .null), ("TEXT", .string "Ann"), ("n", .int 2)]⟩

/-- The scope at another row, where a loop variable is left over. -/
def laterRow : Scope StockFixture :=
  ⟨counting, [("HREF", .string "b.html"), ("TEXT", .string "Bob"), ("item", .int 7), ("n", .int 2)]⟩

end Sample

/-- A sum that is saved, at two rows with different texts. -/
theorem evaluate_of_mentioned_rows :
    Statement.read "#y = f(#n, g())" =
      .ok (.assign "y" (.call "f" [.variable "n", .call "g" []])) ∧
    (Sample.row.evaluate "#y = f(#n, g())").1 = .ok (.int 7) ∧
    (Sample.row.watched.evaluate "#y = f(#n, g())").2.requests =
      [.call "g" [], .call "f" [.int 2, .int 5]] ∧
    (Sample.laterRow.evaluate "#y = f(#n, g())").1 = .ok (.int 7) ∧
    (Sample.laterRow.watched.evaluate "#y = f(#n, g())").2.requests =
      [.call "g" [], .call "f" [.int 2, .int 5]] := by
  have harguments : Spaced [.variable "n", .comma, .ident "g", .leftParen, .rightParen, .rightParen]
      "#n, g())".toList :=
    .token (.reference (by decide +kernel)) <| .token (.mark rfl) <| .blank rfl <|
      .token (.ident (by decide +kernel)) <| .token (.mark rfl) <| .token (.mark rfl) <|
        .token (.mark rfl) .nil
  have hspaced : Spaced [.variable "y", .equals, .ident "f", .leftParen, .variable "n", .comma,
      .ident "g", .leftParen,
      .rightParen, .rightParen] "#y = f(#n, g())".toList :=
    .token (.reference (by decide +kernel)) <| .blank rfl <| .token (.mark rfl) <| .blank rfl <|
      .token (.ident (by decide +kernel)) <| .token (.mark rfl) harguments
  have hread : Statement.read "#y = f(#n, g())" =
      .ok (.assign "y" (.call "f" [.variable "n", .call "g" []])) := by
    rw [hspaced.read (by simp [Token.Beside, Token.isMark])]
    rfl
  have hagree : ∀ st, Statement.read "#y = f(#n, g())" = .ok st → ∀ name ∈ st.body.mentioned,
      Sample.laterRow.bindings.find? name = Sample.row.bindings.find? name := by
    intro st hst
    obtain rfl := Except.ok.inj (hread.symm.trans hst)
    intro name hname
    have hname : name ∈ ["n"] := hname
    obtain rfl := List.mem_singleton.mp hname
    rfl
  have hfixture : Sample.laterRow.fixture = Sample.row.fixture := rfl
  obtain ⟨hanswer, hrequests, -⟩ := evaluate_of_mentioned hfixture hagree
  have hvalue : (Sample.row.evaluate "#y = f(#n, g())").1 = .ok (.int 7) := by
    rw [evaluate_of_read _ hread]
    rfl
  have hcalls : (Sample.row.watched.evaluate "#y = f(#n, g())").2.requests =
      [.call "g" [], .call "f" [.int 2, .int 5]] := by
    rw [evaluate_of_read _ hread]
    rfl
  exact ⟨hread, hvalue, hcalls, hanswer.trans hvalue, hrequests.trans hcalls⟩

end Scope
end LiveSpec
