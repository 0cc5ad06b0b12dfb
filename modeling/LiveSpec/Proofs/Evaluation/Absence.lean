import LiveSpec.Proofs.Evaluation.Assigning
import LiveSpec.Proofs.Expr.Names

/-!
# Absent or broken

An expression can lack a value because what it names is not there, or because something within it
went wrong. The error does not say which of the two: it is told by comparing the text of the
expression with the name in the error (`EvaluationError.isAbsent`). An expression of several parts
can fail at any of them, with the name of that part.

The comparison is right nevertheless. The part that fails is found among the expressions within the
text (`Scope.Performs.exists_failed`), and the name in the error is its own if the fixture names
what it was asked for (`NamesMissing`). A text that is this name alone is read as the variable or
the property of that name and as nothing else, so that no call, no step and nothing within them can
have failed (`Scope.isAbsent_iff_lacks`).
-/

namespace LiveSpec

/-- Among fixtures of a kind, an error about a missing member names the member that was asked for,
and a call leaves a fixture of the kind. -/
structure NamesMissing {φ : Type} [Fixture φ] (kind : φ → Prop) : Prop where
  stays {f : φ} (h : kind f) (method : String) (args : List Value) :
    kind (Fixture.call f method args).2
  call {f : φ} (h : kind f) {method member : String} {args : List Value}
    (missing : (Fixture.call f method args).1 = .error (.memberNotFound member)) : member = method
  property {f : φ} (h : kind f) {name member : String}
    (missing : Fixture.property f name = .error (.memberNotFound member)) : member = name

/-! ## Stock fixtures -/

/-- Says that the methods of a fixture do not report another member than themselves as missing. -/
def StockFixture.Truthful : StockFixture → Prop
  | .table _ methods _ _ => ∀ method b calls, methods.find? method = some (b, calls) →
    ∀ calls args member, Behaviour.answer calls args b = .error (.memberNotFound member) →
      member = method
  | .data .. | .bare _ => True

theorem mapError_withFrame_eq {answer : Except FixtureError Value} {frame member : String}
    (h : answer.mapError (FixtureError.withFrame frame) = .error (.memberNotFound member)) :
    answer = .error (.memberNotFound member) := by
  rcases answer with (e | v)
  · cases e with
    | memberNotFound => exact h
    | failed => cases h
  · cases h

theorem StockFixture.namesMissing : NamesMissing StockFixture.Truthful where
  stays {f} h method args := by
    cases f with
    | table name methods properties extensions =>
      show Truthful (call _ method args).2
      unfold call
      dsimp only
      cases hfind : methods.find? method with
      | none => exact h
      | some m =>
        obtain ⟨b, calls⟩ := m
        intro other b' calls' hother
        rw [Entries.find?_put] at hother
        split at hother
        · next heq =>
          cases hother
          exact heq ▸ h method b calls hfind
        · exact h other b' calls' hother
    | data | bare => trivial
  call {f} h {method member args} missing := by
    cases f with
    | table name methods properties extensions =>
      have missing : (call (.table name methods properties extensions) method args).1 = .error
          (.memberNotFound member) :=
        missing
      unfold call at missing
      dsimp only at missing
      cases hfind : methods.find? method with
      | none =>
        rw [hfind] at missing
        cases missing
        rfl
      | some m =>
        obtain ⟨b, calls⟩ := m
        rw [hfind] at missing
        exact h method b calls hfind calls args member (mapError_withFrame_eq missing)
    | data | bare =>
      cases missing
      rfl
  property {f} h {name member} missing := by
    have missing : property f name = .error (.memberNotFound member) := missing
    unfold property at missing
    split at missing
    · split at missing <;> cases missing
      rfl
    · split at missing <;> cases missing
      rfl
    · cases missing
      rfl

/-! ## Where an evaluation fails -/

namespace Scope

variable {φ : Type} [Fixture φ] {kind : φ → Prop} {source : String} {b : Entries Value}
  {es : List Expr} {e : Expr} {f f₁ : φ} {stack vs : List Value} {steps : List Step}
  {err : EvaluationError}

theorem kind_perform (hkind : NamesMissing kind) (hf : kind f) :
    kind (perform source b f vs e).2 := by
  cases e with
  | call method args => exact hkind.stays hf method vs
  | literal | property => exact hf
  | «variable» | field | index =>
    unfold perform
    dsimp only
    split <;> exact hf

/-- Expressions that are performed without success include one that fails. -/
theorem Performs.exists_failed (hkind : NamesMissing kind) (hf : kind f)
    (h : Performs source b es f stack steps (.error err, f₁)) :
    ∃ e ∈ es, ∃ f' vs, kind f' ∧ (perform source b f' vs e).1 = .error err := by
  generalize hend : ((Except.error err : Except EvaluationError (List Value)), f₁) = ended at h
  induction h with
  | done => cases hend
  | @step e es f f₂ stack v steps r hperforms _ ih =>
    have hf₂ : kind f₂ := by
      have hkept : kind (perform source b f (e.operands stack) e).2 := kind_perform hkind hf
      rwa [hperforms] at hkept
    obtain ⟨e', hmem, hfails⟩ := ih hf₂ hend
    exact ⟨e', List.mem_cons_of_mem _ hmem, hfails⟩
  | @failed e es f f₂ stack err' hfails =>
    cases hend
    exact ⟨e, List.mem_cons_self, f, _, hf, congrArg Prod.fst hfails⟩

/-- What can be said of an expression that fails as if the whole text were absent: the text is what
it names, or begins with a bracket. -/
theorem trimmed_of_perform (hkind : NamesMissing kind) (hf : kind f)
    (h : (perform source b f vs e).1 = .error err) (habsent : err.isAbsent = true) :
    (∃ name, e = .variable name ∧ b.find? name = none ∧ Text.trimmed source = "#" ++ name) ∨
    (∃ name, e.nameToken? = some (.ident name) ∧ Text.trimmed source = name) ∨
    ∃ rest, (Text.trimmed source).toList = '[' :: rest := by
  have hfixture : ∀ {answer : Except FixtureError Value} {name : String},
      (∀ member, answer = .error (.memberNotFound member) → member = name) →
      answer.mapError (EvaluationError.ofFixture source) = .error err →
      Text.trimmed source = name := by
    intro answer name hnames hfails
    rcases answer with (cause | v)
    · cases cause with
      | memberNotFound member =>
        cases hfails
        exact (beq_iff_eq.mp habsent).trans (hnames member rfl)
      | failed =>
        cases hfails
        cases habsent
    · cases hfails
  cases e with
  | literal => cases h
  | «variable» name =>
    unfold perform at h
    dsimp only at h
    split at h
    · cases h
    · next hfree =>
      cases h
      exact .inl ⟨name, rfl, hfree, beq_iff_eq.mp habsent⟩
  | property name => exact .inr (.inl ⟨name, rfl, hfixture (fun _ => hkind.property hf) h⟩)
  | call method args => exact .inr (.inl ⟨method, rfl, hfixture (fun _ => hkind.call hf) h⟩)
  | field target name =>
    unfold perform at h
    dsimp only at h
    split at h
    · cases h
    · cases h
      exact .inr (.inl ⟨name, rfl, beq_iff_eq.mp habsent⟩)
  | index target key =>
    unfold perform at h
    dsimp only at h
    split at h
    · cases h
    · cases h
      have htrim := beq_iff_eq.mp habsent
      refine .inr (.inr ⟨(vs.getD 1 .null).describe.toList ++ [']'], ?_⟩)
      rw [htrim, String.toList_append, String.toList_append]
      rfl

/-- A text that stands for something that a scope lacks: a variable that is not bound, or a property
that the fixture does not have. -/
inductive Lacks (s : Scope φ) (text : String) : Prop
  | unbound {name : String} (reads : Statement.read text = .ok (.eval (.variable name)))
    (free : s.bindings.find? name = none)
  | missing {name member : String} (reads : Statement.read text = .ok (.eval (.property name)))
    (answer : Fixture.property s.fixture name = .error (.memberNotFound member))

variable {s : Scope φ} {text : String}

/-- What a scope lacks has no value. -/
theorem Lacks.exists_error (h : s.Lacks text) : ∃ err, (s.evaluate text).1 = .error err := by
  cases h with
  | unbound reads free =>
    rw [evaluate_of_read s reads]
    simp only [Statement.body, value, free]
    exact ⟨_, rfl⟩
  | missing reads answer =>
    rw [evaluate_of_read s reads]
    simp only [Statement.body, value, answer]
    exact ⟨_, rfl⟩

theorem isAbsent_of_lacks (hkind : NamesMissing kind) (hs : kind s.fixture) (h : s.Lacks text)
    (herr : (s.evaluate text).1 = .error err) : err.isAbsent = true := by
  cases h with
  | @unbound name reads free =>
    rw [evaluate_of_read s reads] at herr
    simp only [Statement.body, value, free] at herr
    cases herr
    exact beq_iff_eq.mpr (Statement.read_eq_variable.mp reads).2
  | @missing name member reads answer =>
    obtain rfl := hkind.property hs answer
    rw [evaluate_of_read s reads] at herr
    simp only [Statement.body, value, answer] at herr
    cases herr
    exact beq_iff_eq.mpr (Statement.trimmed_of_read_property reads)

theorem lacks_of_isAbsent (hkind : NamesMissing kind) (hs : kind s.fixture)
    (herr : (s.evaluate text).1 = .error err) (habsent : err.isAbsent = true) : s.Lacks text := by
  cases hread : Statement.read text with
  | error fault =>
    unfold evaluate at herr
    rw [hread] at herr
    cases herr
    cases habsent
  | ok st =>
    have hanswer := herr
    rw [evaluate_of_read s hread] at hanswer
    obtain ⟨steps, hperforms⟩ := performs_value text s.bindings s.fixture [] st.body
    rw [leaving, show (value text s.bindings s.fixture st.body).1 = .error err from hanswer]
      at hperforms
    obtain ⟨e, hmem, f', vs, hf', hfails⟩ := hperforms.exists_failed hkind hs
    rcases trimmed_of_perform hkind hf' hfails habsent with
      ⟨name, rfl, hfree, htrim⟩ | ⟨name, htoken, htrim⟩ | ⟨rest, htrim⟩
    · obtain ⟨lexeme, hspelled⟩ := Statement.spelled_of_read hread hmem rfl
      have hrun := (Token.Spelled.variable_iff.mp hspelled).1
      exact .unbound (Statement.read_eq_variable.mpr ⟨hrun, htrim⟩) hfree
    · obtain ⟨lexeme, hspelled⟩ := Statement.spelled_of_read hread hmem htoken
      have hident := (Token.Spelled.ident_iff.mp hspelled).1
      rcases Statement.read_name hident htrim with hread' | ⟨v, hread'⟩
      · -- the text is read as a property, so that is what failed
        obtain rfl := Except.ok.inj (hread.symm.trans hread')
        have hproperty :
            (Fixture.property s.fixture name).mapError (.ofFixture text) = .error err := hanswer
        rcases hcause : Fixture.property s.fixture name with (cause | v)
        · cases cause with
          | memberNotFound member => exact .missing hread' hcause
          | failed message frames =>
            rw [hcause] at hproperty
            cases hproperty
            cases habsent
        · rw [hcause] at hproperty
          cases hproperty
      · obtain rfl := Except.ok.inj (hread.symm.trans hread')
        cases hanswer
    · exact absurd hread (Statement.read_ne_of_bracket htrim)

/-- **Absent is not broken.** An evaluation without value counts as absent exactly if its text is a
single variable that is not bound, or a single property that the fixture does not have. -/
theorem isAbsent_iff_lacks (hkind : NamesMissing kind) (hs : kind s.fixture)
    (herr : (s.evaluate text).1 = .error err) :
    err.isAbsent = true ↔ s.Lacks text :=
  ⟨lacks_of_isAbsent hkind hs herr, fun h => isAbsent_of_lacks hkind hs h herr⟩

end Scope
end LiveSpec
