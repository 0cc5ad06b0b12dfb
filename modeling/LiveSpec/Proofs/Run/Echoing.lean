import LiveSpec.Proofs.Evaluation.Absence
import LiveSpec.Proofs.Outcome.Booking
import LiveSpec.Proofs.Tree.Filled
import LiveSpec.Proofs.Tree.History

/-!
# What an echo leaves at its element

An echo shows the value of its expression. What is absent shows as nothing, and what is broken is
recorded and leaves the element as it was. The two are told apart by the error alone, and rightly
so: an error counts as absent exactly if the expression is a variable that is not bound or a
property that the fixture does not have (`Scope.isAbsent_iff_lacks`).

The content that a text replaces is let go afterwards. The element itself keeps the text as long as
nothing above it is out of reach (`Tree.filled_release_setText`), wherever it hangs.
-/

namespace LiveSpec

open Markup (NodeId Tree)

variable {φ : Type} {s : RunState φ} {n : NodeId} {text : String}

/-- Says whether a part of the run or an outcome holds an element. -/
def RunState.holds (s : RunState φ) (n : NodeId) : Bool :=
  (s.held ++ s.record.outcomes.map Recorded.element).contains n

namespace Run

variable {env : Surroundings} {o : Occurrence}

/-- What is held is marked. -/
theorem getD_marks {size : Nat} {ns : List NodeId} (hn : n < size) :
    (marks size ns).getD n false = ns.contains n := by
  have hsize : n < (Array.replicate size false).size := by simpa using hn
  rw [Bool.eq_iff_iff, List.contains_iff_mem, marks, Tree.getD_foldl_mark hsize]
  simp [hn]

/-- A text is put into an element and the old content is let go. -/
theorem fill_yields (gone : NodeId → Prop) (ht : s.tree.Linked gone) (hn : n < s.tree.nodes.size)
    (hreach : s.tree.InReach s.holds n) :
    ∃ s', (do change fun t => t.setText n text; tidy : Run φ Unit).Yields s () s' ∧
      s'.record = s.record ∧
      s'.tree.Filled n text := by
  refine ⟨_, rfl, rfl, ?_⟩
  refine Tree.filled_release_setText ht hn text (hreach.mono fun m hm hheld => ?_)
  rw [getD_marks (Nat.lt_of_lt_of_le hm (Tree.sameContents_setText text).size_le)]
  exact hheld

/-- An echo shows a text at its element and records nothing. -/
def Shows [Fixture φ] (env : Surroundings) (o : Occurrence) (s : RunState φ)
    (text : String) : Prop :=
  ∃ s', (echo env o .execute).Yields s () s' ∧ s'.record = s.record ∧
    s'.tree.Filled o.element text ∧
    s'.tree.text o.element = text

variable [Fixture φ]

/-- What an echo does once its expression was evaluated. -/
theorem result_echo : (echo env o .execute).result s =
    (match ((s.bound o.element).scope.evaluate o.expression).1 with
      | .ok v => do change fun t => t.setText o.element v.display; tidy
      | .error err =>
        if err.isAbsent then do change fun t => t.setText o.element ""; tidy
        else recordException env o.element o.expression err : Run φ Unit).result
      { s.bound o.element with scope := ((s.bound o.element).scope.evaluate o.expression).2 } := by
  unfold echo
  refine (result_bind_of result_bindElement).trans ((result_bind_of result_evaluate).trans ?_)
  cases ((s.bound o.element).scope.evaluate o.expression).1 <;> rfl

theorem shows_of_result {s₁ : RunState φ} (gone : NodeId → Prop)
    (hresult : (echo env o .execute).result s =
      (do change fun t => t.setText o.element text; tidy : Run φ Unit).result s₁)
    (htree : s₁.tree = s.tree) (hrecord : s₁.record = s.record) (hheld : s₁.held = s.held)
    (ht : s.tree.Linked gone) (hn : o.element < s.tree.nodes.size)
    (hreach : s.tree.InReach s.holds o.element) : Shows env o s text := by
  have hholds : s₁.holds = s.holds := by
    funext m
    rw [RunState.holds, RunState.holds, hheld, hrecord]
  rw [← htree] at ht hn hreach
  rw [← hholds] at hreach
  obtain ⟨s', hyields, hsame, hfilled⟩ := fill_yields gone ht hn hreach
  exact ⟨s', hresult.trans hyields, hsame.trans hrecord, hfilled, hfilled.text⟩

/-- **Echo tells absent from broken.** For fixtures that name what they lack, an evaluation without
value counts as absent exactly if its text is a single variable that is not bound or a single
property that the fixture does not have. So an echo shows the value of its expression if there is
one, and nothing if the expression is absent; in every other case it records one exception, and the
document stays as it is. -/
theorem echo_tells_absent_from_broken {kind : φ → Prop} (hkind : NamesMissing kind) :
    (∀ (scope : Scope φ) (text : String), kind scope.fixture →
      (∀ err, (scope.evaluate text).1 = .error err → (err.isAbsent = true ↔ scope.Lacks text)) ∧
      (scope.Lacks text → ∃ err, (scope.evaluate text).1 = .error err)) ∧
    ∀ (env : Surroundings) (o : Occurrence) (s : RunState φ)
      (gone : NodeId → Prop), kind s.scope.fixture →
      s.tree.Linked gone → o.element < s.tree.nodes.size → s.tree.InReach s.holds o.element →
      match ((s.bound o.element).scope.evaluate o.expression).1 with
      | .ok v => Shows env o s v.display
      | .error err =>
        (s.bound o.element).scope.Lacks o.expression ∧ Shows env o s "" ∨
        ¬ (s.bound o.element).scope.Lacks o.expression ∧
          ((echo env o .execute).result s).2.record.outcomes =
            s.record.outcomes ++ [⟨o.element, .exception o.expression err⟩] ∧
          ((echo env o .execute).result s).2.tree = s.tree := by
  refine ⟨fun scope text hscope => ⟨fun err herr => Scope.isAbsent_iff_lacks hkind hscope herr,
    fun hlacks => ?_⟩,
    fun env o s gone hs ht hn hreach => ?_⟩
  · exact hlacks.exists_error
  · have hresult : (echo env o .execute).result s = _ := result_echo
    have hkept : kind (s.bound o.element).scope.fixture := hs
    rcases hanswer : ((s.bound o.element).scope.evaluate o.expression).1 with err | v
    · rw [hanswer] at hresult
      have habsent := Scope.isAbsent_iff_lacks hkind hkept hanswer
      by_cases hlacks : (s.bound o.element).scope.Lacks o.expression
      · dsimp only at hresult
        rw [if_pos (habsent.mpr hlacks)] at hresult
        exact .inl ⟨hlacks, shows_of_result gone hresult rfl rfl rfl ht hn hreach⟩
      · dsimp only at hresult
        rw [if_neg fun h => hlacks (habsent.mp h)] at hresult
        rw [hresult]
        obtain ⟨hentered, htree⟩ := report_always ⟨o.element, .exception o.expression err⟩
          { s.bound o.element with scope := ((s.bound o.element).scope.evaluate o.expression).2 }
        exact .inr ⟨hlacks, hentered.outcomes, htree⟩
    · rw [hanswer] at hresult
      exact shows_of_result gone hresult rfl rfl rfl ht hn hreach

end Run

/-- An echo at the bold part of a paragraph. -/
def Sample.echoOf (expression : String) : Occurrence :=
  ⟨0, 0, 6, .echo, ⟨builtInNamespace, "echo"⟩, expression⟩

/-- The start of a run over a paragraph with a bold `y`. -/
def Sample.bold : RunState StockFixture := Sample.start Markup.Tree.Sample.paragraph

/-- The text of the element is shown as it was, a variable that is not bound as nothing, whatever
blanks are around it, and a method that the fixture does not have is an exception. -/
theorem Run.echo_tells_absent_from_broken_bold :
    Shows Sample.surroundings (Sample.echoOf "#TEXT") Sample.bold "y" ∧
    Shows Sample.surroundings (Sample.echoOf " #x ") Sample.bold "" ∧
    ((echo Sample.surroundings (Sample.echoOf "f()") .execute).result
      Sample.bold).2.record.outcomes =
      [⟨6, .exception "f()" (.targetNotFound "f()" "f")⟩] ∧
    ((echo Sample.surroundings (Sample.echoOf "f()") .execute).result Sample.bold).2.tree =
    Sample.bold.tree := by
  have htree : Sample.bold.tree = Tree.read "<p>x<b>y" := by
    rw [Sample.bold, Sample.start, Markup.Tree.Sample.paragraph]
  have hsound : Sample.bold.tree.Sound := htree ▸ (Tree.parsed_read _).sound
  have hlinked : Sample.bold.tree.Linked fun _ => False := htree ▸ (Tree.parsed_read _).linked
  have hn : 6 < Sample.bold.tree.nodes.size := by decide +kernel
  have hlive : Sample.bold.tree.isLive 6 = true := by decide +kernel
  have hreach : Sample.bold.tree.InReach Sample.bold.holds 6 :=
    hsound.inReach ((hsound.toCoherent.isLive_iff hn).mp hlive)
  obtain ⟨htells, hechoes⟩ := echo_tells_absent_from_broken StockFixture.namesMissing
  have hecho : ∀ {expression answer}, ((Sample.bold.bound 6).scope.evaluate expression).1 =
      answer → _ :=
    fun {expression answer} hanswer => hanswer ▸
      hechoes Sample.surroundings (Sample.echoOf expression) Sample.bold _ trivial hlinked hn hreach
  refine ⟨?_, ?_, ?_⟩
  · have hread : Statement.read "#TEXT" = .ok (.eval (.variable "TEXT")) :=
      Statement.read_eq_variable.mpr ⟨by decide +kernel, by cbv⟩
    have htext : Sample.bold.tree.text 6 = "y" := by decide +kernel
    have hvalue : ((Sample.bold.bound 6).scope.evaluate "#TEXT").1 = .ok (.string "y") := by
      rw [Scope.evaluate_of_read _ hread]
      show Except.ok (Value.string (Text.normal (Sample.bold.tree.text 6))) = _
      rw [htext]
      exact congrArg (Except.ok ∘ Value.string) (by cbv)
    exact hecho hvalue
  · have hread : Statement.read " #x " = .ok (.eval (.variable "x")) :=
      Statement.read_eq_variable.mpr ⟨by decide +kernel, by cbv⟩
    have hlacks : (Sample.bold.bound 6).scope.Lacks " #x " := .unbound hread rfl
    obtain ⟨err, herr⟩ := (htells (Sample.bold.bound 6).scope " #x " trivial).2 hlacks
    rcases hecho herr with ⟨-, hshows⟩ | ⟨hnot, -⟩
    · exact hshows
    · exact absurd hlacks hnot
  · have hread : Statement.read "f()" = .ok (.eval (.call "f" [])) := by
      have hspaced : Spaced [.ident "f", .leftParen, .rightParen] "f()".toList :=
        .token (.ident (by decide +kernel)) <| .token (.mark rfl) <| .token (.mark rfl) .nil
      rw [hspaced.read (by simp [Token.Beside, Token.isMark])]
      rfl
    have herr : ((Sample.bold.bound 6).scope.evaluate "f()").1 = .error
        (.targetNotFound "f()" "f") := by
      rw [Scope.evaluate_of_read _ hread]
      rfl
    rcases hecho herr with ⟨hlacks, -⟩ | ⟨-, houtcomes, hsame⟩
    · have habsent := ((htells (Sample.bold.bound 6).scope "f()" trivial).1 _ herr).mpr hlacks
      exact absurd habsent (by decide +kernel)
    · exact ⟨houtcomes, hsame⟩

end LiveSpec
