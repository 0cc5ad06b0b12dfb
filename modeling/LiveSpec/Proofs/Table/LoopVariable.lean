import LiveSpec.Proofs.Expr.Names
import LiveSpec.Run.Rows

/-!
# Reading the loop variable

The loop variable of a table is cut out of the expression at a colon and a `#`, whatever the
characters between them are (`splitBinding`). The scanner is more particular: a variable is named by
letters, numbers and underscores (`Token.IsRun`), and so are all variables that a text mentions
(`Statement.isRun_of_mentioned`).

So the two agree on a loop variable of such characters: after `#`, it has the value of the item. Any
other one can be bound but not be mentioned, and what stands after `#` then has the same answer for
all items (`Scope.evaluate_loopVariable_iff`).
-/

namespace LiveSpec

/-- **A text mentions only variables that are named by letters, numbers and underscores.** -/
theorem Statement.isRun_of_mentioned {text name : String} {st : Statement}
    (h : Statement.read text = .ok st) (hmem : name ∈ st.body.mentioned) : Token.IsRun name := by
  obtain ⟨lexeme, hspelled⟩ := Statement.spelled_of_read h (Expr.mem_mentioned.mp hmem) rfl
  exact (Token.Spelled.variable_iff.mp hspelled).1

/-! ## The loop variable -/

/-- A loop variable has a name. -/
theorem toList_ne_nil_of_splitBinding {expression name sequence : String}
    (h : splitBinding expression = .ok (name, sequence)) : name.toList ≠ [] := by
  unfold splitBinding at h
  split at h
  · cases h
  · split at h
    · cases h
      simp
    · cases h

namespace Scope

variable {φ : Type} [Fixture φ] {s : Scope φ} {expression name sequence : String}

/-- A variable that is named as the scanner expects is read. -/
theorem evaluate_bind (h : Token.IsRun name) (item : Value) :
    (s.bind name item).evaluate ("#" ++ name) = (.ok item, s.bind name item) := by
  rw [evaluate_of_read _ (Statement.read_reference h)]
  simp [Statement.body, value, bind, Entries.find?_put, Statement.after]

/-- A variable that is not named so makes no difference to any text. -/
theorem evaluate_bind_congr (s : Scope φ) (h : ¬ Token.IsRun name) (text : String)
    (item item' : Value) :
    ((s.bind name item').evaluate text).1 = ((s.bind name item).evaluate text).1 := by
  have hfixture : (s.bind name item').fixture = (s.bind name item).fixture := rfl
  refine (evaluate_congr hfixture fun st hread other hmem => ?_).1
  have hne : name ≠ other := by
    rintro rfl
    exact h (Statement.isRun_of_mentioned hread hmem)
  simp only [bind, Entries.find?_put, if_neg hne]

/-- **A loop variable can be read exactly if it consists of letters, numbers and underscores.** Then
`#` and its name have the value of the item, and nothing changes. Otherwise the answer is the same
for all items. -/
theorem evaluate_loopVariable_iff (h : splitBinding expression = .ok (name, sequence)) :
    ((∀ item, ((s.bind name item).evaluate ("#" ++ name)).1 = .ok item) ↔
      ∀ c ∈ name.toList, Token.inName c = true) ∧
    ((∀ c ∈ name.toList, Token.inName c = true) →
      ∀ item, (s.bind name item).evaluate ("#" ++ name) = (.ok item, s.bind name item)) ∧
    ((∃ c ∈ name.toList, Token.inName c = false) → ∀ item item',
      ((s.bind name item').evaluate ("#" ++ name)).1 =
      ((s.bind name item).evaluate ("#" ++ name)).1) := by
  have hrun (hall : ∀ c ∈ name.toList, Token.inName c = true) : Token.IsRun name :=
    ⟨toList_ne_nil_of_splitBinding h, fun hc => hall _ hc⟩
  refine ⟨⟨fun hreads => ?_, fun hall item => ?_⟩,
    fun hall item => evaluate_bind (hrun hall) item, ?_⟩
  · by_contra hnot
    have hname : ¬ Token.IsRun name := fun hname => hnot fun _ => hname.inName
    have hsame := evaluate_bind_congr s hname ("#" ++ name) .null (.bool true)
    rw [hreads, hreads] at hsame
    cases hsame
  · rw [evaluate_bind (hrun hall)]
  · rintro ⟨c, hmem, hc⟩ item item'
    refine evaluate_bind_congr s (fun hname => ?_) _ item item'
    rw [hname.inName hmem] at hc
    cases hc

/-- A loop variable of one word. -/
theorem evaluate_loopVariable_word :
    splitBinding "#item : people" = .ok ("item", "people") ∧
    ((Sample.row.bind "item" (.string "Ann")).evaluate "#item").1 = .ok (.string "Ann") := by
  have hbinding : splitBinding "#item : people" = .ok ("item", "people") := rfl
  have hword : Token.IsRun "item" := by decide +kernel
  obtain ⟨hreads, -⟩ := evaluate_loopVariable_iff (s := Sample.row) hbinding
  exact ⟨hbinding, hreads.mpr (fun _ => hword.inName) (.string "Ann")⟩

/-- A loop variable of two words is accepted, but it cannot be read. -/
theorem evaluate_loopVariable_words :
    splitBinding "#full name : people" = .ok ("full name", "people") ∧
    ((Sample.row.bind "full name" (.string "Ann")).evaluate "#full name").1 =
      .error (.syntaxFault "#full name" "unexpected trailing Ident(\"name\")") := by
  have hlast : Spaced [.ident "name"] " name".toList :=
    .blank rfl <| .token (.ident (by decide +kernel)) .nil
  have hfirst : Token.first 0 '#' ("full".toList ++ " name".toList) = .ok (.variable "full",
      " name".toList) := by
    refine Token.first_variable (by decide +kernel) ?_
    rintro c ⟨⟩
    exact Token.inName_of_isBlank rfl
  have hscan : Token.scan "#full name" = .ok [.variable "full", .ident "name"] :=
    Token.scanFrom_of_first rfl hfirst (hlast.scanFrom (List.isChain_singleton _))
  have hread : Statement.read "#full name" = .error (.trailing (.ident "name")) := by
    rw [Statement.read, hscan]
    rfl
  have hmessage :
      (SyntaxFault.trailing (.ident "name")).message = "unexpected trailing Ident(\"name\")" := by
    decide +kernel
  refine ⟨rfl, ?_⟩
  unfold evaluate
  rw [hread, ← hmessage]

end Scope
end LiveSpec
