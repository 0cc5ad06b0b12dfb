import LiveSpec.Proofs.Outcome.Booking
import LiveSpec.Proofs.Phases.Order
import LiveSpec.Proofs.Table.Reasserting

/-!
# A failure shows two texts that differ

A failed assertion is reported with the text of its element and with what its value is described as.
A reader takes the two apart by eye, blanks aside, so they must not be the same text.

They never are, because a text that equals the description of a value confirms it
(`Value.confirms_describe`): the absent value is described as the word that stands for it, and every
other one as what it is displayed as.
-/

namespace LiveSpec

namespace Value

variable {v : Value} {t t' : String}

/-- Blanks make no difference to what confirms a value. -/
theorem confirms_congr (h : Text.normal t = Text.normal t') : v.confirms t = v.confirms t' := by
  unfold confirms
  rw [h]

/-- **What a value is described as confirms it.** -/
theorem confirms_describe (hv : v.Legible) : v.confirms v.describe = true := by
  cases v with
  | null =>
    have hword : Text.normal nullMarker = nullMarker := Text.normal_of_solid (solid_of (by cbv))
    simp [confirms, describe, hword]
  | _ => exact confirms_of_shown hv (by simp) rfl

theorem normal_ne_of_not_confirms (hv : v.Legible) (h : v.confirms t = false) :
    Text.normal t ≠ Text.normal v.describe := by
  intro hsame
  rw [confirms_congr hsame, confirms_describe hv] at h
  cases h

end Value

namespace Run

variable {φ : Type} [Fixture φ] {env : Surroundings} {o : Occurrence} {s : RunState φ} {v : Value}

/-- An assertion that kept a value records how it compares with the text of its element, and nothing
else. It does so even if a listener refuses to hear of it. -/
theorem assertEquals_judges (hkept : s.kept.lookup o.slot = some v) :
    ((assertEquals env o .verify).result s).2.record.outcomes =
      s.record.outcomes ++ [⟨o.element, v.judged (Text.normal (s.tree.text o.element))⟩] := by
  have hreport : (assertEquals env o .verify).result s =
      (report env ⟨o.element, v.judged (Text.normal (s.tree.text o.element))⟩).result s := by
    unfold assertEquals Value.judged
    dsimp only
    rw [result_bind, result_kept?, hkept]
    dsimp only
    rw [result_bind, result_look]
    dsimp only
    split <;> rfl
  rw [hreport]
  exact (report_always _ s).1.outcomes

end Run

/-- **A failure never shows two equal texts.** The description of a value confirms it, so a text
that does not confirm a value differs from its description by more than blanks. An assertion that
kept a value therefore records a success, or a failure with two texts that differ by more than
blanks: the text of its element and the description of the value. -/
theorem Value.failures_tell_texts_apart {v : Value} (hv : v.Legible) :
    v.confirms v.describe = true ∧
    (∀ t : String, v.confirms t = false → Text.normal t ≠ Text.normal v.describe) ∧
    ∀ {φ : Type} [Fixture φ] (env : Surroundings) (o : Occurrence) (s s' : RunState φ)
      (shown : String),
      s.kept.lookup o.slot = some v → shown = Text.normal (s.tree.text o.element) →
      s' = ((Run.assertEquals env o .verify).result s).2 →
      (v.confirms shown = true ∧
        s'.record.outcomes = s.record.outcomes ++ [⟨o.element, .success⟩]) ∨
      (v.confirms shown = false ∧ Text.normal shown ≠ Text.normal v.describe ∧
        s'.record.outcomes = s.record.outcomes ++ [⟨o.element, .failure shown v.describe⟩]) := by
  refine ⟨confirms_describe hv, fun _ => normal_ne_of_not_confirms hv, ?_⟩
  rintro φ _ env o s _ _ hkept rfl rfl
  rw [Run.assertEquals_judges hkept]
  unfold judged
  cases hconfirms : v.confirms (Text.normal (s.tree.text o.element)) with
  | true => exact .inl ⟨rfl, rfl⟩
  | false => exact .inr ⟨rfl, normal_ne_of_not_confirms hv hconfirms, rfl⟩

/-- The state in which the assertion of the paragraph has found a list instead of `1`. -/
def Sample.listFound : RunState StockFixture :=
  { Sample.start Sample.paragraph with kept := [(1, .array [.int 1, .array [.null]])] }

/-- The assertion shows `1` and the list. -/
theorem Value.failures_tell_texts_apart_list :
    (Value.array [.int 1, .array [.null]]).Legible ∧
    Sample.listFound.kept.lookup Sample.asserting.slot = some (.array [.int 1, .array [.null]]) ∧
    "1" = Text.normal (Sample.listFound.tree.text Sample.asserting.element) ∧
    Text.normal "1" ≠ Text.normal "[1,[null]]" ∧
    ((Run.assertEquals Sample.surroundings Sample.asserting .verify).result
      Sample.listFound).2.record.outcomes =
      [⟨2, .failure "1" "[1,[null]]"⟩] := by
  have hv : (Value.array [.int 1, .array [.null]]).Legible := trivial
  have hkept : Sample.listFound.kept.lookup Sample.asserting.slot = some
      (.array [.int 1, .array [.null]]) := rfl
  have hshown : "1" = Text.normal (Sample.listFound.tree.text Sample.asserting.element) := by cbv
  have hfalse : (Value.array [.int 1, .array [.null]]).confirms "1" = false := by cbv
  have hdescribe : (Value.array [.int 1, .array [.null]]).describe = "[1,[null]]" := by cbv
  refine ⟨hv, hkept, hshown, ?_⟩
  rcases (failures_tell_texts_apart hv).2.2 Sample.surroundings Sample.asserting Sample.listFound _
    "1" hkept hshown rfl with
    ⟨htrue, -⟩ | ⟨-, hdiffer, houtcomes⟩
  · rw [hfalse] at htrue
    cases htrue
  · rw [hdescribe] at hdiffer houtcomes
    exact ⟨hdiffer, houtcomes⟩

end LiveSpec
