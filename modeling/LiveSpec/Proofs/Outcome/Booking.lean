import LiveSpec.Proofs.Run.Alone
import LiveSpec.Proofs.Run.Ending

/-!
# What a call records in a phase

An assertion finds its value when it executes and judges it when it compares, and so does a `run`;
in between the value is kept in the slot of the call. Whatever goes wrong when it executes is
recorded there and then, and nothing is kept. `Occurrence.Does` lists what a call can do in a phase,
from the value kept before: which outcomes it records and which value is kept after. `part_acted`
says that a command does so at its element unless it is halted, and leaves the values of other calls
alone; there is one lemma for each command.

What a call records over all three phases follows (`Occurrence.Does.settles`): exactly one outcome
if it judges something, and at most an exception if not.
-/

namespace LiveSpec

open Markup (NodeId Tree)

/-! ## What a call may do -/

/-- Says whether a command judges a value that it found: assertions and `run`. -/
def Command.judges : Command → Bool
  | .assertEquals | .assertBoolean _ | .run => true
  | _ => false

/-- Says whether a command judges a value of this kind. -/
def Command.compares : Command → Value → Bool
  | .assertEquals, _ => true
  | .assertBoolean _, .bool _ => true
  | .run, .string _ => true
  | _, _ => false

/-- What compares a value judges. -/
theorem Command.judges_of_compares {c : Command} {v : Value} (h : c.compares v = true) :
    c.judges = true := by
  cases c <;> first | rfl | cases h

/-- The outcome of a call that came upon an error. -/
def Occurrence.excepted (o : Occurrence) (error : EvaluationError) : Recorded :=
  ⟨o.element, .exception o.expression error⟩

/-- What a call does in a phase: the value kept before, the outcomes recorded, the value kept after.
-/
inductive Occurrence.Does (o : Occurrence) : Phase → Option Value → List Recorded →
    Option Value → Prop
  | prepare {v? : Option Value} : Does o .setup v? [] v?
  /-- A value to be judged is found. -/
  | find {v? : Option Value} {v : Value} (compares : o.command.compares v = true) :
    Does o .execute v? [] (some v)
  | fail {v? : Option Value} (error : EvaluationError) : Does o .execute v? [o.excepted error] v?
  /-- A command that judges nothing goes well. -/
  | act {v? v?' : Option Value} (judges : o.command.judges = false) : Does o .execute v? [] v?'
  | judge {v : Value} {answer : Outcome} (compares : o.command.compares v = true)
    (own : answer.isAboutRow = false) :
    Does o .verify (some v) [⟨o.element, answer⟩] (some v)
  /-- There is nothing to be judged. -/
  | pass {v? : Option Value} (idle : ∀ v, v? = some v → o.command.compares v = false) :
    Does o .verify v? [] v?

/-- What a call records in a run: exactly one outcome at its element if it judges something, a
success, a failure or an exception; and if it does not, nothing or an exception at its element. -/
def Occurrence.Settles (o : Occurrence) (xs : List Recorded) : Prop :=
  if o.command.judges then ∃ answer : Outcome, answer.isAboutRow = false ∧
    xs = [⟨o.element, answer⟩]
  else xs = [] ∨ ∃ error, xs = [o.excepted error]

/-- The three phases of a call that kept nothing before. -/
theorem Occurrence.Does.settles {o : Occurrence} {xs ys zs : List Recorded}
    {v₁? v₂? v₃? : Option Value} (hsetup : o.Does .setup none xs v₁?)
    (hexecute : o.Does .execute v₁? ys v₂?) (hverify : o.Does .verify v₂? zs v₃?) :
    o.Settles (xs ++ ys ++ zs) := by
  cases hsetup
  unfold Settles
  cases hexecute with
  | find hcompares =>
    rw [if_pos (Command.judges_of_compares hcompares)]
    cases hverify with
    | judge _ hown => exact ⟨_, hown, rfl⟩
    | pass hidle =>
      rw [hidle _ rfl] at hcompares
      cases hcompares
  | fail error =>
    have hzs : zs = [] := by
      cases hverify
      rfl
    rw [hzs]
    split
    · exact ⟨_, rfl, rfl⟩
    · exact .inr ⟨error, rfl⟩
  | act hjudges =>
    rw [if_neg (by rw [hjudges]; exact Bool.false_ne_true)]
    cases hverify with
    | judge hcompares _ =>
      rw [Command.judges_of_compares hcompares] at hjudges
      cases hjudges
    | pass _ => exact .inl rfl

variable {φ : Type} {s s' s'' : RunState φ} {o : Occurrence} {p : Phase} {xs ys : List Recorded}

/-- Between two states some outcomes were recorded, and no value was kept. -/
structure Entered (xs : List Recorded) (s s' : RunState φ) : Prop where
  outcomes : s'.record.outcomes = s.record.outcomes ++ xs
  kept : s'.kept = s.kept

namespace Entered

theorem none (outcomes : s'.record = s.record) (kept : s'.kept = s.kept) : Entered [] s s' :=
  ⟨by rw [outcomes, List.append_nil], kept⟩

theorem refl : Entered [] s s := none rfl rfl

theorem trans (h : Entered xs s s') (h' : Entered ys s' s'') : Entered (xs ++ ys) s s'' :=
  ⟨by rw [h'.outcomes, h.outcomes, List.append_assoc], h'.kept.trans h.kept⟩

/-- What happens before and after without leaving outcomes makes no difference. -/
theorem after (h : Entered xs s' s'') (hbefore : Entered [] s s') : Entered xs s s'' :=
  hbefore.trans h

/-- What enters nothing more may follow. -/
theorem before (h : Entered xs s s') (hafter : Entered [] s' s'') : Entered xs s s'' := by
  rw [← List.append_nil xs]
  exact h.trans hafter

end Entered

/-- What a call did in a phase, between two states; the values of other calls stay. -/
structure Occurrence.Acted (o : Occurrence) (p : Phase) (xs : List Recorded)
    (s s' : RunState φ) : Prop where
  outcomes : s'.record.outcomes = s.record.outcomes ++ xs
  does : o.Does p (s.kept.lookup o.slot) xs (s'.kept.lookup o.slot)
  apart {slot : Nat} : slot ≠ o.slot → s'.kept.lookup slot = s.kept.lookup slot

namespace Occurrence.Acted

/-- A call that entered what its command does has acted. -/
theorem of_entered (h : Entered xs s s')
    (hdoes : o.Does p (s.kept.lookup o.slot) xs (s.kept.lookup o.slot)) :
    o.Acted p xs s s' := by
  refine ⟨h.outcomes, ?_, fun _ => by rw [h.kept]⟩
  rw [h.kept]
  exact hdoes

/-- An evaluation that fails enters its exception. -/
theorem failed {error : EvaluationError} (h : Entered [o.excepted error] s s') :
    o.Acted .execute [o.excepted error] s s' := of_entered h (.fail error)

/-- A comparison enters its answer. -/
theorem judged {v : Value} {answer : Outcome} (h : Entered [⟨o.element, answer⟩] s s')
    (hkept : s.kept.lookup o.slot = some v) (hcompares : o.command.compares v = true)
    (hown : answer.isAboutRow = false) : o.Acted .verify [⟨o.element, answer⟩] s s' := by
  refine of_entered h ?_
  rw [hkept]
  exact .judge hcompares hown

/-- After a value was found it is kept in the slot of the call. -/
theorem keeping {v : Value} (h : Entered [] s s')
    (hv : o.command.compares v = true ∨ o.command.judges = false)
    (h' : Entered [] { s' with kept := (o.slot, v) :: s'.kept } s'') :
    o.Acted .execute [] s s'' := by
  have hlookup : s''.kept.lookup o.slot = some v := by
    rw [h'.kept]
    exact List.lookup_cons_self
  refine ⟨h'.outcomes.trans ?_, ?_, fun {slot} hslot => ?_⟩
  · rw [List.append_nil]
    exact h.outcomes
  · rw [hlookup]
    exact hv.elim .find .act
  · rw [h'.kept, List.lookup_cons, beq_false_of_ne hslot, h.kept]

end Occurrence.Acted

namespace Run

variable {env : Surroundings} {n : NodeId} {e : Event}

/-! ## Small parts -/

/-- Telling listeners enters nothing. -/
theorem tell_enters (he : e.channel ≠ .parsing) :
    Gives env s (tell env.bus e) fun _ => Entered [] s :=
  .tell he fun _ h => .none h.record h.kept

/-- An outcome is recorded before it is told. -/
theorem report_enters (x : Recorded) : Gives env s (report env x) fun _ => Entered [x] s := by
  have hnote :
      (note fun r => r.add x).result s = (.ok (), { s with record := s.record.add x }) := rfl
  refine .after hnote (.after result_look ?_)
  refine (tell_enters (x.event_not_parsing _)).mono fun _ s' hs' => ?_
  have hnoted : Entered [x] s { s with record := s.record.add x } := ⟨s.record.outcomes_add x, rfl⟩
  exact hnoted.before hs'

/-- An outcome is recorded even if a listener refuses to hear of it. -/
theorem report_always (x : Recorded) :
    Always (fun s s' : RunState φ => Entered [x] s s' ∧ s'.tree = s.tree) (report env x) := by
  intro s
  have hnote :
      (note fun r => r.add x).result s = (.ok (), { s with record := s.record.add x }) := rfl
  unfold report
  rw [result_bind, hnote]
  dsimp only
  rw [spot, result_bind, result_look]
  let event := x.event ⟨x.element, s.tree.describe x.element⟩
  have htell : Always (Overheard event) (tell env.bus event : Run φ Unit) := tell_overheard
  have heard := htell { s with record := s.record.add x }
  have hnoted : Entered [x] s { s with record := s.record.add x } := ⟨s.record.outcomes_add x, rfl⟩
  exact ⟨hnoted.before (.none heard.record heard.kept),
    heard.tree.resolve_left (x.event_not_parsing _)⟩

/-- A comparison of two values, the result of which is reported. -/
theorem verdict_enters {q : Prop} [Decidable q] {expected actual : String} :
    Gives env s (if q then recordSuccess env n else recordFailure env n expected actual) fun _ s' =>
      ∃ answer : Outcome, answer.isAboutRow = false ∧ Entered [⟨n, answer⟩] s s' := by
  split
  · exact (report_enters ⟨n, .success⟩).mono fun _ _ h => ⟨.success, rfl, h⟩
  · exact (report_enters ⟨n, .failure expected actual⟩).mono fun _ _ h =>
      ⟨.failure expected actual, rfl, h⟩

variable [Fixture φ]

/-- An expression has a value, or the error is recorded. -/
theorem evaluateAt_enters {source : String} : Gives env s (evaluateAt env n source) fun v? s' =>
    v?.isSome ∧ Entered [] s s' ∨ v? = none ∧ ∃ error,
      Entered [⟨n, .exception source error⟩] s s' := by
  refine .after result_bindElement (.after result_evaluate ?_)
  cases (s.bound n).scope.evaluate source |>.1 with
  | ok v => exact .pure (.inl ⟨rfl, .none rfl rfl⟩)
  | error error =>
    refine .bind (report_enters ⟨n, .exception source error⟩) fun _ s' h =>
      .pure (.inr ⟨rfl, error, ?_⟩)
    exact h.after (.none rfl rfl)

/-! ## What each command records -/

/-- An assertion of equality enters what its command does, in whichever phase. -/
theorem assertEquals_acted (hc : o.command = .assertEquals) :
    Gives env s (assertEquals env o p) fun _ s' => ∃ xs, o.Acted p xs s s' := by
  have hcompares : ∀ v, o.command.compares v = true := fun v => by rw [hc]; rfl
  cases p with
  | setup => exact .pure ⟨[], .of_entered .refl .prepare⟩
  | execute =>
    refine .bind evaluateAt_enters fun v? s' h => ?_
    rcases h with ⟨hsome, h⟩ | ⟨rfl, error, h⟩
    · obtain ⟨v, rfl⟩ := Option.isSome_iff_exists.mp hsome
      exact .keep ⟨[], .keeping h (.inl (hcompares v)) .refl⟩
    · exact .pure ⟨[o.excepted error], .failed h⟩
  | verify =>
    refine .after result_kept? ?_
    cases hkept : s.kept.lookup o.slot with
    | none => exact .pure ⟨[], .of_entered .refl (.pass fun v hv => by rw [hkept] at hv; cases hv)⟩
    | some v =>
      refine .after result_look (verdict_enters.mono fun _ s' h => ?_)
      obtain ⟨answer, hown, h⟩ := h
      exact ⟨_, .judged h hkept (hcompares v) hown⟩

/-- So does an assertion of a truth value. -/
theorem assertBoolean_acted {expected : Bool} (hc : o.command = .assertBoolean expected) :
    Gives env s (assertBoolean env expected o p) fun _ s' => ∃ xs, o.Acted p xs s s' := by
  have hcompares : ∀ b, o.command.compares (.bool b) = true := fun b => by rw [hc]; rfl
  cases p with
  | setup => exact .pure ⟨[], .of_entered .refl .prepare⟩
  | execute =>
    refine .bind evaluateAt_enters fun v? s₁ h => ?_
    rcases h with ⟨hsome, h⟩ | ⟨rfl, error, h⟩
    · obtain ⟨v, rfl⟩ := Option.isSome_iff_exists.mp hsome
      cases v with
      | bool b => exact .keep ⟨[], .keeping h (.inl (hcompares b)) .refl⟩
      | _ =>
        -- a value of another kind is an error as well
        refine (report_enters (o.excepted _)).mono fun _ s' h' =>
          ⟨[o.excepted _], .failed (h'.after h)⟩
    · exact .pure ⟨[o.excepted error], .failed h⟩
  | verify =>
    refine .after result_kept? ?_
    split
    · next b hkept =>
      refine verdict_enters.mono fun _ s' h => ?_
      obtain ⟨answer, hown, h⟩ := h
      exact ⟨_, .judged h hkept (hcompares b) hown⟩
    · next hother =>
      refine .pure ⟨[], .of_entered .refl (.pass fun v hv => ?_)⟩
      rw [hc]
      cases v with
      | bool b => exact absurd hv (hother b)
      | _ => rfl

/-- So does an `echo`. -/
theorem echo_acted (hc : o.command = .echo) :
    Gives env s (echo env o p) fun _ s' => ∃ xs, o.Acted p xs s s' := by
  have hjudges : o.command.judges = false := by rw [hc]; rfl
  have hfilled : ∀ (s s₁ : RunState φ) (text : String), Entered [] s s₁ →
      Gives env s₁ (do change fun t => t.setText o.element text; tidy) fun _ s' =>
        ∃ xs, o.Acted .execute xs s s' :=
    fun s s₁ text h => .after rfl ⟨[], .of_entered (h.before (.none rfl rfl)) (.act hjudges)⟩
  cases p with
  | setup => exact .pure ⟨[], .of_entered .refl .prepare⟩
  | execute =>
    refine .after result_bindElement (.after result_evaluate ?_)
    cases (s.bound o.element).scope.evaluate o.expression |>.1 with
    | ok v => exact hfilled s _ _ (.none rfl rfl)
    | error error =>
      dsimp only
      split
      · exact hfilled s _ _ (.none rfl rfl)
      · refine (report_enters (o.excepted error)).mono fun _ s' h =>
          ⟨[o.excepted error], .failed (h.after ?_)⟩
        exact .none rfl rfl
  | verify => exact .pure ⟨[], .of_entered .refl (.pass fun v _ => by rw [hc]; rfl)⟩

/-- So does an `execute`. -/
theorem execute_acted (hc : o.command = .execute) :
    Gives env s (if p = .execute then executeAt env o o.element else pure ()) fun _ s' =>
      ∃ xs, o.Acted p xs s s' := by
  have hjudges : o.command.judges = false := by rw [hc]; rfl
  have hdone : ∀ s₁ : RunState φ, Gives env s₁
      (do tell env.bus (.executeCompleted (← spot o.element) o.expression))
      fun _ => Entered [] s₁ := fun s₁ => .after result_look (tell_enters nofun)
  cases p with
  | setup => exact .pure ⟨[], .of_entered .refl .prepare⟩
  | execute =>
    rw [if_pos rfl]
    refine .bind evaluateAt_enters fun v? s₁ h => ?_
    rcases h with ⟨hsome, h⟩ | ⟨rfl, error, h⟩
    · obtain ⟨v, rfl⟩ := Option.isSome_iff_exists.mp hsome
      exact .after rfl ((hdone _).mono fun _ s' h' => ⟨[], .keeping h (.inr hjudges) h'⟩)
    · exact (hdone s₁).mono fun _ s' h' => ⟨[o.excepted error], .failed (h.before h')⟩
  | verify => exact .pure ⟨[], .of_entered .refl (.pass fun v _ => by rw [hc]; rfl)⟩

/-- So does a `set`. -/
theorem setTarget_acted (hc : o.command = .set) :
    Gives env s (setTarget env o p) fun _ s' => ∃ xs, o.Acted p xs s s' := by
  have hjudges : o.command.judges = false := by rw [hc]; rfl
  cases p with
  | setup => exact .pure ⟨[], .of_entered .refl .prepare⟩
  | execute =>
    refine .after result_look (.after result_bindElement (.after result_assign ?_))
    cases ((s.bound o.element).scope.assign o.expression
      (.string (Text.normal (s.tree.text o.element)))).1 with
    | ok _ => exact .pure ⟨[], .of_entered (.none rfl rfl) (.act hjudges)⟩
    | error error =>
      refine (report_enters (o.excepted error)).mono fun _ s' h =>
        ⟨[o.excepted error], .failed (h.after ?_)⟩
      exact .none rfl rfl
  | verify => exact .pure ⟨[], .of_entered .refl (.pass fun v _ => by rw [hc]; rfl)⟩

omit [Fixture φ] in
/-- Whatever comes of the request, it is a verdict to be compared or an exception. -/
theorem runLinked_acted (hc : o.command = .run) :
    Gives env s (runLinked env o p) fun _ s' => ∃ xs, o.Acted p xs s s' := by
  have hcompares : ∀ text, o.command.compares (.string text) = true := fun text => by rw [hc]; rfl
  have hfailed : ∀ (s s₁ : RunState φ) (error : EvaluationError), Entered [] s s₁ →
      Gives env s₁ (recordException env o.element o.expression error) fun _ s' =>
        ∃ xs, o.Acted .execute xs s s' :=
    fun s s₁ error h => (report_enters (o.excepted error)).mono fun _ s' h' =>
      ⟨[o.excepted error], .failed (h'.after h)⟩
  cases p with
  | setup => exact .pure ⟨[], .of_entered .refl .prepare⟩
  | execute =>
    refine .after result_look ?_
    cases s.tree.attribute? o.element "href" with
    | none => exact hfailed s s _ .refl
    | some href =>
      dsimp only
      split
      · exact hfailed s s _ .refl
      · rw [ask_bind fun _ => rfl]
        refine .bind (P := fun verdict s₁ => Entered [] s s₁ ∧
          ∀ cause, verdict ≠ .error (.aborted cause)) ?_ ?_
        · exact .ask fun verdict w hne => ⟨.none rfl rfl, hne⟩
        · rintro verdict s₁ ⟨h, hne⟩
          split
          · next v => exact .keep ⟨[], .keeping h (.inl (hcompares v.word)) .refl⟩
          · next cause => exact absurd rfl (hne cause)
          · exact hfailed s s₁ _ h
  | verify =>
    refine .after result_kept? ?_
    split
    · next actual hkept =>
      refine .after result_look ?_
      dsimp only
      split
      · refine (report_enters (o.excepted _)).mono fun _ s' h =>
          ⟨_, .judged h hkept (hcompares actual) rfl⟩
      · refine verdict_enters.mono fun _ s' h => ?_
        obtain ⟨answer, hown, h⟩ := h
        exact ⟨_, .judged h hkept (hcompares actual) hown⟩
    · next hother =>
      refine .pure ⟨[], .of_entered .refl (.pass fun v hv => ?_)⟩
      rw [hc]
      cases v with
      | string text => exact absurd hv (hother text)
      | _ => rfl

/-- **What a call records in a phase.** A command that specifications are written with, other than
`verifyRows`, does in each phase what a call of it may do, unless it is halted. -/
theorem part_acted (hbuiltIn : o.command.isBuiltIn = true) (hrows : o.command ≠ .verifyRows) :
    Gives env s (part env o p) fun _ s' => ∃ xs, o.Acted p xs s s' := by
  unfold part
  cases hc : o.command with
  | assertEquals => exact assertEquals_acted hc
  | assertBoolean expected => exact assertBoolean_acted hc
  | echo => exact echo_acted hc
  | execute => exact execute_acted hc
  | set => exact setTarget_acted hc
  | run => exact runLinked_acted hc
  | verifyRows => exact absurd hc hrows
  | inert => rw [hc] at hbuiltIn; cases hbuiltIn
  | probe probe => rw [hc] at hbuiltIn; cases hbuiltIn

end Run
end LiveSpec
