import LiveSpec.Proofs.Listening.Hearing
import LiveSpec.Proofs.Tree.Onward
import LiveSpec.Run.Protocol

/-!
# What commands do to a run

A command at an element reports outcomes there, replaces the content of the element, takes the
element out of the document, or lets go of what nobody holds: `Deed` lists all of this, and `Deeds`
is any number of deeds at one element. Every built-in command that does not apply others to the rows
of a table does deeds at its element only, and so do the commands that watch a run. Whatever holds
of each deed holds of all of them.

With the calls inside it, a command does what they do as well; `step_keeps` says what a relation
needs in order to be kept by a phase of such a call.
-/

namespace LiveSpec

open Markup (NodeId Tree)

/-- Says whether an outcome is about a row that has no item or an item that has no row. -/
def Outcome.isAboutRow : Outcome → Bool
  | .missingRow _ | .surplusRow _ => true
  | _ => false

/-- The calls of a list are among those that are reached from it. -/
theorem Call.head_mem_walkAll {o : Occurrence} {cs : List Call} (h : o ∈ cs.map Call.head) :
    o ∈ Call.walkAll cs := by
  induction cs with
  | nil => cases h
  | cons c cs ih =>
    unfold Call.walkAll
    rcases List.mem_cons.mp h with rfl | h
    · cases c
      exact List.mem_append_left _ List.mem_cons_self
    · exact List.mem_append_right _ (ih h)

variable {φ : Type}

/-- Two states that differ in neither the tree, nor the record, nor the visits. -/
structure Quiet (s s' : RunState φ) : Prop where
  tree : s'.tree = s.tree
  record : s'.record = s.record
  visits : s'.visits = s.visits

instance : IsPreorder (RunState φ) Quiet where
  refl _ := ⟨rfl, rfl, rfl⟩
  trans _ _ _ h h' := ⟨h'.tree.trans h.tree, h'.record.trans h.record, h'.visits.trans h.visits⟩

/-- A state that differs from another one in what was reported at an element: outcomes of
expressions and assertions. -/
structure Reports (n : NodeId) (s s' : RunState φ) : Prop where
  tree : s'.tree = s.tree
  visits : s'.visits = s.visits
  outcomes : ∃ xs : List Outcome, (∀ x ∈ xs, x.isAboutRow = false) ∧
    s'.record.outcomes = s.record.outcomes ++ xs.map fun x => ⟨n, x⟩

instance {n : NodeId} : IsPreorder (RunState φ) (Reports n) where
  refl _ := ⟨rfl, rfl, [], by simp, by simp⟩
  trans _ _ _ h h' := by
    obtain ⟨xs, hxs, hx⟩ := h.outcomes
    obtain ⟨ys, hys, hy⟩ := h'.outcomes
    refine ⟨h'.tree.trans h.tree, h'.visits.trans h.visits, xs ++ ys, fun z hz => ?_, ?_⟩
    · exact (List.mem_append.mp hz).elim (hxs z) (hys z)
    · rw [hy, hx, List.map_append, List.append_assoc]

/-- What changes neither tree nor record reports nothing, which is one way to report at an element.
-/
theorem Reports.of_quiet {n : NodeId} {s s' : RunState φ} (h : Quiet s s') : Reports n s s' :=
  ⟨h.tree, h.visits, [], by simp, by simp [h.record]⟩

/-- What a command does at its element. -/
inductive Deed (n : NodeId) (s s' : RunState φ) : Prop
  | report (h : Reports n s s')
  | fill (text : String) (h : s' = { s with tree := s.tree.setText n text })
  | remove (t : Tree) (removed : s.tree.remove n = .ok t) (h : s' = { s with tree := t })
  | tidy (held : NodeId → Bool) (h : s' = { s with tree := s.tree.release held })

/-- Any number of deeds at an element. -/
abbrev Deeds (n : NodeId) : RunState φ → RunState φ → Prop := Relation.ReflTransGen (Deed n)

instance {n : NodeId} : IsPreorder (RunState φ) (Deeds n) where

/-- Reports at an element are deeds there. -/
theorem Deeds.of_reports {n : NodeId} {s s' : RunState φ} (h : Reports n s s') : Deeds n s s' :=
  .single (.report h)

/-- And so is doing nothing. -/
theorem Deeds.of_quiet {n : NodeId} {s s' : RunState φ} (h : Quiet s s') : Deeds n s s' :=
  .of_reports (.of_quiet h)

/-- Between two states outcomes were added, all of them of a kind. -/
def Adds (P : Recorded → Prop) (s s' : RunState φ) : Prop :=
  ∃ xs, s'.record.outcomes = s.record.outcomes ++ xs ∧ ∀ x ∈ xs, P x

namespace Adds

variable {P P' : Recorded → Prop} {s s' : RunState φ}

/-- An unchanged record has nothing added to it. -/
theorem none (h : s'.record = s.record) : Adds P s s' := ⟨[], by rw [h, List.append_nil], nofun⟩

/-- What is added at some elements is added at more of them. -/
theorem mono (h : Adds P s s') (hP : ∀ x, P x → P' x) : Adds P' s s' := by
  obtain ⟨xs, houtcomes, hxs⟩ := h
  exact ⟨xs, houtcomes, fun x hx => hP x (hxs x hx)⟩

instance : IsPreorder (RunState φ) (Adds P) where
  refl _ := none rfl
  trans _ _ _ h h' := by
    obtain ⟨xs, hxs, hP⟩ := h
    obtain ⟨ys, hys, hP'⟩ := h'
    refine ⟨xs ++ ys, by rw [hys, hxs, List.append_assoc], fun x hx => ?_⟩
    exact (List.mem_append.mp hx).elim (hP x) (hP' x)

/-- Deeds at an element add outcomes of that element. -/
theorem of_deeds {n : NodeId} (h : Deeds n s s') : Adds (fun x => x.element = n) s s' := by
  induction h with
  | refl => exact none rfl
  | tail _ hd ih =>
    refine trans_of (Adds _) ih ?_
    cases hd with
    | report h =>
      obtain ⟨xs, -, houtcomes⟩ := h.outcomes
      refine ⟨_, houtcomes, fun x hx => ?_⟩
      obtain ⟨y, -, rfl⟩ := List.mem_map.mp hx
      rfl
    | fill _ h | remove _ _ h | tidy _ h => exact none (by rw [h])

end Adds

/-- The outcomes that are recorded at an element, in order. -/
def Record.outcomesAt (r : Record) (n : NodeId) : List Outcome :=
  (r.outcomes.filter fun x => x.element == n).map Recorded.outcome

/-- Outcomes that are added count at their elements, after those before. -/
theorem Record.outcomesAt_append {r r' : Record} {n : NodeId} {xs : List Recorded}
    (h : r'.outcomes = r.outcomes ++ xs) :
    r'.outcomesAt n = r.outcomesAt n ++ (xs.filter fun x => x.element == n).map
      Recorded.outcome := by
  unfold outcomesAt
  rw [h, List.filter_append, List.map_append]

/-- Outcomes that are added elsewhere do not count. -/
theorem Adds.outcomesAt_eq {n : NodeId} {s s' : RunState φ}
    (h : Adds (fun x => x.element ≠ n) s s') :
    s'.record.outcomesAt n = s.record.outcomesAt n := by
  obtain ⟨xs, hxs, hne⟩ := h
  have hnone : (xs.filter fun x => x.element == n) = [] :=
    List.filter_eq_nil_iff.mpr fun x hx => by simpa using hne x hx
  rw [Record.outcomesAt_append hxs, hnone, List.map_nil, List.append_nil]

namespace Run

variable {env : Surroundings} {n : NodeId} {o : Occurrence} {bus : Bus} {e : Event}

/-! ## Parts that leave no trace -/

/-- A change of the state that touches neither the tree, nor the record, nor the visits. -/
theorem modify_quiet {f : RunState φ → RunState φ} (h : ∀ s, Quiet s (f s)) :
    Always Quiet (modify f : Run φ PUnit) := .modify h

/-- The log is no part of tree or record. -/
theorem log_quiet {entry : LogEntry} : Always Quiet (log entry : Run φ Unit) :=
  modify_quiet fun _ => ⟨rfl, rfl, rfl⟩

theorem keep_quiet {slot : Nat} {v : Value} : Always Quiet (keep slot v : Run φ Unit) :=
  modify_quiet fun _ => ⟨rfl, rfl, rfl⟩

/-- Nor is the world, in which nested runs take place. -/
theorem inWorld_quiet {α : Type} {part : StateM World α} : Always Quiet (inWorld part : Run φ α) :=
  .bind .get fun _ => .bind (modify_quiet fun _ => ⟨rfl, rfl, rfl⟩) fun _ => .pure

theorem bindVariable_quiet {name : String} {v : Value} :
    Always Quiet (bindVariable name v : Run φ Unit) :=
  modify_quiet fun _ => ⟨rfl, rfl, rfl⟩

theorem bindElement_quiet : Always Quiet (bindElement n : Run φ Unit) :=
  .bind .look fun _ => .bind bindVariable_quiet fun _ => .bind .look fun _ => bindVariable_quiet

/-- Evaluating changes the scope alone. -/
theorem evaluate_quiet [Fixture φ] {source : String} : Always Quiet (evaluate source : Run φ _) :=
  .bind .get fun _ => .bind (modify_quiet fun _ => ⟨rfl, rfl, rfl⟩) fun _ => .pure

theorem assign_quiet [Fixture φ] {source : String} {v : Value} :
    Always Quiet (assign source v : Run φ _) :=
  .bind .get fun _ => .bind (modify_quiet fun _ => ⟨rfl, rfl, rfl⟩) fun _ => .pure

/-- Only a listener to parsing changes the document. -/
theorem tell_quiet (he : e.channel ≠ .parsing) : Always Quiet (tell bus e : Run φ Unit) :=
  tell_overheard.mono fun h => ⟨h.tree.resolve_left he, h.record, h.visits⟩

/-- To let go of what nobody holds is a deed. -/
theorem tidy_deeds : Always (Deeds n) (tidy : Run φ Unit) := fun _ => .single (.tidy _ rfl)

/-- An element is taken out of the document, if it is in it. -/
theorem remove_deeds : Always (Deeds n) (attempt fun t => t.remove n : Run φ Unit) := fun s => by
  unfold attempt
  rw [result_bind, result_find]
  cases hremove : s.tree.remove n with
  | error e => exact refl_of (Deeds n) s
  | ok t => exact .single (.remove t hremove rfl)

/-! ## Reporting outcomes -/

/-- Listeners of anything but parsing are told without a change of the tree. -/
theorem tell_reports (he : e.channel ≠ .parsing) : Always (Reports n) (tell bus e : Run φ Unit) :=
  (tell_quiet he).mono .of_quiet

/-- An outcome of the element is added to the record. -/
theorem note_reports {f : Record → Record} (x : Outcome) (own : x.isAboutRow = false)
    (h : ∀ r, (f r).outcomes = r.outcomes ++ [⟨n, x⟩]) : Always (Reports n) (note f : Run φ Unit) :=
  .modify fun s => ⟨rfl, rfl, [x], fun _ hy => List.mem_singleton.mp hy ▸ own, h s.record⟩

theorem recordSuccess_reports : Always (Reports n) (recordSuccess env n : Run φ Unit) :=
  .bind (note_reports .success rfl fun _ => rfl) fun _ => .bind .spot fun _ =>
    tell_reports (by simp [Event.channel])

theorem recordFailure_reports {expected actual : String} :
    Always (Reports n) (recordFailure env n expected actual : Run φ Unit) :=
  .bind (note_reports (.failure expected actual) rfl fun _ => rfl) fun _ => .bind .spot fun _ =>
    tell_reports (by simp [Event.channel])

/-- An exception is recorded at its element. -/
theorem recordException_reports {expression : String} {error : EvaluationError} :
    Always (Reports n) (recordException env n expression error : Run φ Unit) :=
  .bind (note_reports (.exception expression error) rfl fun _ => rfl) fun _ => .bind .spot fun _ =>
    tell_reports (by simp [Event.channel])

/-- A comparison of two values, the result of which is reported. -/
theorem verdict_reports {p : Prop} [Decidable p] {expected actual : String} :
    Always (Reports n) (if p then recordSuccess env n else
      recordFailure env n expected actual : Run φ Unit) := by
  split
  · exact recordSuccess_reports
  · exact recordFailure_reports

theorem keep_reports {slot : Nat} {v : Value} : Always (Reports n) (keep slot v : Run φ Unit) :=
  keep_quiet.mono .of_quiet

/-- A value that is kept if there is one. -/
theorem keepSome_reports {slot : Nat} {v? : Option Value} :
    Always (Reports n) (match v? with | some v => keep slot v | none => pure () : Run φ Unit) := by
  cases v? with
  | some v => exact keep_reports
  | none => exact .pure

/-- An evaluation at an element records an exception there at most. -/
theorem evaluateAt_reports [Fixture φ] {source : String} :
    Always (Reports n) (evaluateAt env n source : Run φ _) := by
  refine .bind (bindElement_quiet.mono .of_quiet) fun _ =>
    .bind (evaluate_quiet.mono .of_quiet) fun answer => ?_
  cases answer with
  | ok v => exact .pure
  | error cause => exact .bind recordException_reports fun _ => .pure

/-- The expression of an `execute` leaves no more than that. -/
theorem executeAt_reports [Fixture φ] : Always (Reports n) (executeAt env o n : Run φ Unit) := by
  have hdone : Always (Reports n)
      (do tell env.bus (.executeCompleted (← spot n) o.expression) : Run φ Unit) :=
    .bind .spot fun _ => tell_reports (by simp [Event.channel])
  refine .bind evaluateAt_reports fun v? => ?_
  cases v? with
  | some v => exact .bind keep_reports fun _ => hdone
  | none => exact hdone

/-! ## What each command does at its element -/

/-- Setting the text of the element is a deed there. -/
theorem fill_deeds {text : String} :
    Always (Deeds n) (change fun t => t.setText n text : Run φ Unit) :=
  fun _ => .single (.fill text rfl)

variable [Fixture φ]

/-- An assertion reports at its element and touches no tree. -/
theorem assertEquals_reports {p : Phase} :
    Always (Reports o.element) (assertEquals env o p : Run φ Unit) := by
  cases p with
  | setup => exact .pure
  | execute => exact .bind evaluateAt_reports fun _ => keepSome_reports
  | verify =>
    refine .bind .kept? fun v? => ?_
    cases v? with
    | none => exact .pure
    | some v => exact .bind .look fun _ => verdict_reports

theorem assertBoolean_reports {expected : Bool} {p : Phase} :
    Always (Reports o.element) (assertBoolean env expected o p : Run φ Unit) := by
  cases p with
  | setup => exact .pure
  | execute =>
    refine .bind evaluateAt_reports fun v? => ?_
    split
    · exact keep_reports
    · exact recordException_reports
    · exact .pure
  | verify =>
    refine .bind .kept? fun v? => ?_
    split
    · exact verdict_reports
    · exact .pure

/-- An `echo` changes the text of its element, lets go of what was in it, and may record an
exception. -/
theorem echo_deeds {p : Phase} : Always (Deeds o.element) (echo env o p : Run φ Unit) := by
  cases p with
  | setup => exact .pure
  | execute =>
    refine .bind (bindElement_quiet.mono .of_quiet) fun _ =>
      .bind (evaluate_quiet.mono .of_quiet) fun answer => ?_
    cases answer with
    | ok v => exact .bind fill_deeds fun _ => tidy_deeds
    | error cause =>
      dsimp only
      split
      · exact .bind fill_deeds fun _ => tidy_deeds
      · exact recordException_reports.mono .of_reports
  | verify => exact .pure

theorem setTarget_reports {p : Phase} :
    Always (Reports o.element) (setTarget env o p : Run φ Unit) := by
  cases p with
  | setup => exact .pure
  | execute =>
    refine .bind .look fun _ => .bind (bindElement_quiet.mono .of_quiet) fun _ =>
      .bind (assign_quiet.mono .of_quiet) fun answer => ?_
    cases answer with
    | ok _ => exact .pure
    | error cause => exact recordException_reports
  | verify => exact .pure

omit [Fixture φ] in
/-- A nested run leaves its verdict at the element that asks for it. -/
theorem runLinked_reports {p : Phase} :
    Always (Reports o.element) (runLinked env o p : Run φ Unit) := by
  cases p with
  | setup => exact .pure
  | execute =>
    refine .bind .look fun href? => ?_
    cases href? with
    | none => exact recordException_reports
    | some href =>
      dsimp only
      split <;> [refine .bind .pure fun verdict => ?_;
        refine .bind (inWorld_quiet.mono .of_quiet) fun verdict => ?_]
      -- the answer is dealt with alike, whether or not the nested run was begun
      all_goals
        split
        · exact keep_reports
        · exact .throw
        · exact recordException_reports
  | verify =>
    refine .bind .kept? fun v? => ?_
    split
    · refine .bind .look fun _ => ?_
      dsimp only
      split
      · exact recordException_reports
      · exact verdict_reports
    · exact .pure

/-- The sequence of a `verifyRows` is evaluated at the table. -/
theorem produceItems_reports : Always (Reports o.element) (produceItems env o : Run φ Unit) := by
  unfold produceItems
  split
  · exact recordException_reports
  · refine .bind evaluateAt_reports fun v? => ?_
    split
    · exact .bind .spot fun _ => .bind (tell_reports (by simp [Event.channel])) fun _ =>
        keep_reports
    · exact recordException_reports
    · exact .pure

omit [Fixture φ] in
/-- The visit of a call is noted before its part runs. -/
theorem yields_visit {p : Phase} {part : Run φ Unit} {s s' : RunState φ} {u : Unit} :
    (visit p o part).Yields s u s' ↔
      part.Yields { s with visits := s.visits ++ [(p, o)] } u s' := by
  unfold visit
  rw [yields_bind]
  constructor
  · rintro ⟨_, _, h, hpart⟩
    cases yields_modify.mp h
    exact hpart
  · exact fun h => ⟨⟨⟩, _, yields_modify.mpr rfl, h⟩

omit [Fixture φ] in
/-- The commands of a header are moved to a row without a change of tree or record. -/
theorem retarget_quiet {l : TableLayout} {columns : List Occurrence} {row : NodeId} :
    Keeps Quiet (retarget l columns row : Run φ _) := by
  have hslot : Keeps Quiet (freshSlot : Run φ Nat) := fun s a s' hy => by
    obtain ⟨-, rfl⟩ := yields_freshSlot.mp hy
    exact ⟨rfl, rfl, rfl⟩
  exact .bind .find fun _ => .mapM fun _ _ => .bind hslot fun _ => .pure

/-! ## A command with the calls inside it

What a relation needs in order to be kept by a command: that it is kept by deeds at the element, by
the calls inside, and by what the command does to the rows of a table. -/

section Acts

variable {R : RunState φ → RunState φ → Prop} [IsPreorder (RunState φ) R]
  {columns : List Occurrence} {inside : Inside φ}
  {runRow : List Occurrence → Run φ Unit → Run φ Unit} {p : Phase}
  (hR : ∀ {s s'}, Deeds o.element s s' → R s s')
  (hvisit : ∀ s p, R s { s with visits := s.visits ++ [(p, o)] })
  (hphase : ∀ p, Keeps R (inside.phase p)) (hbinding : ∀ b, Keeps R (inside.binding b))

omit [Fixture φ] in
include hvisit in
/-- Visits are noted where a relation does not look at them. -/
theorem visit_keeps {part : Run φ Unit} (h : Keeps R part) :
    Keeps R (visit p o part) := fun s _ _ hy =>
  trans_of R (hvisit s p) (h (yields_visit.mp hy))

include hphase

/-- A phase of a call is what the command does, with the calls inside it before or after. -/
theorem step_keeps_of_act (hact : Keeps R (act env runRow o columns inside p)) :
    Keeps R (step env runRow o columns inside p) := by
  unfold step
  dsimp only
  split
  · exact hact
  · cases p with
    | setup => exact .bind hact fun _ => hphase _
    | execute => exact .bind hact fun _ => hphase _
    | verify => exact .bind (hphase _) fun _ => hact

include hbinding

include hvisit in
/-- An `execute` keeps what its expression and its table keep, and the calls inside it. -/
theorem executeCommand_keeps
    (hown : ∀ p, Keeps R (visit p o (if p = .execute then executeAt env o o.element else pure ())))
    (htable : columns ≠ [] → Keeps R (executeTable env runRow o columns)) :
    Keeps R (executeCommand env runRow o columns inside p) := by
  refine .bind .get fun s => ?_
  split
  · next htd =>
    have hne : columns ≠ [] := by
      rintro rfl
      simp [isTableDriven] at htd
    refine visit_keeps hvisit ?_
    split
    · exact htable hne
    · exact .pure
  · cases p with
    | setup => exact .bind (hown .setup) fun _ => hphase _
    | execute => exact .bind (hbinding _) fun _ => .bind (hown .execute) fun _ => hbinding _
    | verify => exact .bind (hphase _) fun _ => hown .verify

include hR

theorem probePhase_keeps {probe : Probe} : Keeps R (probePhase env probe o inside p) := by
  refine .bind .spot fun _ => .bind .get fun _ => .bind
    (log_quiet.keeps.mono fun q => hR (.of_quiet q)) fun _ => ?_
  split
  · next act _ =>
    split
    · cases act with
      | success => exact recordSuccess_reports.keeps.mono fun r => hR (.of_reports r)
      | failure => exact recordFailure_reports.keeps.mono fun r => hR (.of_reports r)
      | evaluate =>
        refine .bind (evaluateAt_reports.keeps.mono fun r => hR (.of_reports r)) fun v? => ?_
        cases v? with
        | some v => exact .bind (log_quiet.keeps.mono fun q =>
          hR (.of_quiet q)) fun _ => keep_quiet.keeps.mono fun q => hR (.of_quiet q)
        | none => exact .pure
      | remove => exact .bind (remove_deeds.keeps.mono hR) fun _ => tidy_deeds.keeps.mono hR
      | drive => exact hphase p
      | rows =>
        exact .bind (hphase _) fun _ => .bind (.bind (hbinding _) fun _ =>
          .bind (log_quiet.keeps.mono fun q => hR (.of_quiet q)) fun _ =>
            hbinding _) fun _ => hphase _
      | describe => exact .bind .get fun _ => log_quiet.keeps.mono fun q => hR (.of_quiet q)
    · exact .pure
  · exact .pure

/-- A command other than `execute` notes its visit and then does its part. -/
theorem act_eq_visit (hne : o.command ≠ .execute)
    (hrows : o.command = .verifyRows → Keeps R (verifyRows env runRow o columns p)) :
    ∃ part, act env runRow o columns inside p = visit p o part ∧ Keeps R part := by
  unfold act
  cases hc : o.command with
  | assertEquals => exact ⟨_, rfl, assertEquals_reports.keeps.mono fun r => hR (.of_reports r)⟩
  | assertBoolean expected =>
    exact ⟨_, rfl, assertBoolean_reports.keeps.mono fun r => hR (.of_reports r)⟩
  | echo => exact ⟨_, rfl, echo_deeds.keeps.mono hR⟩
  | execute => exact absurd hc hne
  | set => exact ⟨_, rfl, setTarget_reports.keeps.mono fun r => hR (.of_reports r)⟩
  | run => exact ⟨_, rfl, runLinked_reports.keeps.mono fun r => hR (.of_reports r)⟩
  | verifyRows => exact ⟨_, rfl, hrows hc⟩
  | inert => exact ⟨_, rfl, .pure⟩
  | probe probe => exact ⟨_, rfl, probePhase_keeps hR hphase hbinding⟩

include hvisit

/-- **What a command does keeps a relation** if tables and comparisons of rows do. -/
theorem act_keeps (htable : columns ≠ [] → Keeps R (executeTable env runRow o columns))
    (hrows : o.command = .verifyRows → Keeps R (verifyRows env runRow o columns p)) :
    Keeps R (act env runRow o columns inside p) := by
  by_cases hc : o.command = .execute
  · unfold act
    rw [hc]
    refine executeCommand_keeps hvisit hphase hbinding (fun p => visit_keeps hvisit ?_) htable
    split
    · exact executeAt_reports.keeps.mono fun r => hR (.of_reports r)
    · exact .pure
  · obtain ⟨part, hact, hpart⟩ := act_eq_visit hR hphase hbinding hc hrows
    rw [hact]
    exact visit_keeps hvisit hpart

/-- So does a call with the calls inside it. -/
theorem step_keeps (htable : columns ≠ [] → Keeps R (executeTable env runRow o columns))
    (hrows : o.command = .verifyRows → Keeps R (verifyRows env runRow o columns p)) :
    Keeps R (step env runRow o columns inside p) :=
  step_keeps_of_act hphase (act_keeps hR hvisit hphase hbinding htable hrows)

end Acts

/-! ## The phases of a graph -/

/-- A relation that is kept by a phase of each call, if it is kept by the calls inside it. -/
def KeptBySteps (env : Surroundings) (P : Occurrence → Prop)
    (R : RunState φ → RunState φ → Prop) : Prop :=
  ∀ {o : Occurrence} {columns : List Occurrence} {inside : Inside φ} {p : Phase}, P o →
    (∀ c ∈ columns, P c) →
    (∀ p, Keeps R (inside.phase p)) → (∀ b, Keeps R (inside.binding b)) →
    Keeps R (step env (runRow env) o columns inside p)

mutual
/-- It is kept by a phase of a call with all calls inside it. -/
theorem runCall_keeps {P : Occurrence → Prop} {R : RunState φ → RunState φ → Prop}
    [IsPreorder (RunState φ) R] (hstep : KeptBySteps env P R) :
    (p : Phase) → (c : Call) → (∀ o ∈ c.walk, P o) → Keeps R (runCall env p c : Run φ Unit)
  | p, .mk o cs, h => by
    have hcs : ∀ o ∈ Call.walkAll cs, P o := fun o' h' => h o' (by simp [Call.walk, h'])
    exact hstep (h o (by simp [Call.walk])) (fun c hc => hcs c (Call.head_mem_walkAll hc))
      (fun p => runCalls_keeps hstep p cs hcs) fun b => runBinding_keeps hstep b cs hcs
/-- By induction on calls: a run keeps what each of its steps keeps. -/
theorem runCalls_keeps {P : Occurrence → Prop} {R : RunState φ → RunState φ → Prop}
    [IsPreorder (RunState φ) R] (hstep : KeptBySteps env P R) :
    (p : Phase) → (cs : List Call) → (∀ o ∈ Call.walkAll cs, P o) →
    Keeps R (runCalls env p cs : Run φ Unit)
  | p, [], h => .pure
  | p, c :: cs, h =>
    .bind (runCall_keeps hstep p c fun o h' => h o (by simp [Call.walkAll, h'])) fun _ =>
      runCalls_keeps hstep p cs fun o h' => h o (by simp [Call.walkAll, h'])
theorem runBinding_keeps {P : Occurrence → Prop} {R : RunState φ → RunState φ → Prop}
    [IsPreorder (RunState φ) R] (hstep : KeptBySteps env P R) (b : Bool) :
    (cs : List Call) → (∀ o ∈ Call.walkAll cs, P o) →
    Keeps R (runBinding env b cs : Run φ Unit)
  | [], h => .pure
  | c :: cs, h => by
    have hrest : Keeps R (runBinding env b cs : Run φ Unit) :=
      runBinding_keeps hstep b cs fun o h' => h o (by simp [Call.walkAll, h'])
    unfold runBinding
    split
    · exact .bind (runCall_keeps hstep .execute c fun o h' => h o (by simp [Call.walkAll, h']))
        fun _ => hrest
    · exact hrest
end

end Run
end LiveSpec
