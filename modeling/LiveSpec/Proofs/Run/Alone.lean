import LiveSpec.Proofs.Run.Deeds

/-!
# A call by itself

`part` is what a command does at its element in a phase, the calls inside it and the rows of a table
aside. A call without calls inside it notes its visit and does its part (`stepAlone_eq`). Unless it
compares rows, its part consists of deeds at its element (`part_deeds`). So it never changes what a
node is.
-/

namespace LiveSpec

open Markup (NodeId Tree)

variable {φ : Type}

/-! ## Contents stay -/

/-- The trees of two states hold the same nodes as far as their contents are concerned. -/
def SameContents (s s' : RunState φ) : Prop := s.tree.SameContents s'.tree

instance : IsPreorder (RunState φ) SameContents where
  refl _ := Tree.SameContents.refl
  trans _ _ _ h h' := Tree.SameContents.trans h h'

theorem Deed.sameContents {n : NodeId} {s s' : RunState φ} (h : Deed n s s') :
    SameContents s s' := by
  show s.tree.SameContents s'.tree
  cases h with
  | report r => rw [r.tree]; exact .refl
  | fill text h => exact h ▸ Tree.sameContents_setText text
  | remove t ht h => exact h ▸ Tree.sameContents_remove ht
  | tidy held h => exact h ▸ Tree.sameContents_release

theorem Deed.visits {n : NodeId} {s s' : RunState φ} (h : Deed n s s') : s'.visits = s.visits := by
  cases h with
  | report r => exact r.visits
  | fill _ h | remove _ _ h | tidy _ h => rw [h]

theorem Deeds.sameContents {n : NodeId} {s s' : RunState φ} (h : Deeds n s s') :
    SameContents s s' := by
  induction h with
  | refl => exact refl_of SameContents s
  | tail _ hd ih => exact trans_of SameContents ih hd.sameContents

theorem Deeds.visits {n : NodeId} {s s' : RunState φ} (h : Deeds n s s') :
    s'.visits = s.visits := by
  induction h with
  | refl => rfl
  | tail _ hd ih => exact hd.visits.trans ih

namespace Run

variable [Fixture φ] {env : Surroundings} {o : Occurrence} {p : Phase}

/-! ## The part of a command -/

/-- What a command does at its element in a phase, the calls inside it and the rows of a table
aside. -/
def part (env : Surroundings) (o : Occurrence) (p : Phase) : Run φ Unit :=
  match o.command with
  | .assertEquals => assertEquals env o p
  | .assertBoolean expected => assertBoolean env expected o p
  | .echo => echo env o p
  | .execute => if p = .execute then executeAt env o o.element else pure ()
  | .set => setTarget env o p
  | .run => runLinked env o p
  | .verifyRows => verifyRows env (fun _ between => between) o [] p
  | .inert => pure ()
  | .probe probe => probePhase env probe o .none p

theorem executeCommand_alone (runRow : List Occurrence → Run φ Unit → Run φ Unit) :
    executeCommand env runRow o [] .none p =
      visit p o (if p = .execute then executeAt env o o.element else pure ()) := by
  have hnot : ∀ t, isTableDriven t o [] = false := fun t => by simp [isTableDriven]
  refine ext fun s => ?_
  unfold executeCommand
  show (if isTableDriven s.tree o [] = true then _ else _ : Run φ Unit).result s = _
  rw [if_neg (by simp [hnot])]
  cases p with
  | setup => simp [Inside.none]
  | execute => simp [Inside.none, bindingFirst]
  | verify => simp [Inside.none]

/-- A call by itself notes its visit and does its part. -/
theorem stepAlone_eq : (stepAlone env p o : Run φ Unit) = visit p o (part env o p) := by
  have hact : (act env (fun _ between => between) o [] .none p : Run φ Unit) = visit p o
      (part env o p) := by
    unfold act part
    cases o.command <;> first | rfl | exact executeCommand_alone _
  unfold stepAlone step
  rw [hact]
  dsimp only
  split
  · rfl
  · cases p <;> simp [Inside.none]

/-- The part of a built-in command that compares no rows is to report something, if it is no `echo`.
-/
theorem part_reports (hbuiltIn : o.command.isBuiltIn = true) (hecho : o.command ≠ .echo)
    (hrows : o.command ≠ .verifyRows) :
    Always (Reports o.element) (part env o p : Run φ Unit) := by
  unfold part
  cases hc : o.command with
  | assertEquals => exact assertEquals_reports
  | assertBoolean expected => exact assertBoolean_reports
  | echo => exact absurd hc hecho
  | execute =>
    dsimp only
    split
    · exact executeAt_reports
    · exact .pure
  | set => exact setTarget_reports
  | run => exact runLinked_reports
  | verifyRows => exact absurd hc hrows
  | inert => rw [hc] at hbuiltIn; cases hbuiltIn
  | probe probe => rw [hc] at hbuiltIn; cases hbuiltIn

/-- The part of a built-in command that compares no rows consists of deeds, however it ends. -/
theorem part_always (hbuiltIn : o.command.isBuiltIn = true) (h : o.command ≠ .verifyRows) :
    Always (Deeds o.element) (part env o p : Run φ Unit) := by
  by_cases hecho : o.command = .echo
  · unfold part
    rw [hecho]
    exact echo_deeds
  · exact (part_reports hbuiltIn hecho h).mono .of_reports

theorem part_deeds (h : o.command ≠ .verifyRows) :
    Keeps (Deeds o.element) (part env o p : Run φ Unit) := by
  by_cases hbuiltIn : o.command.isBuiltIn = true
  · exact (part_always hbuiltIn h).keeps
  · unfold part
    cases hc : o.command with
    | inert => exact .pure
    | probe probe => exact probePhase_keeps id (fun _ => .pure) fun _ => .pure
    | _ => rw [hc] at hbuiltIn; exact absurd rfl hbuiltIn

/-! ## The calls of a row -/

section Rows

variable {R : RunState φ → RunState φ → Prop}

/-- What holds of deeds holds of a part, if it holds of a comparison of rows as well. -/
theorem part_keeps (hR : ∀ {s s'}, Deeds o.element s s' → R s s')
    (hrows : o.command = .verifyRows → Keeps R (verifyRows env (fun _ between => between) o [] p)) :
    Keeps R (part env o p : Run φ Unit) := by
  by_cases hc : o.command = .verifyRows
  · unfold part
    rw [hc]
    exact hrows hc
  · exact (part_deeds hc).mono hR

variable [IsPreorder (RunState φ) R] {calls : List Occurrence} {between : Run φ Unit}

theorem stepAlone_keeps (hvisit : ∀ s p o, R s { s with visits := s.visits ++ [(p, o)] })
    (hpart : Keeps R (part env o p : Run φ Unit)) : Keeps R (stepAlone env p o : Run φ Unit) := by
  rw [stepAlone_eq]
  exact visit_keeps (fun s p => hvisit s p o) hpart

theorem runRow_keeps_of_steps (hstep : ∀ o ∈ calls, ∀ p, Keeps R (stepAlone env p o : Run φ Unit))
    (hbetween : Keeps R between) : Keeps R (runRow env calls between) := by
  refine .bind (.forM fun o ho => hstep o ho .setup) fun _ => .bind (.forM fun o ho => ?_) fun _ =>
    .bind hbetween fun _ => .bind (.forM fun o ho => ?_) fun _ => .forM fun o ho =>
      hstep o ho .verify
  · exact hstep o (List.mem_of_mem_filter ho) .execute
  · exact hstep o (List.mem_of_mem_filter ho) .execute

theorem runRow_keeps (hvisit : ∀ s p o, R s { s with visits := s.visits ++ [(p, o)] })
    (hpart : ∀ o ∈ calls, ∀ p, Keeps R (part env o p : Run φ Unit)) (hbetween : Keeps R between) :
    Keeps R (runRow env calls between) :=
  runRow_keeps_of_steps (fun o ho p => stepAlone_keeps hvisit (hpart o ho p)) hbetween

/-- Calls that run one after the other are all visited, as long as what they keep keeps the visits.
-/
theorem visited_forM {P : RunState φ → Prop}
    (hkeep : ∀ {s s'}, P s → R s s' → P s' ∧ s.visits <+: s'.visits)
    (hvisit : ∀ s p o, R s { s with visits := s.visits ++ [(p, o)] })
    (hpart : ∀ o ∈ calls, Keeps R (part env o p : Run φ Unit)) {s s' : RunState φ} {u : Unit}
    (hs : P s) (h : (calls.forM (stepAlone env p)).Yields s u s') :
    ∀ o ∈ calls, (p, o) ∈ s'.visits := by
  induction calls generalizing s with
  | nil => exact fun o ho => by cases ho
  | cons c calls ih =>
    obtain ⟨_, s₁, hc, hrest⟩ := yields_bind.mp h
    have hstep : Keeps R (stepAlone env p c : Run φ Unit) :=
      stepAlone_keeps hvisit (hpart c List.mem_cons_self)
    obtain ⟨hs₁, -⟩ := hkeep hs (hstep hc)
    have hpart' : ∀ o ∈ calls, Keeps R (part env o p : Run φ Unit) :=
      fun o ho => hpart o (List.mem_cons_of_mem c ho)
    have hmore : Keeps R (calls.forM (stepAlone env p)) :=
      .forM fun o ho => stepAlone_keeps hvisit (hpart' o ho)
    intro o ho
    rcases List.mem_cons.mp ho with rfl | ho
    · rw [stepAlone_eq, yields_visit] at hc
      obtain ⟨hs₀, -⟩ := hkeep hs (hvisit s p o)
      obtain ⟨-, hown⟩ := hkeep hs₀ (hpart o List.mem_cons_self hc)
      obtain ⟨-, hlater⟩ := hkeep hs₁ (hmore hrest)
      exact hlater.subset (hown.subset (by simp))
    · exact ih hpart' hs₁ hrest o ho

/-- **The calls of a row pass through all phases.** -/
theorem visited_runRow {P : RunState φ → Prop}
    (hkeep : ∀ {s s'}, P s → R s s' → P s' ∧ s.visits <+: s'.visits)
    (hvisit : ∀ s p o, R s { s with visits := s.visits ++ [(p, o)] })
    (hpart : ∀ o ∈ calls, ∀ p, Keeps R (part env o p : Run φ Unit)) (hbetween : Keeps R between)
    {s s' : RunState φ} {u : Unit} (hs : P s) (h : (runRow env calls between).Yields s u s') :
    ∀ o ∈ calls, ∀ p, (p, o) ∈ s'.visits := by
  have hall : ∀ p, ∀ os : List Occurrence, (∀ o ∈ os, o ∈ calls) →
      Keeps R (os.forM (stepAlone env p) : Run φ Unit) :=
    fun p os hsub => .forM fun o ho => stepAlone_keeps hvisit (hpart o (hsub o ho) p)
  have hfilter : ∀ b : Occurrence → Bool, ∀ o ∈ calls.filter b, o ∈ calls :=
    fun b o ho => List.mem_of_mem_filter ho
  obtain ⟨_, s₁, h₁, hr₁⟩ := yields_bind.mp h
  obtain ⟨_, s₂, h₂, hr₂⟩ := yields_bind.mp hr₁
  obtain ⟨_, s₃, h₃, hr₃⟩ := yields_bind.mp hr₂
  obtain ⟨_, s₄, h₄, h₅⟩ := yields_bind.mp hr₃
  obtain ⟨hs₁, -⟩ := hkeep hs (hall _ _ (fun _ => id) h₁)
  obtain ⟨hs₂, hv₂⟩ := hkeep hs₁ (hall _ _ (hfilter _) h₂)
  obtain ⟨hs₃, hv₃⟩ := hkeep hs₂ (hbetween h₃)
  obtain ⟨hs₄, hv₄⟩ := hkeep hs₃ (hall _ _ (hfilter _) h₄)
  obtain ⟨-, hv₅⟩ := hkeep hs₄ (hall _ _ (fun _ => id) h₅)
  intro o ho p
  cases p with
  | setup =>
    have hmem := visited_forM hkeep hvisit (fun o ho => hpart o ho _) hs h₁ o ho
    exact hv₅.subset (hv₄.subset (hv₃.subset (hv₂.subset hmem)))
  | execute =>
    cases hb : o.command.binds with
    | true =>
      have hmem := visited_forM hkeep hvisit (fun o ho => hpart o (hfilter _ o ho) _) hs₁ h₂ o
        (List.mem_filter.mpr ⟨ho, hb⟩)
      exact hv₅.subset (hv₄.subset (hv₃.subset hmem))
    | false =>
      have hmem := visited_forM hkeep hvisit (fun o ho => hpart o (hfilter _ o ho) _) hs₃ h₄ o
        (List.mem_filter.mpr ⟨ho, by simp [hb]⟩)
      exact hv₅.subset hmem
  | verify => exact visited_forM hkeep hvisit (fun o ho => hpart o ho _) hs₄ h₅ o ho

end Rows

/-! ## A built-in command with the calls inside it -/

/-- What a relation needs in order to be kept by a phase of a built-in command: that it is kept by
the visit of the call by itself, by the calls inside, and by what the command does to the rows of a
table. -/
theorem step_keeps_builtIn {R : RunState φ → RunState φ → Prop} [IsPreorder (RunState φ) R]
    {columns : List Occurrence} {inside : Inside φ}
    {runRow : List Occurrence → Run φ Unit → Run φ Unit} (hbuiltIn : o.command.isBuiltIn = true)
    (hvisit : ∀ s p, R s { s with visits := s.visits ++ [(p, o)] })
    (hown : o.command ≠ .verifyRows → ∀ p, Keeps R (visit p o (part env o p) : Run φ Unit))
    (hphase : ∀ p, Keeps R (inside.phase p)) (hbinding : ∀ b, Keeps R (inside.binding b))
    (htable : Keeps R (executeTable env runRow o columns))
    (hrows : Keeps R (verifyRows env runRow o columns p)) :
    Keeps R (step env runRow o columns inside p) := by
  refine step_keeps_of_act hphase ?_
  unfold act
  unfold part at hown
  cases hc : o.command with
  | execute =>
    rw [hc] at hown
    exact executeCommand_keeps hvisit hphase hbinding (hown nofun) fun _ => htable
  | verifyRows => exact visit_keeps hvisit hrows
  | inert => rw [hc] at hbuiltIn; cases hbuiltIn
  | probe probe => rw [hc] at hbuiltIn; cases hbuiltIn
  | _ =>
    rw [hc] at hown
    exact hown nofun p

end Run
end LiveSpec
