import LiveSpec.Proofs.Listening.Hearing
import LiveSpec.Proofs.Run.Alone

/-!
# Where values are kept

A call keeps the value that it finds when it executes for the time when it compares, in a slot of
its own. `Keeping` says that a part of a run keeps values in one slot at most; that is so of what
each command does at its element (`part_keeping`), and of the other parts of a run that nothing is
kept at all (`Mute`). All of this holds whether the part ends with an answer or with an error
(`Always`).

With the calls inside it, a command keeps values where these do as well; `step_always` says what a
relation needs in order to be kept by a phase of such a call.
-/

namespace LiveSpec

open Markup (NodeId Tree TreeError)

variable {φ : Type}

/-- Two states between which nothing was kept, no slot was taken and no call was visited. -/
structure Mute (s s' : RunState φ) : Prop where
  kept : s'.kept = s.kept
  nextSlot : s'.nextSlot = s.nextSlot
  visits : s'.visits = s.visits

instance : IsPreorder (RunState φ) Mute where
  refl _ := ⟨rfl, rfl, rfl⟩
  trans _ _ _ h h' := ⟨h'.kept.trans h.kept, h'.nextSlot.trans h.nextSlot, h'.visits.trans h.visits⟩

/-- Two states between which values were kept in one slot at most, no slot was taken and no call was
visited. -/
structure Keeping (slot : Nat) (s s' : RunState φ) : Prop where
  kept : ∃ vs : List Value, s'.kept = vs.map (Prod.mk slot) ++ s.kept
  nextSlot : s'.nextSlot = s.nextSlot
  visits : s'.visits = s.visits

instance {slot : Nat} : IsPreorder (RunState φ) (Keeping slot) where
  refl _ := ⟨⟨[], rfl⟩, rfl, rfl⟩
  trans _ _ _ h h' := by
    obtain ⟨vs, hvs⟩ := h.kept
    obtain ⟨vs', hvs'⟩ := h'.kept
    refine ⟨⟨vs' ++ vs, ?_⟩, h'.nextSlot.trans h.nextSlot, h'.visits.trans h.visits⟩
    rw [hvs', hvs, List.map_append, List.append_assoc]

/-- What keeps nothing keeps nothing but in one slot. -/
theorem Mute.keeping {slot : Nat} {s s' : RunState φ} (h : Mute s s') : Keeping slot s s' :=
  ⟨⟨[], by rw [h.kept]; rfl⟩, h.nextSlot, h.visits⟩

namespace Run

variable {env : Surroundings} {n : NodeId} {o : Occurrence} {p : Phase} {e : Event} {bus : Bus}
  {slot : Nat}

/-! ## Parts that keep nothing -/

/-- A change of the state that leaves the kept values alone. -/
theorem modify_mute {f : RunState φ → RunState φ} (h : ∀ s, Mute s (f s)) :
    Always Mute (modify f : Run φ PUnit) :=
  .modify h

theorem change_mute {f : Tree → Tree} : Always Mute (change f : Run φ Unit) :=
  modify_mute fun _ => ⟨rfl, rfl, rfl⟩

/-- Letting go of nodes is no keeping of values. -/
theorem tidy_mute : Always Mute (tidy : Run φ Unit) := modify_mute fun _ => ⟨rfl, rfl, rfl⟩

theorem log_mute {entry : LogEntry} : Always Mute (log entry : Run φ Unit) :=
  modify_mute fun _ => ⟨rfl, rfl, rfl⟩

theorem inWorld_mute {α : Type} {part : StateM World α} : Always Mute (inWorld part : Run φ α) :=
  .bind .get fun _ => .bind (modify_mute fun _ => ⟨rfl, rfl, rfl⟩) fun _ => .pure

theorem attempt_mute {f : Tree → Except TreeError Tree} : Always Mute (attempt f : Run φ Unit) :=
  .bind .find fun _ => change_mute

/-- Listeners are told without keeping values. -/
theorem tell_mute : Always Mute (tell bus e : Run φ Unit) :=
  tell_overheard.mono fun h => ⟨h.kept, h.nextSlot, h.visits⟩

/-- Nor does reporting an outcome keep any. -/
theorem report_mute {f : Record → Record} {g : Spot → Event} :
    Always Mute (do note f; tell bus (g (← spot n)) : Run φ Unit) :=
  .bind (modify_mute fun _ => ⟨rfl, rfl, rfl⟩) fun _ => .bind .spot fun _ => tell_mute

theorem recordSuccess_mute : Always Mute (recordSuccess env n : Run φ Unit) := report_mute

theorem recordFailure_mute {expected actual : String} :
    Always Mute (recordFailure env n expected actual : Run φ Unit) :=
  report_mute

/-- An exception is recorded without keeping a value, as are the other outcomes. -/
theorem recordException_mute {expression : String} {error : EvaluationError} :
    Always Mute (recordException env n expression error : Run φ Unit) := report_mute

theorem recordMissingRow_mute {expected : String} :
    Always Mute (recordMissingRow env n expected : Run φ Unit) :=
  report_mute

theorem recordSurplusRow_mute {actual : String} :
    Always Mute (recordSurplusRow env n actual : Run φ Unit) :=
  report_mute

/-- Whatever a comparison comes to. -/
theorem verdict_mute {q : Prop} [Decidable q] {expected actual : String} :
    Always Mute (if q then recordSuccess env n else
      recordFailure env n expected actual : Run φ Unit) := by
  split
  · exact recordSuccess_mute
  · exact recordFailure_mute

theorem bindVariable_mute {name : String} {v : Value} :
    Always Mute (bindVariable name v : Run φ Unit) :=
  modify_mute fun _ => ⟨rfl, rfl, rfl⟩

theorem bindElement_mute : Always Mute (bindElement n : Run φ Unit) :=
  .bind .look fun _ => .bind bindVariable_mute fun _ => .bind .look fun _ => bindVariable_mute

/-- Holding elements does what the part does. By itself it keeps nothing, records nothing and leaves
the contents of nodes alone. -/
theorem holding_always {α : Type} {R : RunState φ → RunState φ → Prop} [IsPreorder (RunState φ) R]
    (hR : ∀ {s s'}, Mute s s' → SameContents s s' → s'.record = s.record → R s s')
    {ns : List NodeId} {part : Run φ α} (h : Always R part) : Always R (holding ns part) := by
  have hheld : ∀ f : RunState φ → List NodeId,
      Always R (modify fun s => { s with held := f s } : Run φ PUnit) :=
    fun f => .modify fun _ => hR ⟨rfl, rfl, rfl⟩ Tree.SameContents.refl rfl
  have htidy : Always R (tidy : Run φ Unit) :=
    .modify fun _ => hR ⟨rfl, rfl, rfl⟩ Tree.sameContents_release rfl
  exact .bind .get fun _ => .bind (hheld _) fun _ => .bind h fun _ => .bind (hheld _) fun _ =>
    .bind htidy fun _ => .pure

/-- To look for a row is to read. -/
theorem takeRow_always {R : RunState φ → RunState φ → Prop} [IsPreorder (RunState φ) R]
    {column : Nat} {key : String} {rows : List NodeId} :
    Always R (takeRow column key rows : Run φ _) := by
  induction rows with
  | nil => exact .pure
  | cons row rows ih =>
    refine .bind .find fun found => ?_
    split
    · exact .pure
    · exact .bind ih fun _ => .pure

/-- A missing row is added and recorded, and nothing is kept. -/
theorem addMissingRow_mute {l : TableLayout} {column : Nat} {key : String} {last : NodeId} :
    Always Mute (addMissingRow env l column key last : Run φ _) := by
  refine .bind .find fun _ => .bind change_mute fun _ => .bind .pure fun _ =>
    .bind .find fun _ => ?_
  dsimp only
  split
  · exact .bind change_mute fun _ => .bind recordMissingRow_mute fun _ => .pure
  · exact .bind recordMissingRow_mute fun _ => .pure

/-- Nor is anything kept for the rows that are left over. -/
theorem recordSurplus_mute {column : Nat} {rows : List NodeId} :
    Always Mute (recordSurplus env column rows : Run φ Unit) := by
  induction rows with
  | nil => exact .pure
  | cons row rows ih => exact .bind .find fun _ => .bind recordSurplusRow_mute fun _ => ih

/-! ## Parts that evaluate expressions -/

/-- A value is kept in its slot, and nowhere else. -/
theorem keep_keeping {v : Value} : Always (Keeping slot) (keep slot v : Run φ Unit) :=
  .modify fun _ => ⟨⟨[v], rfl⟩, rfl, rfl⟩

/-- A value that is kept if there is one. -/
theorem keepSome_keeping {v? : Option Value} :
    Always (Keeping slot)
    (match v? with | some v => keep slot v | none => pure () : Run φ Unit) := by
  cases v? with
  | some v => exact keep_keeping
  | none => exact .pure

variable [Fixture φ]

/-- Expressions know no slots. -/
theorem evaluate_mute {source : String} : Always Mute (evaluate source : Run φ _) :=
  .bind .get fun _ => .bind (modify_mute fun _ => ⟨rfl, rfl, rfl⟩) fun _ => .pure

theorem assign_mute {source : String} {v : Value} : Always Mute (assign source v : Run φ _) :=
  .bind .get fun _ => .bind (modify_mute fun _ => ⟨rfl, rfl, rfl⟩) fun _ => .pure

/-- An evaluation at an element hands its value on and keeps none itself. -/
theorem evaluateAt_mute {source : String} : Always Mute (evaluateAt env n source : Run φ _) := by
  refine .bind bindElement_mute fun _ => .bind evaluate_mute fun answer => ?_
  cases answer with
  | ok v => exact .pure
  | error cause => exact .bind recordException_mute fun _ => .pure

/-- The key of an item is not kept. -/
theorem itemKey_mute {key? : Option (Nat × Occurrence)} {item : Value} :
    Always Mute (itemKey env n key? item : Run φ _) := by
  cases key? with
  | none => exact .pure
  | some key => exact .bind evaluateAt_mute fun _ => .pure

/-- The value of an `execute` is kept in the slot of its call. -/
theorem executeAt_keeping : Always (Keeping o.slot) (executeAt env o n : Run φ Unit) := by
  have hdone : Always (Keeping o.slot)
      (do tell env.bus (.executeCompleted (← spot n) o.expression) : Run φ Unit) :=
    .bind .spot fun _ => tell_mute.mono Mute.keeping
  refine .bind (evaluateAt_mute.mono Mute.keeping) fun v? => ?_
  cases v? with
  | some v => exact .bind keep_keeping fun _ => hdone
  | none => exact hdone

/-- An assertion keeps what it is to compare in its slot. -/
theorem assertEquals_keeping : Always (Keeping o.slot) (assertEquals env o p : Run φ Unit) := by
  cases p with
  | setup => exact .pure
  | execute => exact .bind (evaluateAt_mute.mono Mute.keeping) fun _ => keepSome_keeping
  | verify =>
    refine .bind .kept? fun v? => ?_
    cases v? with
    | none => exact .pure
    | some v => exact .bind .look fun _ => verdict_mute.mono Mute.keeping

theorem assertBoolean_keeping {expected : Bool} :
    Always (Keeping o.slot) (assertBoolean env expected o p : Run φ Unit) := by
  cases p with
  | setup => exact .pure
  | execute =>
    refine .bind (evaluateAt_mute.mono Mute.keeping) fun v? => ?_
    split
    · exact keep_keeping
    · exact recordException_mute.mono Mute.keeping
    · exact .pure
  | verify =>
    refine .bind .kept? fun v? => ?_
    split
    · exact verdict_mute.mono Mute.keeping
    · exact .pure

/-- An `echo` writes its value into the document and keeps none. -/
theorem echo_mute : Always Mute (echo env o p : Run φ Unit) := by
  cases p with
  | setup => exact .pure
  | execute =>
    refine .bind bindElement_mute fun _ => .bind evaluate_mute fun answer => ?_
    cases answer with
    | ok v => exact .bind change_mute fun _ => tidy_mute
    | error cause =>
      dsimp only
      split
      · exact .bind change_mute fun _ => tidy_mute
      · exact recordException_mute
  | verify => exact .pure

theorem setTarget_mute : Always Mute (setTarget env o p : Run φ Unit) := by
  cases p with
  | setup => exact .pure
  | execute =>
    refine .bind .look fun _ => .bind bindElement_mute fun _ => .bind assign_mute fun answer => ?_
    cases answer with
    | ok _ => exact .pure
    | error cause => exact recordException_mute
  | verify => exact .pure

/-- The items of a `verifyRows` are kept in the slot of its call. -/
theorem produceItems_keeping : Always (Keeping o.slot) (produceItems env o : Run φ Unit) := by
  unfold produceItems
  split
  · exact recordException_mute.mono Mute.keeping
  · refine .bind (evaluateAt_mute.mono Mute.keeping) fun v? => ?_
    split
    · exact .bind .spot fun _ => .bind (tell_mute.mono Mute.keeping) fun _ => keep_keeping
    · exact recordException_mute.mono Mute.keeping
    · exact .pure

omit [Fixture φ] in
/-- The verdict of a nested run is kept in the slot of the call that asked for it. -/
theorem runLinked_keeping : Always (Keeping o.slot) (runLinked env o p : Run φ Unit) := by
  cases p with
  | setup => exact .pure
  | execute =>
    refine .bind .look fun href? => ?_
    cases href? with
    | none => exact recordException_mute.mono Mute.keeping
    | some href =>
      dsimp only
      split <;> [refine .bind .pure fun verdict => ?_;
        refine .bind (inWorld_mute.mono Mute.keeping) fun verdict => ?_]
      -- the answer is dealt with alike, whether or not the nested run was begun
      all_goals
        split
        · exact keep_keeping
        · exact .throw
        · exact recordException_mute.mono Mute.keeping
  | verify =>
    refine .bind .kept? fun v? => ?_
    split
    · refine .bind .look fun _ => ?_
      dsimp only
      split
      · exact recordException_mute.mono Mute.keeping
      · exact verdict_mute.mono Mute.keeping
    · exact .pure

/-! ## A command with the calls inside it

What a relation needs in order to be kept by a command: that it is kept by the calls inside, and by
what the command does to the rows of a table. Once the visit of the call is noted, a wider relation
counts, `R'`; it is to be kept where values are kept in the slot of the call and deeds are done at
its element. For a `run` it needs what the command does. -/

section Acts

variable {R R' : RunState φ → RunState φ → Prop} [IsPreorder (RunState φ) R]
  [IsPreorder (RunState φ) R'] {columns : List Occurrence} {inside : Inside φ}
  {runRow : List Occurrence → Run φ Unit → Run φ Unit} (hsub : ∀ {s s'}, R s s' → R' s s')
  (hown : o.command ≠ .run → ∀ {s s'}, Keeping o.slot s s' → Deeds o.element s s' → R' s s')
  (hvisit : o.command ≠ .run → ∀ {p} {part : Run φ Unit}, Always R' part →
    Always R (visit p o part))
  (hphase : ∀ p, Always R (inside.phase p)) (hbinding : ∀ b, Always R (inside.binding b))

omit [Fixture φ] [IsPreorder (RunState φ) R'] in
/-- What keeps values in the slot of the call at most, and does deeds at its element at most. -/
theorem own_always {α : Type} {part : Run φ α}
    (hR : ∀ {s s'}, Keeping o.slot s s' → Deeds o.element s s' → R' s s')
    (hkeeping : Always (Keeping o.slot) part) (hdeeds : Always (Deeds o.element) part) :
    Always R' part :=
  (hkeeping.and hdeeds).mono fun h => hR h.1 h.2

include hsub hown hphase hbinding

omit [IsPreorder (RunState φ) R] in
/-- What a probe does, once its visit is noted. -/
theorem probePhase_always {probe : Probe} (hne : o.command ≠ .run) :
    Always R' (probePhase env probe o inside p) := by
  have hmute {α : Type} {part : Run φ α} (hm : Always Mute part)
      (hd : Always (Deeds o.element) part) : Always R' part :=
    own_always (hown hne) (hm.mono Mute.keeping) hd
  have hlog {entry : LogEntry} : Always R' (log entry : Run φ Unit) :=
    hmute log_mute (log_quiet.mono .of_quiet)
  refine .bind .spot fun _ => .bind .get fun _ => .bind hlog fun _ => ?_
  split
  · next act _ =>
    split
    · cases act with
      | success => exact hmute recordSuccess_mute (recordSuccess_reports.mono .of_reports)
      | failure => exact hmute recordFailure_mute (recordFailure_reports.mono .of_reports)
      | evaluate =>
        refine .bind (hmute evaluateAt_mute (evaluateAt_reports.mono .of_reports)) fun v? => ?_
        cases v? with
        | some v =>
          exact .bind hlog fun _ => own_always (hown hne) keep_keeping (keep_quiet.mono .of_quiet)
        | none => exact .pure
      | remove => exact .bind (hmute attempt_mute remove_deeds) fun _ => hmute tidy_mute tidy_deeds
      | drive => exact (hphase p).mono hsub
      | rows =>
        have hphase' (p : Phase) : Always R' (inside.phase p) := (hphase p).mono hsub
        have hbinding' (b : Bool) : Always R' (inside.binding b) := (hbinding b).mono hsub
        exact .bind (hphase' _) fun _ => .bind
          (.bind (hbinding' _) fun _ => .bind hlog fun _ => hbinding' _) fun _ =>
          hphase' _
      | describe => exact .bind .get fun _ => hlog
    · exact .pure
  · exact .pure

include hvisit

omit hsub in
/-- A phase of an `execute`, on a table or elsewhere. -/
theorem executeCommand_always (hne : o.command ≠ .run)
    (htable : Always R' (executeTable env runRow o columns)) :
    Always R (executeCommand env runRow o columns inside p) := by
  have hat : Always R' (executeAt env o o.element) :=
    own_always (hown hne) executeAt_keeping (executeAt_reports.mono .of_reports)
  refine .bind .get fun s => ?_
  split
  · apply hvisit hne
    split
    · exact htable
    · exact .pure
  · cases p with
    | setup => exact .bind (hvisit hne .pure) fun _ => hphase _
    | execute => exact .bind (hbinding _) fun _ => .bind (hvisit hne hat) fun _ => hbinding _
    | verify => exact .bind (hphase _) fun _ => hvisit hne .pure

/-- What a command does in a phase. -/
theorem act_always (hrun : o.command = .run → Always R (visit p o (runLinked env o p)))
    (htable : o.command = .execute → Always R' (executeTable env runRow o columns))
    (hrows : o.command = .verifyRows → Always R' (verifyRows env runRow o columns p)) :
    Always R (act env runRow o columns inside p) := by
  by_cases hne : o.command = .run
  · unfold act
    rw [hne]
    exact hrun hne
  · have hreports {part : Run φ Unit} (hkeeping : Always (Keeping o.slot) part)
        (hreports : Always (Reports o.element) part) : Always R (visit p o part) :=
      hvisit hne (own_always (hown hne) hkeeping (hreports.mono .of_reports))
    unfold act
    cases hc : o.command with
    | assertEquals => exact hreports assertEquals_keeping assertEquals_reports
    | assertBoolean expected => exact hreports assertBoolean_keeping assertBoolean_reports
    | echo => exact hvisit hne (own_always (hown hne) (echo_mute.mono Mute.keeping) echo_deeds)
    | execute => exact executeCommand_always hown hvisit hphase hbinding hne (htable hc)
    | set => exact hreports (setTarget_mute.mono Mute.keeping) setTarget_reports
    | run => exact absurd hc hne
    | verifyRows => exact hvisit hne (hrows hc)
    | inert => exact hvisit hne .pure
    | probe probe => exact hvisit hne (probePhase_always hsub hown hphase hbinding hne)

/-- **A phase of a call**, with the calls inside it before or after. -/
theorem step_always (hrun : o.command = .run → Always R (visit p o (runLinked env o p)))
    (htable : o.command = .execute → Always R' (executeTable env runRow o columns))
    (hrows : o.command = .verifyRows → Always R' (verifyRows env runRow o columns p)) :
    Always R (step env runRow o columns inside p) := by
  have hact : Always R (act env runRow o columns inside p) :=
    act_always hsub hown hvisit hphase hbinding hrun htable hrows
  unfold step
  dsimp only
  split
  · exact hact
  · cases p with
    | setup => exact .bind hact fun _ => hphase _
    | execute => exact .bind hact fun _ => hphase _
    | verify => exact .bind (hphase _) fun _ => hact

end Acts

/-! ## A call by itself -/

/-- **A call keeps values in its own slot**, whatever command it has, apart from what runs on the
rows of a table. -/
theorem part_keeping (h : o.command ≠ .verifyRows) :
    Always (Keeping o.slot) (part env o p : Run φ Unit) := by
  unfold part
  cases hc : o.command with
  | assertEquals => exact assertEquals_keeping
  | assertBoolean expected => exact assertBoolean_keeping
  | echo => exact echo_mute.mono Mute.keeping
  | execute =>
    dsimp only
    split
    · exact executeAt_keeping
    · exact .pure
  | set => exact setTarget_mute.mono Mute.keeping
  | run => exact runLinked_keeping
  | verifyRows => exact absurd hc h
  | inert => exact .pure
  | probe probe =>
    exact probePhase_always id (fun _ _ _ hs _ => hs) (fun _ => .pure) (fun _ => .pure)
      (by simp [hc])

omit [Fixture φ] in
/-- Slots that are taken for calls one after the other. -/
theorem result_mapM_freshSlot (placed : List (Occurrence × NodeId)) (s : RunState φ) :
    ∃ calls : List Occurrence, calls.map Occurrence.element = placed.map Prod.snd ∧
      calls.map Occurrence.slot = List.range' s.nextSlot calls.length ∧
      (placed.mapM fun (o, cell) => do return { o with element := cell, slot :=
        ← freshSlot } : Run φ _).result s =
        (.ok calls, { s with nextSlot := s.nextSlot + calls.length }) := by
  induction placed generalizing s with
  | nil => exact ⟨[], rfl, rfl, rfl⟩
  | cons x placed ih =>
    obtain ⟨calls, helements, hslots, hresult⟩ := ih { s with nextSlot := s.nextSlot + 1 }
    refine ⟨{ x.1 with element := x.2, slot := s.nextSlot } :: calls, by simp [helements], ?_, ?_⟩
    · simp [hslots, List.range'_succ]
    · have hone :
        (do return { x.1 with element := x.2, slot := ← freshSlot } : Run φ Occurrence).result s =
          (.ok { x.1 with element := x.2, slot := s.nextSlot },
            { s with nextSlot := s.nextSlot + 1 }) := rfl
      rw [List.mapM_cons, result_bind, hone]
      dsimp only
      rw [result_bind, hresult, List.length_cons, Nat.add_comm calls.length 1, ← Nat.add_assoc]
      rfl

end Run
end LiveSpec
