import LiveSpec.Proofs.Evaluation.Assigning
import LiveSpec.Proofs.Isolation.Deletion
import LiveSpec.Proofs.Outcome.Failing
import LiveSpec.Proofs.Text.Normal

/-!
# A text that is carried from one element to another

A `set` binds the text of its element to a variable. An `assertEquals` at another element finds that
text when it executes and compares it with the text of its own element later (`Carried`). Each of
the two texts is brought into normal form, one of them twice; that makes no difference, since a
normal form is its own normal form.

Calls between the two leave the variable alone unless they name it to bind it (`part_same`), with
two exceptions: `TEXT` and `HREF` are bound for each element anew, so an assertion that names one of
them finds what its own element has.
-/

namespace LiveSpec

open Markup (NodeId Tree TreeError)

variable {φ : Type}

/-! ## Variables that are left alone -/

/-- Two states in which a variable holds the same value, or none. -/
def SameVariable (x : String) (s s' : RunState φ) : Prop :=
  s'.scope.bindings.find? x = s.scope.bindings.find? x

instance {x : String} : IsPreorder (RunState φ) (SameVariable x) where
  refl _ := rfl
  trans _ _ _ h h' := Eq.trans h' h

/-- A call that leaves a variable alone: it compares no rows, assigns nothing to the variable and
does not set it. -/
structure Occurrence.Shuns (o : Occurrence) (x : String) : Prop where
  rowless : o.command ≠ .verifyRows
  assigns (e : Expr) : Statement.read o.expression ≠ .ok (.assign x e)
  sets : o.command = .set → Statement.read o.expression ≠ .ok (.eval (.variable x))

/-- A call that changes no text: a built-in one that compares no rows and is no `echo`. -/
structure Occurrence.KeepsTexts (o : Occurrence) : Prop where
  builtIn : o.command.isBuiltIn = true
  rowless : o.command ≠ .verifyRows
  echoless : o.command ≠ .echo

namespace Scope

variable [Fixture φ] {s : Scope φ} {text x : String} {v : Value}

/-- An evaluation binds a variable only if it assigns to it. -/
theorem find?_evaluate (h : ∀ e, Statement.read text ≠ .ok (.assign x e)) :
    (s.evaluate text).2.bindings.find? x = s.bindings.find? x := by
  cases hread : Statement.read text with
  | error fault =>
    unfold evaluate
    rw [hread]
  | ok st =>
    rw [s.evaluate_of_read hread]
    cases st with
    | eval e => rfl
    | assign name e =>
      have hname : name ≠ x := fun hname => h e (hname ▸ hread)
      show (Statement.after _ s.bindings (.assign name e)).find? x = _
      unfold Statement.after
      cases (value text s.bindings s.fixture (Statement.assign name e).body).1 with
      | error err => rfl
      | ok v => exact (Entries.find?_put ..).trans (if_neg hname)

/-- A write binds no variable but the one that it names. -/
theorem find?_assign (h : Statement.read text ≠ .ok (.eval (.variable x))) :
    (s.assign text v).2.bindings.find? x = s.bindings.find? x := by
  cases hplace : Place.ofText? text with
  | none =>
    obtain ⟨err, herr⟩ := assign_of_none hplace
    rw [herr]
  | some place =>
    rw [assign_of_some hplace]
    cases place with
    | property name => rfl
    | «variable» name =>
      have hname : name ≠ x := fun hname => h (hname ▸ Place.ofText?_eq_some.mp hplace)
      exact (Entries.find?_put ..).trans (if_neg hname)

end Scope

/-- The variables of elements aside, binding an element binds nothing. -/
theorem RunState.find?_bound {x : String} (hx : x ∉ elementVariables) (s : RunState φ)
    (n : NodeId) :
    (s.bound n).scope.bindings.find? x = s.scope.bindings.find? x := by
  have htext : "TEXT" ≠ x := fun h => hx (h ▸ List.mem_cons_self)
  have hhref : "HREF" ≠ x := fun h => hx (h ▸ List.mem_cons_of_mem _ List.mem_cons_self)
  unfold bound
  exact (Entries.find?_put ..).trans
    ((if_neg hhref).trans ((Entries.find?_put ..).trans (if_neg htext)))

/-- Binding an element binds its text, -/
theorem RunState.find?_bound_text (s : RunState φ) (n : NodeId) :
    (s.bound n).scope.bindings.find? "TEXT" = some (.string (Text.normal (s.tree.text n))) := by
  simp [bound, Scope.bind, Entries.find?_put]

/-- and its link, or that it has none. -/
theorem RunState.find?_bound_href (s : RunState φ) (n : NodeId) :
    (s.bound n).scope.bindings.find? "HREF" = some
      ((s.tree.attribute? n "href").elim .null .string) := by
  simp [bound, Scope.bind, Entries.find?_put]

namespace Run

variable {env : Surroundings} {o : Occurrence} {p : Phase} {n : NodeId} {x : String}

/-! ### Parts that leave a variable alone -/

/-- What does not touch the scope changes no variable. -/
theorem modify_same {f : RunState φ → RunState φ} (h : ∀ s, (f s).scope = s.scope) :
    Always (SameVariable x) (modify f : Run φ PUnit) :=
  .modify fun s => congrArg (fun c : Scope φ => c.bindings.find? x) (h s)

/-- Telling listeners changes no variable. -/
theorem tell_same {bus : Bus} {e : Event} : Always (SameVariable x) (tell bus e : Run φ Unit) :=
  tell_overheard.mono fun h => congrArg (fun c : Scope φ => c.bindings.find? x) h.scope

/-- Nor does a report. -/
theorem report_same {f : Record → Record} {g : Spot → Event} :
    Always (SameVariable x) (do note f; tell env.bus (g (← spot n)) : Run φ Unit) :=
  .bind (modify_same fun _ => rfl) fun _ => .bind .spot fun _ => tell_same

/-- Nor does a verdict. -/
theorem verdict_same {q : Prop} [Decidable q] {expected actual : String} :
    Always (SameVariable x) (if q then recordSuccess env n else
      recordFailure env n expected actual : Run φ Unit) := by
  split
  · exact report_same
  · exact report_same

/-- Nor does a value that is kept. -/
theorem keep_same {slot : Nat} {v : Value} : Always (SameVariable x) (keep slot v : Run φ Unit) :=
  modify_same fun _ => rfl

theorem keepSome_same {slot : Nat} {v? : Option Value} :
    Always (SameVariable x)
    (match v? with | some v => keep slot v | none => pure () : Run φ Unit) := by
  cases v? with
  | some v => exact keep_same
  | none => exact .pure

/-- Nor does a nested run, which has a scope of its own. -/
theorem runLinked_same : Always (SameVariable x) (runLinked env o p : Run φ Unit) := by
  cases p with
  | setup => exact .pure
  | execute =>
    refine .bind .look fun href? => ?_
    cases href? with
    | none => exact report_same
    | some href =>
      dsimp only
      split <;>
        [refine .bind .pure fun verdict => ?_;
          refine .bind (.bind .get fun _ => .bind (modify_same fun _ => rfl) fun _ => .pure)
            fun verdict => ?_]
      -- the answer is dealt with alike, whether or not the nested run was begun
      all_goals
        split
        · exact keep_same
        · exact .throw
        · exact report_same
  | verify =>
    refine .bind .kept? fun v? => ?_
    split
    · refine .bind .look fun _ => ?_
      dsimp only
      split
      · exact report_same
      · exact verdict_same
    · exact .pure

/-- Binding an element changes its own variables only. -/
theorem bindElement_same (hx : x ∉ elementVariables) :
    Always (SameVariable x) (bindElement n : Run φ Unit) := fun s =>
  s.find?_bound hx n

variable [Fixture φ]

/-- A call that shuns a variable changes it in no evaluation. -/
theorem evaluate_same (ho : o.Shuns x) :
    Always (SameVariable x) (evaluate o.expression : Run φ _) := fun s =>
  s.scope.find?_evaluate ho.assigns

section Expressions

variable (hx : x ∉ elementVariables) (ho : o.Shuns x)
include hx ho

/-- Nor in an evaluation that is reported. -/
theorem evaluateAt_same : Always (SameVariable x) (evaluateAt env n o.expression : Run φ _) := by
  refine .bind (bindElement_same hx) fun _ => .bind (evaluate_same ho) fun answer => ?_
  cases answer with
  | ok v => exact .pure
  | error cause => exact .bind report_same fun _ => .pure

/-- Nor in a phase of a probe. -/
theorem probePhase_same {probe : Probe} :
    Always (SameVariable x) (probePhase env probe o .none p : Run φ Unit) := by
  have hlog : ∀ {entry}, Always (SameVariable x) (log entry : Run φ Unit) :=
    modify_same fun _ => rfl
  refine .bind .spot fun _ => .bind .get fun _ => .bind hlog fun _ => ?_
  split
  · next act _ =>
    split
    · cases act with
      | success | failure => exact report_same
      | evaluate =>
        refine .bind (evaluateAt_same hx ho) fun v? => ?_
        cases v? with
        | some v => exact .bind hlog fun _ => keep_same
        | none => exact .pure
      | remove => exact .bind (.bind .find fun _ =>
        modify_same fun _ => rfl) fun _ => modify_same fun _ => rfl
      | drive => exact .pure
      | rows => exact .bind .pure fun _ => .bind (.bind .pure fun _ =>
        .bind hlog fun _ => .pure) fun _ => .pure
      | describe => exact .bind .get fun _ => hlog
    · exact .pure
  · exact .pure

/-- **A call binds no variable that it does not name for that**, the variables of elements aside. -/
theorem part_same : Always (SameVariable x) (part env o p : Run φ Unit) := by
  have hat : Always (SameVariable x) (evaluateAt env o.element o.expression : Run φ _) :=
    evaluateAt_same hx ho
  unfold part
  cases hc : o.command with
  | verifyRows => exact absurd hc ho.rowless
  | inert => exact .pure
  | run => exact runLinked_same
  | probe probe => exact probePhase_same hx ho
  | execute =>
    dsimp only
    split
    · refine .bind hat fun v? => ?_
      cases v? with
      | some v => exact .bind keep_same fun _ => .bind .spot fun _ => tell_same
      | none => exact .bind .spot fun _ => tell_same
    · exact .pure
  | set =>
    cases p with
    | setup | verify => exact .pure
    | execute =>
      have hassign : ∀ v, Always (SameVariable x) (assign o.expression v : Run φ _) := fun _ s =>
        s.scope.find?_assign (ho.sets hc)
      refine .bind .look fun _ => .bind (bindElement_same hx) fun _ =>
        .bind (hassign _) fun answer => ?_
      cases answer with
      | ok _ => exact .pure
      | error cause => exact report_same
  | echo =>
    cases p with
    | setup | verify => exact .pure
    | execute =>
      have hshow : ∀ text, Always (SameVariable x)
          (do change fun t => t.setText o.element text; tidy : Run φ Unit) :=
        fun _ => .bind (modify_same fun _ => rfl) fun _ => modify_same fun _ => rfl
      refine .bind (bindElement_same hx) fun _ => .bind (evaluate_same ho) fun answer => ?_
      cases answer with
      | ok v => exact hshow _
      | error cause =>
        dsimp only
        split
        · exact hshow _
        · exact report_same
  | assertEquals =>
    cases p with
    | setup => exact .pure
    | execute => exact .bind hat fun _ => keepSome_same
    | verify =>
      refine .bind .kept? fun v? => ?_
      cases v? with
      | none => exact .pure
      | some v => exact .bind .look fun _ => verdict_same
  | assertBoolean expected =>
    cases p with
    | setup => exact .pure
    | execute =>
      refine .bind hat fun v? => ?_
      split
      · exact keep_same
      · exact report_same
      · exact .pure
    | verify =>
      refine .bind .kept? fun v? => ?_
      split
      · exact verdict_same
      · exact .pure

/-! ## Visits -/

omit hx ho in
/-- A call by itself does its part, once its visit is noted. -/
theorem result_stepAlone (env : Surroundings) (p : Phase) (o : Occurrence) (s : RunState φ) :
    (stepAlone env p o).result s = (part env o p).result
      { s with visits := s.visits ++ [(p, o)] } := by
  rw [stepAlone_eq]
  rfl

/-- So a call that shuns a variable leaves it alone. -/
theorem stepAlone_same : Always (SameVariable x) (stepAlone env p o : Run φ Unit) := by
  rw [stepAlone_eq]
  exact .bind (modify_same fun _ => rfl) fun _ => part_same hx ho

omit ho in
/-- Visits to calls that leave a variable alone leave it alone. -/
theorem visitAll_same {vs : List (Phase × Occurrence)} (hvs : ∀ v ∈ vs, v.2.Shuns x) :
    Always (SameVariable x) (visitAll env vs : Run φ Unit) :=
  .forM fun v hv => stepAlone_same hx (hvs v hv)

end Expressions

/-- Two states in which a slot keeps the same value, or none. -/
def SameSlot (slot : Nat) (s s' : RunState φ) : Prop := s'.kept.lookup slot = s.kept.lookup slot

instance {slot : Nat} : IsPreorder (RunState φ) (SameSlot slot) where
  refl _ := rfl
  trans _ _ _ h h' := Eq.trans h' h

omit [Fixture φ] in
/-- A call keeps values in its own slot only. -/
theorem SameSlot.of_keeping {slot other : Nat} {s s' : RunState φ} (hne : other ≠ slot)
    (h : Keeping other s s') :
    SameSlot slot s s' := by
  obtain ⟨vs, hvs⟩ := h.kept
  have hnone : (vs.map (Prod.mk other)).lookup slot = none :=
    List.lookup_eq_none_iff.mpr fun e he => by
      obtain ⟨v, -, rfl⟩ := List.mem_map.mp he
      simpa using Ne.symm hne
  unfold SameSlot
  rw [hvs, List.lookup_append, hnone]
  rfl

/-- Visits to other calls leave what a call keeps, unless rows are compared. -/
theorem visitAll_sameSlot {slot : Nat} {vs : List (Phase × Occurrence)}
    (hvs : ∀ v ∈ vs, v.2.command ≠ .verifyRows ∧ v.2.slot ≠ slot) :
    Always (SameSlot slot) (visitAll env vs : Run φ Unit) := by
  refine .forM fun v hv => ?_
  obtain ⟨hrows, hne⟩ := hvs v hv
  rw [stepAlone_eq]
  exact .bind (.modify fun _ => rfl) fun _ => (part_keeping hrows).mono (.of_keeping hne)

/-- Two states with the same tree. -/
def SameTree (s s' : RunState φ) : Prop := s'.tree = s.tree

instance : IsPreorder (RunState φ) SameTree where
  refl _ := rfl
  trans _ _ _ h h' := Eq.trans h' h

/-- Visits to calls that change no text leave the tree as it is. -/
theorem visitAll_sameTree {vs : List (Phase × Occurrence)} (hvs : ∀ v ∈ vs, v.2.KeepsTexts) :
    Always SameTree (visitAll env vs : Run φ Unit) := by
  refine .forM fun v hv => ?_
  have hv := hvs v hv
  rw [stepAlone_eq]
  exact .bind (.modify fun _ => rfl) fun _ =>
    (part_reports hv.builtIn hv.echoless hv.rowless).mono fun h => h.tree

/-! ## What is set, and what is found -/

variable {a b : Occurrence} {s : RunState φ} {v : Value}

/-- A `set` of a variable binds the element and then the text of the element to the variable, and
does nothing else. -/
theorem result_setTarget (env : Surroundings) (s : RunState φ)
    (h : Statement.read a.expression = .ok (.eval (.variable x))) :
    (setTarget env a .execute).result s = (.ok (), { s.bound a.element with
      scope :=
  (s.bound a.element).scope.bind x (.string (Text.normal (s.tree.text a.element))) }) := by
  have hplace : Place.ofText? a.expression = some (.variable x) := Place.ofText?_eq_some.mpr h
  have hassign : ∀ v, (s.bound a.element).scope.assign a.expression v = (.ok (),
      (s.bound a.element).scope.bind x v) :=
    fun v => Scope.assign_of_some hplace
  unfold setTarget
  rw [result_bind, result_look]
  dsimp only
  rw [result_bind, result_bindElement]
  dsimp only
  rw [result_bind, result_assign, hassign]
  rfl

/-- A `set` of a variable gives it the text of the element in normal form. -/
theorem find?_setTarget (env : Surroundings) (s : RunState φ)
    (h : Statement.read a.expression = .ok (.eval (.variable x))) :
    ((setTarget env a .execute).result s).2.scope.bindings.find? x =
      some (.string (Text.normal (s.tree.text a.element))) := by
  rw [result_setTarget env s h]
  exact (Entries.find?_put ..).trans (if_pos rfl)

/-- An assertion of a variable binds the element and keeps what the variable then holds, and does
nothing else. -/
theorem result_assertEquals_execute (env : Surroundings)
    (h : Statement.read b.expression = .ok (.eval (.variable x)))
    (hv : (s.bound b.element).scope.bindings.find? x = some v) :
    (assertEquals env b .execute).result s = (.ok (),
      { s.bound b.element with kept := (b.slot, v) :: s.kept }) := by
  have hplace : Place.ofText? b.expression = some (.variable x) := Place.ofText?_eq_some.mpr h
  have hevaluate :
      (s.bound b.element).scope.evaluate b.expression = (.ok v, (s.bound b.element).scope) :=
    Scope.evaluate_of_holds hplace hv
  unfold assertEquals evaluateAt
  rw [result_bind, result_bind, result_bindElement]
  dsimp only
  rw [result_bind, result_evaluate, hevaluate]
  rfl

/-- An assertion of a variable keeps its value. -/
theorem lookup_assertEquals (env : Surroundings)
    (h : Statement.read b.expression = .ok (.eval (.variable x)))
    (hv : (s.bound b.element).scope.bindings.find? x = some v) :
    ((assertEquals env b .execute).result s).2.kept.lookup b.slot = some v := by
  rw [result_assertEquals_execute env h hv]
  exact List.lookup_cons_self

end Run

/-- Two texts in normal form confirm each other exactly if they are the same, though each is
normalised once more. -/
theorem Value.confirms_normal {t t' : String} :
    (Value.string (Text.normal t)).confirms (Text.normal t') = true ↔
      Text.normal t = Text.normal t' := by
  unfold confirms
  simp [Text.normal_normal]

namespace Run

/-! ## Carrying a text -/

section Carrying

variable [Fixture φ] {env : Surroundings} {a b : Occurrence} {x : String} {s s₁ s₂ s₃ : RunState φ}

/-- A text that is carried: in `s₁` a call sets a variable, in `s₂` another call asserts it, and in
`s₃` that one compares. Until it is asserted, the variable is as it was set; until it is compared,
what was asserted is as it was kept. -/
structure Carried (env : Surroundings) (a b : Occurrence) (x : String)
    (s₁ s₂ s₃ : RunState φ) : Prop where
  set : Statement.read a.expression = .ok (.eval (.variable x))
  asserted : Statement.read b.expression = .ok (.eval (.variable x))
  held : SameVariable x ((setTarget env a .execute).result s₁).2 s₂
  kept : SameSlot b.slot ((assertEquals env b .execute).result s₂).2 s₃

/-- What becomes of a text that is carried: setting and asserting it succeed and record nothing, and
then one outcome is recorded, a success exactly if the two elements have the same text in normal
form. -/
structure Arrives (env : Surroundings) (a b : Occurrence) (s₁ s₂ s₃ : RunState φ) : Prop where
  sets : ((setTarget env a .execute).result s₁).1 = .ok () ∧
    ((setTarget env a .execute).result s₁).2.record = s₁.record
  asserts : ((assertEquals env b .execute).result s₂).1 = .ok () ∧
    ((assertEquals env b .execute).result s₂).2.record = s₂.record
  compares : ∃ outcome, ((assertEquals env b .verify).result s₃).2.record.outcomes =
      s₃.record.outcomes ++ [⟨b.element, outcome⟩] ∧
    (outcome = .success ↔ Text.normal (s₁.tree.text a.element) =
      Text.normal (s₃.tree.text b.element))

/-- What is carried arrives. -/
theorem Carried.arrives (hx : x ∉ elementVariables) (h : Carried env a b x s₁ s₂ s₃) :
    Arrives env a b s₁ s₂ s₃ := by
  have hset := result_setTarget env s₁ h.set
  have hheld := (s₂.find?_bound hx b.element).trans (h.held.trans (find?_setTarget env s₁ h.set))
  have hassert := result_assertEquals_execute env h.asserted hheld
  have hkept := h.kept.trans (lookup_assertEquals env h.asserted hheld)
  refine ⟨by rw [hset]; exact ⟨rfl, rfl⟩, by rw [hassert]; exact ⟨rfl, rfl⟩, _,
    assertEquals_judges hkept, ?_⟩
  unfold Value.judged
  rw [← Value.confirms_normal]
  split <;> simp [*]

/-- What a carried text is compared with is what the assertion kept. -/
theorem Carried.confirms_iff {v : Value} (h : Carried env a b x s₁ s₂ s₃)
    (hv : (s₂.bound b.element).scope.bindings.find? x = some v)
    (harrives : Arrives env a b s₁ s₂ s₃) :
    v.confirms (Text.normal (s₃.tree.text b.element)) = true ↔
      Text.normal (s₁.tree.text a.element) = Text.normal (s₃.tree.text b.element) := by
  obtain ⟨outcome, houtcomes, hsuccess⟩ := harrives.compares
  have hkept := h.kept.trans (lookup_assertEquals env h.asserted hv)
  rw [assertEquals_judges hkept] at houtcomes
  obtain rfl : v.judged (Text.normal (s₃.tree.text b.element)) = outcome := by
    simpa using List.append_cancel_left houtcomes
  rw [← hsuccess]
  unfold Value.judged
  split <;> simp [*]

/-- A run from a `set` to the comparison of an assertion of the variable: calls that are visited
between the two leave the variable alone, and calls after the assertion keep their values elsewhere.
-/
structure Passage (env : Surroundings) (a b : Occurrence) (x : String)
    (between after : List (Phase × Occurrence)) (s₁ s₂ s₃ : RunState φ) : Prop where
  setting : a.command = .set
  set : Statement.read a.expression = .ok (.eval (.variable x))
  asserting : b.command = .assertEquals
  asserted : Statement.read b.expression = .ok (.eval (.variable x))
  spares : ∀ v ∈ between, v.2.Shuns x
  apart : ∀ v ∈ after, v.2.command ≠ .verifyRows ∧ v.2.slot ≠ b.slot
  reaches : ((visitAll env ((.execute, a) :: between)).result s₁).2 = s₂
  ends : ((visitAll env ((.execute, b) :: after)).result s₂).2 = s₃

/-- **A text is carried past all calls that leave it alone.** -/
theorem Passage.carried {between after : List (Phase × Occurrence)} (hx : x ∉ elementVariables)
    (h : Passage env a b x between after s₁ s₂ s₃) : Carried env a b x s₁ s₂ s₃ := by
  obtain ⟨ha, hset, hb, hasserted, hbetween, hafter, rfl, rfl⟩ := h
  -- the two calls also note their visits, which neither the variable nor the slot depends on
  have hvisitA : (stepAlone env .execute a).result s₁ =
      (setTarget env a .execute).result { s₁ with visits := s₁.visits ++ [(.execute, a)] } := by
    rw [result_stepAlone, part, ha]
  have hvisitB : ∀ s : RunState φ, (stepAlone env .execute b).result s =
      (assertEquals env b .execute).result
        { s with visits := s.visits ++ [(.execute, b)] } := fun s => by
    rw [result_stepAlone, part, hb]
  have hheld : ((visitAll env ((.execute, a) :: between)).result s₁).2.scope.bindings.find? x =
      some (.string (Text.normal (s₁.tree.text a.element))) := by
    rw [visitAll_cons, result_bind_of (hvisitA.trans (result_setTarget env _ hset))]
    refine (visitAll_same hx hbetween _).trans ?_
    exact (Entries.find?_put ..).trans (if_pos rfl)
  generalize ((visitAll env ((.execute, a) :: between)).result s₁).2 = s₂ at hheld ⊢
  have hbound := (s₂.find?_bound hx b.element).trans hheld
  refine ⟨hset, hasserted, hheld.trans (find?_setTarget env s₁ hset).symm, ?_⟩
  have hdone := result_assertEquals_execute
    (s := { s₂ with visits := s₂.visits ++ [(.execute, b)] }) env hasserted hbound
  rw [visitAll_cons, result_bind_of ((hvisitB s₂).trans hdone)]
  refine (visitAll_sameSlot hafter _).trans ?_
  exact List.lookup_cons_self.trans (lookup_assertEquals env hasserted hbound).symm

/-- If no call changes a text on the way, then it is one tree that has both texts. -/
theorem Passage.tree_eq {between after : List (Phase × Occurrence)}
    (h : Passage env a b x between after s₁ s₂ s₃)
    (hkeep : ∀ v ∈ between ++ after, v.2.KeepsTexts) : s₃.tree = s₁.tree := by
  have ha : a.KeepsTexts := by constructor <;> simp [h.setting, Command.isBuiltIn]
  have hb : b.KeepsTexts := by constructor <;> simp [h.asserting, Command.isBuiltIn]
  have hfirst : SameTree s₁ s₂ := h.reaches ▸
    visitAll_sameTree (List.forall_mem_cons.mpr ⟨ha,
      fun v hv => hkeep v (List.mem_append_left _ hv)⟩) s₁
  have hlast : SameTree s₂ s₃ := h.ends ▸
    visitAll_sameTree (List.forall_mem_cons.mpr ⟨hb,
      fun v hv => hkeep v (List.mem_append_right _ hv)⟩) s₂
  exact hlast.trans hfirst

end Carrying

/-- Says that a variable carries texts: whatever the run, a text that is set at an element and
asserted at another one is compared with the text of that one. -/
def Carries (x : String) : Prop :=
  ∀ {φ : Type} [Fixture φ] (env : Surroundings) (a b : Occurrence) (s₁ s₂ s₃ : RunState φ),
    Carried env a b x s₁ s₂ s₃ → Arrives env a b s₁ s₂ s₃

/-- **Blanks make no difference on the way.** A text is made of maximal runs of characters that are
not blank, in one way, and its normal form is these runs with one space between each two. So a
normal form is its own normal form, and what confirms a value does so by its normal form alone. A
text that is bound to a variable at an element, and asserted through the variable at another one, is
a success exactly if the texts of the two elements have the same normal form, unless the variable is
one that is bound for each element anew; it is carried past all calls that leave it alone. -/
theorem texts_compared_in_normal_form :
    (∀ text : String, ∃ runs, Text.Runs text.toList runs ∧
      Text.normal text = .ofList ([' '].intercalate runs)) ∧
    (∀ cs runs runs', Text.Runs cs runs → Text.Runs cs runs' → runs = runs') ∧
    (∀ text, Text.normal (Text.normal text) = Text.normal text) ∧
    (∀ (v : Value) (t t' : String), Text.normal t = Text.normal t' → v.confirms t = v.confirms t') ∧
    ∀ x, x ∉ elementVariables → Carries x ∧
      ∀ {φ : Type} [Fixture φ] (env : Surroundings) (a b : Occurrence)
        (between after : List (Phase × Occurrence)) (s₁ s₂ s₃ : RunState φ),
        Passage env a b x between after s₁ s₂ s₃ →
        Carried env a b x s₁ s₂ s₃ ∧
          ((∀ v ∈ between ++ after, v.2.KeepsTexts) → s₃.tree = s₁.tree) := by
  refine ⟨fun text => ⟨_, Text.runs_words _, congrArg String.ofList (Text.normalChars_eq _)⟩,
    fun cs runs runs' h h' => ?_,
    Text.normal_normal, fun v t t' => Value.confirms_congr, fun x hx => ⟨?_, ?_⟩⟩
  · exact h.words_eq.symm.trans h'.words_eq
  · exact fun env a b s₁ s₂ s₃ h => h.arrives hx
  · exact fun env a b between after s₁ s₂ s₃ h => ⟨h.carried hx, h.tree_eq⟩

end Run

/-! A paragraph of two parts that differ in their blanks. -/

namespace Sample

/-- A bold part and one in italics, with the same words. -/
def spaced : Markup.Tree :=
  ⟨#[⟨.document, [1], .top, false⟩, ⟨.element "p" [], [2, 4], .below 0, false⟩,
  ⟨.element "b" [], [3], .below 1, false⟩, ⟨.text "\u2003x  y", [], .below 2, false⟩,
  ⟨.element "i" [], [5], .below 1, false⟩, ⟨.text "x\ny ", [], .below 4, false⟩]⟩

/-- A call that sets a variable to the text of the bold part, -/
def setting (x : String) : Occurrence := ⟨0, 0, 2, .set, ⟨builtInNamespace, "set"⟩, "#" ++ x⟩

/-- a call that asserts that the variable is the text of an element, -/
def comparing (x : String) (n : NodeId) : Occurrence :=
  ⟨1, 1, n, .assertEquals, ⟨builtInNamespace, "assertequals"⟩, "#" ++ x⟩

/-- and a call that asserts something else of the paragraph. -/
def aside : Occurrence := ⟨2, 2, 1, .assertEquals, ⟨builtInNamespace, "assertequals"⟩, "#TEXT"⟩

end Sample

namespace Run

open Sample (setting comparing aside spaced surroundings)

/-- The text of the bold part is carried past a call to the part in italics, and is found there. -/
theorem texts_compared_in_normal_form_spaced :
    Text.Runs "\u2003x  y".toList [['x'], ['y']] ∧ Text.normal "\u2003x  y" = Text.normal "x\ny " ∧
    "x" ∉ elementVariables ∧
    ∃ s₂ s₃, Passage surroundings (setting "x") (comparing "x" 4) "x" [(.execute, aside)]
    [(.verify, aside)]
        (Sample.start spaced) s₂ s₃ ∧
      ((assertEquals surroundings (comparing "x" 4) .verify).result s₃).2.record.outcomes =
        s₃.record.outcomes ++ [⟨4, .success⟩] := by
  obtain ⟨hruns, hunique, -, -, hcarries⟩ := texts_compared_in_normal_form
  have hx : "x" ∉ elementVariables := by decide
  have hread : ∀ x, Token.IsRun x → Statement.read ("#" ++ x) = .ok (.eval (.variable x)) :=
    fun x hx => Statement.read_reference hx
  have hshuns : aside.Shuns "x" := by
    refine ⟨by simp [aside], fun e h => ?_, by simp [aside]⟩
    cases (hread "TEXT" (by decide +kernel)).symm.trans h
  have hpassage : Passage surroundings (setting "x") (comparing "x" 4) "x" [(.execute, aside)]
      [(.verify, aside)] (Sample.start spaced) _ _ :=
    { setting := rfl, set := hread "x" (by decide +kernel)
      asserting := rfl, asserted := hread "x" (by decide +kernel)
      spares := List.forall_mem_singleton.mpr hshuns
      apart := List.forall_mem_singleton.mpr ⟨by simp [aside], by decide⟩
      reaches := rfl, ends := rfl }
  have hwords : Text.Runs "\u2003x  y".toList [['x'], ['y']] := Text.runs_iff.mpr (by cbv)
  have hsame : Text.normal "\u2003x  y" = Text.normal "x\ny " := by
    obtain ⟨runs, hr, hnormal⟩ := hruns "\u2003x  y"
    rw [hnormal, hunique _ _ _ hr hwords]
    cbv
  obtain ⟨hx', hpasses⟩ := hcarries "x" hx
  obtain ⟨hcarried, htree⟩ := hpasses _ _ _ _ _ _ _ _ hpassage
  have hkeep : aside.KeepsTexts := ⟨rfl, by simp [aside], by simp [aside]⟩
  obtain ⟨outcome, houtcomes, hsuccess⟩ := (hx' _ _ _ _ _ _ hcarried).compares
  rw [htree (by simp [hkeep])] at hsuccess
  have htexts : Text.normal (spaced.text 2) = Text.normal (spaced.text 4) := by cbv
  rw [hsuccess.mpr htexts] at houtcomes
  exact ⟨hwords, hsame, hx, _, _, hpassage, houtcomes⟩

/-- **The variables of elements carry nothing.** In the paragraph, the text of the bold part is
asserted of the paragraph itself, which has another text, and that succeeds: `TEXT` is the text of
the paragraph by then. It is asserted of the part in italics, which has the same text, and that
fails: `HREF` is the link of that part by then. -/
theorem not_carries_elementVariables : ¬ Carries "TEXT" ∧ ¬ Carries "HREF" := by
  have hcarried : ∀ x n, Token.IsRun x → ∃ s₂ s₃, s₂.tree = spaced ∧ s₃.tree = spaced ∧
      Carried surroundings (setting x) (comparing x n) x
        (Sample.start spaced) s₂ s₃ := fun x n hx => by
    have hset : SameTree (Sample.start spaced)
        ((setTarget surroundings (setting x) .execute).result (Sample.start spaced)).2 :=
      (setTarget_reports _).tree
    have hassert : ∀ s : RunState StockFixture,
        SameTree s ((assertEquals surroundings (comparing x n) .execute).result s).2 :=
      fun s => (assertEquals_reports s).tree
    exact ⟨_, _, hset, (hassert _).trans hset, Statement.read_reference hx,
      Statement.read_reference hx, rfl, rfl⟩
  refine ⟨fun hcarries => ?_, fun hcarries => ?_⟩
  · obtain ⟨s₂, s₃, htree₂, htree₃, h⟩ := hcarried "TEXT" 1 (by decide +kernel)
    have hiff := h.confirms_iff (s₂.find?_bound_text 1) (hcarries _ _ _ _ _ _ h)
    rw [htree₂, htree₃] at hiff
    have hbold : Text.normal (spaced.text 2) = "x y" := by cbv
    have hwhole : Text.normal (spaced.text 1) = "x yx y" := by cbv
    have hsame : Text.normal (spaced.text 2) = Text.normal (spaced.text 1) :=
      hiff.mp (Value.confirms_normal.mpr rfl)
    rw [hbold, hwhole] at hsame
    exact absurd hsame (by decide)
  · obtain ⟨s₂, s₃, htree₂, htree₃, h⟩ := hcarried "HREF" 4 (by decide +kernel)
    have hiff := h.confirms_iff (s₂.find?_bound_href 4) (hcarries _ _ _ _ _ _ h)
    rw [htree₂, htree₃] at hiff
    have hsame : Text.normal (spaced.text 2) = Text.normal (spaced.text 4) := by cbv
    have hnull : ((spaced.attribute? 4 "href").elim Value.null .string).confirms
        (Text.normal (spaced.text 4)) = false := by
      cbv
    exact Bool.false_ne_true (hnull.symm.trans (hiff.mpr hsame))

end Run
end LiveSpec
