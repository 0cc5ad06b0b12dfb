import LiveSpec.Proofs.Run.Alone

/-!
# The order of a run

A run passes over its calls three times. Preparing goes through them in the order of the document
(`Call.walk`), comparing comes to a call after the calls inside it (`Call.comparisonOrder`), and
executing goes in the order of the document as well, except that an `execute` first lets the calls
inside it bind variables, then evaluates its expression, and then runs the others
(`Call.executionOrder`).

Who runs the calls inside a call is divided between the phases and the commands that own what is
inside them: an `execute` runs them itself. The two agree. As long as no command repeats others for
the rows of a table and no probe drives the calls inside it, a run over a whole graph is the run of
each call by itself, in the order of `CallGraph.schedule` (`runGraph_eq`). The induction is over
calls and lists of calls, phase by phase; what carries it is that nodes keep their names, so that
what is no table at the start is none later.
-/

namespace LiveSpec

open Markup (NodeId Tree)

/-! ## The orders -/

namespace Call

mutual
/-- A call and all calls inside it, in the order in which they execute. -/
def executionOrder : Call → List Occurrence
  | .mk o cs =>
    if o.command = .execute then bindingOrder true cs ++ o :: bindingOrder false cs else
      o :: executionOrderAll cs
/-- Calls and all calls inside them, in the order in which they execute. -/
def executionOrderAll : List Call → List Occurrence
  | [] => []
  | c :: cs => executionOrder c ++ executionOrderAll cs
/-- Those of several calls that bind variables, or the others, with all calls inside them, in the
order in which they execute. -/
def bindingOrder (binding : Bool) : List Call → List Occurrence
  | [] => []
  | c :: cs => (if c.head.command.binds == binding then executionOrder c else
    []) ++ bindingOrder binding cs
end

mutual
/-- A call and all calls inside it, in the order in which they compare. -/
def comparisonOrder : Call → List Occurrence
  | .mk o cs => comparisonOrderAll cs ++ [o]
/-- Calls and all calls inside them, in the order in which they compare. -/
def comparisonOrderAll : List Call → List Occurrence
  | [] => []
  | c :: cs => comparisonOrder c ++ comparisonOrderAll cs
end

/-- Calls of one kind, binding or not, are executed in document order. -/
theorem bindingOrder_eq (b : Bool) (cs : List Call) :
    bindingOrder b cs = (cs.filter fun c => c.head.command.binds == b).flatMap executionOrder := by
  induction cs with
  | nil => rfl
  | cons c cs ih =>
    unfold bindingOrder
    rw [ih, List.filter_cons]
    split <;> simp

mutual
/-- Executing comes to each call once. -/
theorem executionOrder_perm : (c : Call) → c.executionOrder.Perm c.walk
  | .mk o cs => by
    unfold executionOrder walk
    split
    · exact List.perm_middle.trans ((bindingOrder_perm cs).cons o)
    · exact (executionOrderAll_perm cs).cons o
/-- Executing runs every call once. -/
theorem executionOrderAll_perm : (cs : List Call) → (executionOrderAll cs).Perm (walkAll cs)
  | [] => by simp [executionOrderAll, walkAll]
  | c :: cs => by
    unfold executionOrderAll walkAll
    exact (executionOrder_perm c).append (executionOrderAll_perm cs)
/-- The binding calls and the others are all the calls. -/
theorem bindingOrder_perm : (cs : List Call) → (bindingOrder true cs ++ bindingOrder false cs).Perm
    (walkAll cs)
  | [] => by simp [bindingOrder, walkAll]
  | c :: cs => by
    have hc := executionOrder_perm c
    have hcs := bindingOrder_perm cs
    unfold bindingOrder walkAll
    cases hb : c.head.command.binds with
    | true => simpa using hc.append hcs
    | false =>
      have hmid : (bindingOrder true cs ++ (c.executionOrder ++ bindingOrder false cs)).Perm
          (c.executionOrder ++ (bindingOrder true cs ++ bindingOrder false cs)) := by
        simpa using (@List.perm_append_comm _ (bindingOrder true cs) _).append_right
          (bindingOrder false cs)
      simpa using hmid.trans (hc.append hcs)
end

mutual
/-- Comparing comes to each call once. -/
theorem comparisonOrder_perm : (c : Call) → c.comparisonOrder.Perm c.walk
  | .mk o cs => by
    unfold comparisonOrder walk
    exact (List.perm_append_singleton o _).trans ((comparisonOrderAll_perm cs).cons o)
/-- Verifying runs every call once. -/
theorem comparisonOrderAll_perm : (cs : List Call) → (comparisonOrderAll cs).Perm (walkAll cs)
  | [] => by simp [comparisonOrderAll, walkAll]
  | c :: cs => by
    unfold comparisonOrderAll walkAll
    exact (comparisonOrder_perm c).append (comparisonOrderAll_perm cs)
end

/-- A call and all calls inside it, in the order of a phase. -/
def order : Phase → Call → List Occurrence
  | .setup => walk
  | .execute => executionOrder
  | .verify => comparisonOrder

/-- Calls and all calls inside them, in the order of a phase. -/
def orderAll : Phase → List Call → List Occurrence
  | .setup => walkAll
  | .execute => executionOrderAll
  | .verify => comparisonOrderAll

/-- So does each phase. -/
theorem order_perm (p : Phase) (c : Call) : (c.order p).Perm c.walk := by
  cases p with
  | setup => exact .refl _
  | execute => exact executionOrder_perm c
  | verify => exact comparisonOrder_perm c

/-- And each phase of a list. -/
theorem orderAll_perm (p : Phase) (cs : List Call) : (orderAll p cs).Perm (walkAll cs) := by
  cases p with
  | setup => exact .refl _
  | execute => exact executionOrderAll_perm cs
  | verify => exact comparisonOrderAll_perm cs

end Call

namespace CallGraph

/-- All visits of a run in order: each phase passes over all calls before the next one begins. -/
def schedule (g : CallGraph) : List (Phase × Occurrence) :=
  [.setup, .execute, .verify].flatMap fun p => (Call.orderAll p g.roots).map fun o => (p, o)

end CallGraph

/-! ## Commands that leave the calls inside them to the phases -/

/-- Says whether a probe runs the calls inside it. -/
def Probe.drives (p : Probe) : Bool :=
  match p.act with
  | some (_, .drive) | some (_, .rows) => true
  | _ => false

/-- Says whether a command, on a table or not, neither owns the calls inside it nor runs them; an
`execute` does own them, but off a table it only puts them in another order. -/
def Command.isPlain (onTable : Bool) : Command → Bool
  | .execute => !onTable
  | .verifyRows => false
  | .probe p => !p.owns && !p.drives
  | _ => true

/-- A call of a plain command at an element of the tree. -/
structure Occurrence.Plain (t : Tree) (o : Occurrence) : Prop where
  element : t.isElement o.element = true
  command : o.command.isPlain (t.isNamed o.element "table") = true

/-- A plain call stays plain while the contents are kept. -/
theorem Occurrence.Plain.mono {t t' : Tree} {o : Occurrence} (h : o.Plain t)
    (ht : t.SameContents t') : o.Plain t' := by
  have hcontent := ht.content (Tree.lt_size_of_isElement h.element)
  refine ⟨(Tree.isElement_congr hcontent).trans h.element, ?_⟩
  rw [Tree.isNamed_congr hcontent]
  exact h.command

namespace Run

variable {φ : Type} [Fixture φ] {env : Surroundings} {o : Occurrence} {p : Phase}
  {s s' : RunState φ} {runRow : List Occurrence → Run φ Unit → Run φ Unit}
  {columns : List Occurrence} {inside : Inside φ}

/-- A call that compares no rows keeps every content. -/
theorem stepAlone_sameContents (h : o.command ≠ .verifyRows) :
    Keeps SameContents (stepAlone env p o : Run φ Unit) := fun s _ s' hy => by
  rw [stepAlone_eq, yields_visit] at hy
  exact (part_deeds h hy).sameContents

/-- A call on its own is noted, and notes nothing else. -/
theorem visits_stepAlone (h : o.command ≠ .verifyRows) {u : Unit}
    (hy : (stepAlone env p o).Yields s u s') :
    s'.visits = s.visits ++ [(p, o)] := by
  rw [stepAlone_eq, yields_visit] at hy
  exact (part_deeds h hy).visits

/-! ## One call -/

/-- A probe that does not run the calls inside it does the same whatever they are. -/
theorem probePhase_plain {probe : Probe} (h : probe.drives = false) :
    probePhase env probe o inside p = probePhase env probe o .none p := by
  obtain ⟨name, owns, binds, act⟩ := probe
  rcases act with _ | ⟨p', a⟩
  · rfl
  · cases a <;> first | rfl | cases h

/-- What a plain command other than `execute` does is its part, and the phases run what is inside
it. -/
theorem act_plain {t : Tree} (h : o.Plain t) (hne : o.command ≠ .execute) :
    act env runRow o columns inside p = stepAlone env p o ∧
    o.command.owns (!columns.isEmpty) = false := by
  rw [stepAlone_eq]
  have hplain := h.command
  unfold act part
  cases hc : o.command with
  | execute => exact absurd hc hne
  | verifyRows => rw [hc] at hplain; cases hplain
  | probe probe =>
    rw [hc] at hplain
    simp only [Command.isPlain, Bool.and_eq_true, Bool.not_eq_true'] at hplain
    exact ⟨congrArg (visit p o) (probePhase_plain hplain.2), hplain.1⟩
  | _ => exact ⟨rfl, rfl⟩

/-- At a plain `execute`, the calls inside run after setup, around execution, and before
verification. -/
theorem act_execute (hc : o.command = .execute) (h : o.Plain s.tree) :
    (act env runRow o columns inside p).result s =
      (match p with
        | .setup => do stepAlone env .setup o; inside.phase .setup
        | .execute => bindingFirst inside (stepAlone env .execute o)
        | .verify => do inside.phase .verify; stepAlone env .verify o : Run φ Unit).result s := by
  have halone : ∀ p, (stepAlone env p o : Run φ Unit) =
      visit p o (if p = .execute then executeAt env o o.element else pure ()) := fun p => by
    rw [stepAlone_eq]; unfold part; rw [hc]
  have htable : isTableDriven s.tree o columns = false := by
    have hno : s.tree.isNamed o.element "table" = false := by
      simpa [hc, Command.isPlain] using h.command
    unfold isTableDriven
    rw [hno]
    rfl
  have hact : act env runRow o columns inside p = executeCommand env runRow o columns inside p := by
    unfold act; rw [hc]
  rw [hact, halone, halone, halone]
  unfold executeCommand
  show (if isTableDriven s.tree o columns = true then _ else _ : Run φ Unit).result s = _
  rw [if_neg (by simp [htable])]
  cases p <;> rfl

/-- A phase of a plain call: its own part, and the calls inside it in their turn. -/
def inTurn (env : Surroundings) (o : Occurrence) (inside : Inside φ) : Phase → Run φ Unit
  | .setup => do
    stepAlone env .setup o
    inside.phase .setup
  | .execute =>
    if o.command = .execute then bindingFirst inside (stepAlone env .execute o)
    else do
      stepAlone env .execute o
      inside.phase .execute
  | .verify => do
    inside.phase .verify
    stepAlone env .verify o

/-- A plain call and those inside take their turns as the command says. -/
theorem step_plain (h : o.Plain s.tree) (hnil : columns = [] → ∀ p, inside.phase p = pure ()) :
    (step env runRow o columns inside p).result s = (inTurn env o inside p).result s := by
  by_cases hc : o.command = .execute
  · have hact : (step env runRow o columns inside p).result s =
      (act env runRow o columns inside p).result s := by
      unfold step
      rw [hc]
      by_cases hcol : columns = []
      · cases p <;> simp [hcol, hnil hcol, Command.owns]
      · simp [hcol, Command.owns]
    rw [hact, act_execute hc h]
    cases p <;> simp [inTurn, hc]
  · obtain ⟨hact, howns⟩ : act env runRow o columns inside p = stepAlone env p o ∧ _ :=
      act_plain h hc
    unfold step
    rw [hact, howns]
    cases p <;> simp [inTurn, hc]

/-! ## All calls -/

/-- Each call of a list by itself. -/
abbrev eachAlone (env : Surroundings) (p : Phase) (os : List Occurrence) : Run φ Unit :=
  os.forM (stepAlone env p)

/-- Plain calls one after the other keep every content. -/
theorem eachAlone_sameContents {os : List Occurrence} (h : ∀ o ∈ os, o.Plain s.tree) :
    Keeps SameContents (eachAlone env p os : Run φ Unit) :=
  .forM fun o ho => stepAlone_sameContents fun hc => by
    have := (h o ho).command
    rw [hc] at this
    cases this

/-- One list after the other, the second from wherever the first leads. -/
theorem result_eachAlone_append {x y : Run φ Unit} {xs ys : List Occurrence}
    (hxs : ∀ o ∈ xs, o.Plain s.tree) (hx : x.result s = (eachAlone env p xs).result s)
    (hy : ∀ s₁ : RunState φ, SameContents s s₁ → y.result s₁ = (eachAlone env p ys).result s₁) :
    (x >>= fun _ => y).result s = (eachAlone env p (xs ++ ys)).result s := by
  have happend : (eachAlone env p (xs ++ ys) : Run φ Unit) = eachAlone env p xs >>= fun _ =>
      eachAlone env p ys :=
    List.forM_append
  rw [happend]
  exact result_bind_congr hx fun {_ s₁} hyield => hy s₁ (eachAlone_sameContents hxs hyield)

theorem eachAlone_singleton : (eachAlone env p [o] : Run φ Unit) = stepAlone env p o := by
  show (stepAlone env p o >>= fun _ => pure ()) = _
  exact bind_pure _

mutual
/-- A phase of a plain call is the schedule of that phase. -/
theorem runCall_eq : (p : Phase) → (c : Call) → (s : RunState φ) → (∀ o ∈ c.walk, o.Plain s.tree) →
    (runCall env p c).result s = (eachAlone env p (c.order p)).result s
  | p, .mk o cs, s, h => by
    have ho : o.Plain s.tree := h o (by simp [Call.walk])
    have hcs : ∀ o ∈ Call.walkAll cs, o.Plain s.tree := fun o' h' => h o' (by simp [Call.walk, h'])
    have hone : ∀ o' ∈ [o], o'.Plain s.tree := fun o' h' => List.mem_singleton.mp h' ▸ ho
    have hkeep : ∀ s₁ : RunState φ, SameContents s s₁ → ∀ o ∈ Call.walkAll cs, o.Plain s₁.tree :=
      fun s₁ hs o' h' => (hcs o' h').mono hs
    have halone : (stepAlone env p o : Run φ Unit).result s = (eachAlone env p [o]).result s := by
      rw [eachAlone_singleton]
    have hstep : (runCall env p (.mk o cs)).result s =
        (inTurn env o ⟨fun p => runCalls env p cs, fun b => runBinding env b cs⟩ p).result s := by
      refine step_plain ho fun hnil p => ?_
      cases List.map_eq_nil_iff.mp hnil
      rfl
    rw [hstep]
    cases p with
    | setup =>
      exact result_eachAlone_append hone halone fun s₁ hs => runCalls_eq .setup cs s₁ (hkeep s₁ hs)
    | execute =>
      have hbinding : ∀ o ∈ Call.bindingOrder true cs, o.Plain s.tree := fun o' h' =>
        hcs o' ((Call.bindingOrder_perm cs).mem_iff.mp (List.mem_append_left _ h'))
      dsimp only [inTurn, Call.order]
      unfold Call.executionOrder
      split
      · refine result_eachAlone_append hbinding (runBinding_eq true cs s hcs) fun s₁ hs => ?_
        refine result_eachAlone_append (fun o' h' => (hone o' h').mono hs) ?_ fun s₂ hs₂ => ?_
        · rw [eachAlone_singleton]
        · exact runBinding_eq false cs s₂ (hkeep s₂ (trans_of SameContents hs hs₂))
      · exact result_eachAlone_append hone halone fun s₁ hs =>
          runCalls_eq .execute cs s₁ (hkeep s₁ hs)
    | verify =>
      have hinside : ∀ o ∈ Call.comparisonOrderAll cs, o.Plain s.tree := fun o' h' =>
        hcs o' ((Call.comparisonOrderAll_perm cs).mem_iff.mp h')
      dsimp only [inTurn, Call.order]
      unfold Call.comparisonOrder
      refine result_eachAlone_append hinside (runCalls_eq .verify cs s hcs) fun s₁ hs => ?_
      rw [eachAlone_singleton]
/-- So is a phase of a list of plain calls. -/
theorem runCalls_eq : (p : Phase) → (cs : List Call) → (s : RunState φ) →
    (∀ o ∈ Call.walkAll cs, o.Plain s.tree) →
    (runCalls env p cs).result s = (eachAlone env p (Call.orderAll p cs)).result s
  | p, [], s, h => by
    have hnil : Call.orderAll p [] = [] := by cases p <;> rfl
    rw [hnil]
    rfl
  | p, c :: cs, s, h => by
    have hc : ∀ o ∈ c.walk, o.Plain s.tree := fun o h' => h o (by simp [Call.walkAll, h'])
    have hcs : ∀ o ∈ Call.walkAll cs, o.Plain s.tree := fun o h' => h o (by simp [Call.walkAll, h'])
    have horder : Call.orderAll p (c :: cs) = c.order p ++ Call.orderAll p cs := by cases p <;> rfl
    have hmem : ∀ o ∈ c.order p, o.Plain s.tree :=
      fun o h' => hc o ((Call.order_perm p c).mem_iff.mp h')
    rw [horder]
    exact result_eachAlone_append hmem (runCall_eq p c s hc) fun s₁ hs =>
      runCalls_eq p cs s₁ fun o h' => (hcs o h').mono hs
/-- And the execution of the binding ones, or of the others. -/
theorem runBinding_eq (b : Bool) : (cs : List Call) → (s : RunState φ) →
    (∀ o ∈ Call.walkAll cs, o.Plain s.tree) →
    (runBinding env b cs).result s = (eachAlone env .execute (Call.bindingOrder b cs)).result s
  | [], s, h => rfl
  | c :: cs, s, h => by
    have hc : ∀ o ∈ c.walk, o.Plain s.tree := fun o h' => h o (by simp [Call.walkAll, h'])
    have hcs : ∀ o ∈ Call.walkAll cs, o.Plain s.tree := fun o h' => h o (by simp [Call.walkAll, h'])
    have hmem : ∀ o ∈ c.executionOrder, o.Plain s.tree := fun o h' =>
      hc o ((Call.executionOrder_perm c).mem_iff.mp h')
    unfold runBinding Call.bindingOrder
    by_cases hb : (c.head.command.binds == b) = true
    · simp only [if_pos hb]
      exact result_eachAlone_append hmem (runCall_eq .execute c s hc) fun s₁ hs =>
        runBinding_eq b cs s₁ fun o h' => (hcs o h').mono hs
    · simp only [if_neg hb]
      exact runBinding_eq b cs s hcs
end

/-! ## A run over a graph -/

/-- The schedule is the three passes, one after the other. -/
theorem forM_schedule (g : CallGraph) :
    (g.schedule.forM fun v => stepAlone env v.1 v.2 : Run φ Unit) = (do
    eachAlone env .setup (Call.orderAll .setup g.roots)
    eachAlone env .execute (Call.orderAll .execute g.roots)
    eachAlone env .verify (Call.orderAll .verify g.roots)) := by
  simp [CallGraph.schedule, List.forM_append, List.forM_map]
  rfl

/-- A plain graph runs call by call as scheduled. -/
theorem runGraph_eq {g : CallGraph} (h : ∀ o ∈ g.walk, o.Plain s.tree) :
    (runGraph env g).result s =
      (g.schedule.forM fun v => stepAlone env v.1 v.2 : Run φ Unit).result s := by
  have hpass : ∀ p, ∀ o ∈ Call.orderAll p g.roots, o.Plain s.tree := fun p o ho =>
    h o ((Call.orderAll_perm p g.roots).mem_iff.mp ho)
  have hkeep : ∀ s₁ : RunState φ, SameContents s s₁ →
      ∀ o ∈ g.walk, o.Plain s₁.tree := fun s₁ hs o ho =>
    (h o ho).mono hs
  rw [forM_schedule]
  refine result_bind_congr (runCalls_eq .setup g.roots s h) fun {_ s₁} hy₁ => ?_
  have hs₁ : SameContents s s₁ := eachAlone_sameContents (hpass .setup) hy₁
  refine result_bind_congr (runCalls_eq .execute g.roots s₁ (hkeep s₁ hs₁)) fun {_ s₂} hy₂ => ?_
  have hs₂ : SameContents s s₂ := trans_of SameContents hs₁
    (eachAlone_sameContents (fun o ho => (hpass .execute o ho).mono hs₁) hy₂)
  exact runCalls_eq .verify g.roots s₂ (hkeep s₂ hs₂)

/-- Calls by themselves are visited in the order in which they come. -/
theorem visits_forM_stepAlone {vs : List (Phase × Occurrence)}
    (h : ∀ v ∈ vs, v.2.command ≠ .verifyRows) {u : Unit}
    (hy : (vs.forM fun v => stepAlone env v.1 v.2 : Run φ Unit).Yields s u s') :
    s'.visits = s.visits ++ vs := by
  induction vs generalizing s with
  | nil =>
    obtain ⟨-, rfl⟩ := yields_pure.mp hy
    simp
  | cons v vs ih =>
    obtain ⟨_, s₁, hv, hvs⟩ := yields_bind.mp hy
    rw [ih (fun w hw => h w (List.mem_cons_of_mem v hw)) hvs,
      visits_stepAlone (h v List.mem_cons_self) hv]
    simp

/-- **The three phases in order.** A run over plain calls is the run of each call by itself in the
order of the schedule; if it ends without an error, these are its visits. The schedule has one pass
for each phase, and each pass comes to every call once: to prepare in the order of the document, to
compare after the calls inside, and to execute in the order of the document, where an `execute`
comes after the calls inside it that bind variables and before the others. -/
theorem phases_in_order (g : CallGraph) (h : ∀ o ∈ g.walk, o.Plain s.tree) :
    (runGraph env g).result s =
      (g.schedule.forM fun v => stepAlone env v.1 v.2 : Run φ Unit).result s ∧
    (∀ s', (runGraph env g).Yields s () s' → s'.visits = s.visits ++ g.schedule) ∧
    g.schedule = g.walk.map (Prod.mk .setup) ++
      (Call.executionOrderAll g.roots).map (Prod.mk .execute) ++
      (Call.comparisonOrderAll g.roots).map (Prod.mk .verify) ∧
    (Call.executionOrderAll g.roots).Perm g.walk ∧ (Call.comparisonOrderAll g.roots).Perm g.walk ∧
    ∀ o cs, o.command = .execute → (Call.mk o cs).executionOrder =
      (cs.filter fun c => c.head.command.binds).flatMap Call.executionOrder ++
        o :: (cs.filter fun c => !c.head.command.binds).flatMap Call.executionOrder := by
  refine ⟨runGraph_eq h, fun s' hy => ?_, ?_, Call.executionOrderAll_perm _,
    Call.comparisonOrderAll_perm _,
    fun o cs ho => ?_⟩
  · unfold Yields at hy
    rw [runGraph_eq h] at hy
    refine visits_forM_stepAlone (fun v hv hc => ?_) hy
    obtain ⟨p, -, hv⟩ := List.mem_flatMap.mp hv
    obtain ⟨o, ho, rfl⟩ := List.mem_map.mp hv
    have hplain := (h o ((Call.orderAll_perm p g.roots).mem_iff.mp ho)).command
    rw [show o.command = .verifyRows from hc] at hplain
    cases hplain
  · simp [CallGraph.schedule, CallGraph.walk, Call.orderAll]
  · rw [Call.executionOrder, if_pos ho, Call.bindingOrder_eq, Call.bindingOrder_eq]
    simp

end Run

namespace Sample

/-- A paragraph that executes `#r = #x`, with an assertion that `#r` is `1` and a binding of `#x` to
`1`. -/
def paragraph : Tree :=
  ⟨#[⟨.document, [1], .top, false⟩, ⟨.element "p" [], [2, 4], .below 0, false⟩,
  ⟨.element "b" [], [3], .below 1, false⟩, ⟨.text "1", [], .below 2, false⟩,
  ⟨.element "i" [], [5], .below 1, false⟩, ⟨.text "1", [], .below 4, false⟩]⟩

/-- The call of the paragraph. -/
def executing : Occurrence := ⟨0, 0, 1, .execute, ⟨builtInNamespace, "execute"⟩, "#r = #x"⟩

/-- The assertion in the paragraph. -/
def asserting : Occurrence := ⟨1, 1, 2, .assertEquals, ⟨builtInNamespace, "assertequals"⟩, "#r"⟩

/-- The binding in the paragraph. -/
def binding : Occurrence := ⟨2, 2, 4, .set, ⟨builtInNamespace, "set"⟩, "#x"⟩

/-- The calls of the paragraph. -/
def paragraphCalls : CallGraph := ⟨[.mk executing [.mk asserting [], .mk binding []]]⟩

end Sample

/-- In the paragraph the binding comes first and the assertion last, although it stands first. -/
theorem Run.phases_in_order_paragraph :
    (∀ o ∈ Sample.paragraphCalls.walk, o.Plain Sample.paragraph) ∧
    ∃ s', (runGraph Sample.surroundings Sample.paragraphCalls).Yields
      (Sample.start Sample.paragraph) () s' ∧
      s'.visits = [(.setup, Sample.executing), (.setup, Sample.asserting), (.setup, Sample.binding),
        (.execute, Sample.binding), (.execute, Sample.executing), (.execute, Sample.asserting),
        (.verify, Sample.asserting), (.verify, Sample.binding), (.verify, Sample.executing)] := by
  have hplain : ∀ o ∈ Sample.paragraphCalls.walk, o.Plain Sample.paragraph := by
    intro o ho
    have : o = Sample.executing ∨ o = Sample.asserting ∨ o = Sample.binding := by
      simpa [CallGraph.walk, Sample.paragraphCalls, Call.walk, Call.walkAll] using ho
    rcases this with rfl | rfl | rfl
    · exact ⟨by cbv, by cbv⟩
    · exact ⟨by cbv, by cbv⟩
    · exact ⟨by cbv, by cbv⟩
  have hends :
      ((runGraph Sample.surroundings Sample.paragraphCalls).result
        (Sample.start Sample.paragraph)).1 = .ok () := by decide +kernel
  have hyields := yields_result hends
  refine ⟨hplain, _, hyields, ?_⟩
  rw [(phases_in_order Sample.paragraphCalls hplain).2.1 _ hyields]
  rfl

end LiveSpec
