import LiveSpec.Proofs.Isolation.Steady
import LiveSpec.Proofs.Run.Alone
import LiveSpec.Proofs.Run.Lockstep
import LiveSpec.Proofs.Tree.Branch

/-!
# Two runs, one of which came upon an error

A run over a graph with a call `c`, whose expression has no value, and a run over the graph without
it go through states that are almost the same. `Twins` says what stays the same: the tree outside
the branch of `c`, the fixture, all variables but those that each evaluation binds anew, the values
that are kept, and the outcomes but those of `c`.

`Parallel` says of a part of a run that it gives the same answer in both, and leads from twins to
twins. The part of every other call does so in every phase (`part_paired`), if the fixture is
steady, no listener refuses anything, and what a nested run finds out does not depend on the runs
around it.
-/

namespace LiveSpec

open Markup (NodeId Tree)

variable {φ α β : Type}

namespace Run

/-- From states that are related by `P` the part gives the same answer, or ends by the same error,
and leads to states that are related by `Q`. -/
def Parallel (P Q : RunState φ → RunState φ → Prop) (x : Run φ α) : Prop :=
  ∀ ⦃s s'⦄, P s s' → (x.result s').1 = (x.result s).1 ∧ Q (x.result s).2 (x.result s').2

namespace Parallel

variable {P Q S : RunState φ → RunState φ → Prop} {x : Run φ α} {f : α → Run φ β}

/-- Parts that only give a value run in parallel. -/
theorem pure {a : α} : Parallel P P (pure a : Run φ α) := fun _ _ h => ⟨rfl, h⟩

theorem throw {e : Error} : Parallel P P (throw e : Run φ α) := fun _ _ h => ⟨rfl, h⟩

/-- If the first part can end by an error, then in states that are fit for the end. -/
theorem bind (hx : Parallel P Q x) (hf : ∀ a, Parallel Q S (f a))
    (hend : ∀ {s s'}, Q s s' → S s s') :
    Parallel P S (x >>= f) := by
  intro s s' h
  obtain ⟨hanswer, hstates⟩ := hx h
  rw [result_bind, result_bind]
  rcases hresult : x.result s with ⟨a?, s₁⟩
  rcases hresult' : x.result s' with ⟨a?', s₁'⟩
  rw [hresult, hresult'] at hanswer hstates
  obtain rfl : a?' = a? := hanswer
  cases a?' with
  | error e => exact ⟨rfl, hend hstates⟩
  | ok a => exact hf a hstates

/-- Parallel parts run in parallel one after the other. -/
theorem seq (hx : Parallel P P x) (hf : ∀ a, Parallel P P (f a)) : Parallel P P (x >>= f) :=
  hx.bind hf id

/-- The same change is made on both sides. -/
theorem modify {g : RunState φ → RunState φ} (h : ∀ {s s'}, P s s' → Q (g s) (g s')) :
    Parallel P Q (modify g : Run φ PUnit) := fun _ _ hP => ⟨rfl, h hP⟩

/-- What is read is the same. -/
theorem look {g : Tree → α} (h : ∀ {s s'}, P s s' → g s'.tree = g s.tree) :
    Parallel P P (Run.look g) := fun s s' hP => by
  rw [result_look, result_look, h hP]
  exact ⟨rfl, hP⟩

end Parallel

end Run

/-! ## What twins have in common -/

/-- Two states with the same tree, scope, outcomes, kept values and held elements. -/
structure Undisturbed (s s' : RunState φ) : Prop where
  tree : s'.tree = s.tree
  scope : s'.scope = s.scope
  outcomes : s'.record.outcomes = s.record.outcomes
  kept : s'.kept = s.kept
  held : s'.held = s.held

/-- The variables that are bound for each element anew. -/
def elementVariables : List String := ["TEXT", "HREF"]

/-- Two states of which the first one has the outcomes `xs` of the call `c` on top of the other's.
The calls were found in the tree `t`. -/
structure Twins (t : Tree) (same : φ → φ → Prop) (c : Occurrence) (hidden : List String)
    (xs : List Recorded) (s s' : RunState φ) : Prop where
  tree : Tree.Beside (t.Under c.element) c.element s.tree s'.tree
  grown : t.nodes.size ≤ s.tree.nodes.size
  scope : Scope.Alike same hidden s.scope s'.scope
  outcomes : ∃ before after, s.record.outcomes = before ++ xs ++ after ∧
    s'.record.outcomes = before ++ after
  others {x : Recorded} : x ∈ s'.record.outcomes → x.element ≠ c.element
  own {x : Recorded} : x ∈ xs → x.element = c.element
  kept : s'.kept = s.kept
  empty : s.kept.lookup c.slot = none
  held {n : NodeId} : n ≠ c.element → (n ∈ s'.held ↔ n ∈ s.held)

/-- A call that has nothing to do with another one: its element is outside the branch of that one,
and it keeps its values in a slot of its own. -/
structure Occurrence.ApartFrom (t : Tree) (o c : Occurrence) : Prop where
  outside : ¬ t.Under c.element o.element
  lt : o.element < t.nodes.size
  slot : o.slot ≠ c.slot

/-- Calls that are apart stand at different elements. -/
theorem Occurrence.ApartFrom.ne {t : Tree} {o c : Occurrence} (h : o.ApartFrom t c) :
    o.element ≠ c.element := fun heq =>
  h.outside (heq ▸ .self)

namespace Twins

variable {t : Tree} {same : φ → φ → Prop} {c o : Occurrence} {hidden : List String}
  {xs : List Recorded} {s s' s₁ s₁' : RunState φ}

/-- Two runs stay twins over changes that nothing looks at. -/
theorem undisturbed (h : Twins t same c hidden xs s s') (hs : Undisturbed s s₁)
    (hs' : Undisturbed s' s₁') :
    Twins t same c hidden xs s₁ s₁' := by
  obtain ⟨htree, hscope, houtcomes, hkept, hheld⟩ := hs
  obtain ⟨htree', hscope', houtcomes', hkept', hheld'⟩ := hs'
  constructor
  · rw [htree, htree']
    exact h.tree
  · rw [htree]
    exact h.grown
  · rw [hscope, hscope']
    exact h.scope
  · rw [houtcomes, houtcomes']
    exact h.outcomes
  · rw [houtcomes']
    exact h.others
  · exact h.own
  · rw [hkept, hkept']
    exact h.kept
  · rw [hkept]
    exact h.empty
  · intro n hn
    rw [hheld, hheld']
    exact h.held hn

/-- An outcome of the call is one of those that make the difference. -/
theorem own_of_mem {x : Recorded} (h : Twins t same c hidden xs s s') (hx : x ∈ s.record.outcomes)
    (hown : x.element = c.element) : x ∈ xs := by
  obtain ⟨before, after, hhere, hthere⟩ := h.outcomes
  have hapart : x ∉ before ++ after := fun hmem => h.others (hthere ▸ hmem) hown
  rw [hhere] at hx
  simp only [List.mem_append] at hx hapart
  tauto

theorem hide (h : Twins t same c [] xs s s') : Twins t same c hidden xs s s' :=
  { h with scope := h.scope.hide }

/-- Binding the text and the link of an element outside the branch shows what was hidden. -/
theorem bound (h : Twins t same c elementVariables xs s s') (ho : o.ApartFrom t c) :
    Twins t same c [] xs (s.bound o.element) (s'.bound o.element) := by
  have htext := h.tree.text ho.outside
  have hlink := h.tree.attribute? ho.outside "href"
  refine { h with scope := ?_ }
  unfold RunState.bound
  dsimp only
  rw [htext, hlink]
  exact h.scope.show_bound.show_bound

/-- Twins stay twins if their scopes stay alike. -/
theorem rescoped {scope scope' : Scope φ} {hidden' : List String}
    (h : Twins t same c hidden xs s s') (hscope : scope.Alike same hidden' scope') :
    Twins t same c hidden' xs { s with scope := scope } { s' with scope := scope' } :=
  { h with scope := hscope }

/-- Both record an outcome of another call. -/
theorem recorded {x : Recorded} {r r' : Record} (h : Twins t same c hidden xs s s')
    (hr : r.outcomes = s.record.outcomes ++ [x]) (hr' : r'.outcomes = s'.record.outcomes ++ [x])
    (hx : x.element ≠ c.element) :
    Twins t same c hidden xs { s with record := r } { s' with record := r' } := by
  obtain ⟨before, after, hhere, hthere⟩ := h.outcomes
  refine { h with outcomes := ⟨before, after ++ [x], ?_, ?_⟩, others := fun {y} hy => ?_ }
  · rw [hr, hhere, List.append_assoc]
  · rw [hr', hthere, List.append_assoc]
  · rw [hr'] at hy
    rcases List.mem_append.mp hy with hy | hy
    · exact h.others hy
    · rw [List.mem_singleton.mp hy]
      exact hx

/-- A value is kept for another call than the one that went wrong. -/
theorem keeping {v : Value} (h : Twins t same c hidden xs s s') (ho : o.ApartFrom t c) :
    Twins t same c hidden xs { s with kept := (o.slot, v) :: s.kept }
    { s' with kept := (o.slot, v) :: s'.kept } := by
  refine { h with kept := ?_, empty := ?_ }
  · exact congrArg ((o.slot, v) :: ·) h.kept
  · show List.lookup c.slot ((o.slot, v) :: s.kept) = none
    rw [List.lookup_cons, beq_false_of_ne ho.slot.symm]
    exact h.empty

/-- A text is set at an element that is apart from that of the call. -/
theorem filled {text : String} (h : Twins t same c hidden xs s s') (ho : o.ApartFrom t c) :
    Twins t same c hidden xs { s with tree := s.tree.setText o.element text }
      { s' with tree := s'.tree.setText o.element text } := by
  refine { h with
    tree := h.tree.setText ho.outside (Nat.lt_of_lt_of_le ho.lt h.grown) text
    grown := ?_ }
  exact Nat.le_trans h.grown (Tree.sameContents_setText text).size_le

/-- Whether a node is marked. -/
theorem getD_marks {size : Nat} {ns : List NodeId} {n : NodeId} :
    (Run.marks size ns).getD n false = true ↔ n < size ∧ n ∈ ns := by
  unfold Run.marks
  by_cases hn : n < size
  · rw [Tree.getD_foldl_mark (by simpa using hn)]
    simp [hn]
  · have hsize := Tree.size_foldl_mark ns (Array.replicate size false)
    rw [Array.getD, dif_neg (by rw [hsize]; simpa using hn)]
    simp [hn]

/-- What nobody holds is let go on both sides, except at the element of the call. -/
theorem tidied (h : Twins t same c hidden xs s s') :
    Twins t same c hidden xs (Run.tidy.result s).2 (Run.tidy.result s').2 := by
  have hsize : s'.tree.nodes.size = s.tree.nodes.size := h.tree.agree.size
  refine { h with tree := h.tree.release fun n hn => ?_, grown := ?_ }
  · -- apart from the element of `c`, what is held is the same
    obtain ⟨before, after, hhere, hthere⟩ := h.outcomes
    have hown : n ∉ xs.map Recorded.element := by
      intro hmem
      obtain ⟨x, hx, rfl⟩ := List.mem_map.mp hmem
      exact hn (h.own hx)
    rw [Bool.eq_iff_iff, getD_marks, getD_marks, hsize, hhere, hthere]
    simp only [List.map_append, List.mem_append, h.held hn, hown, or_false]
  · exact Nat.le_trans h.grown Tree.sameContents_release.size_le

end Twins

/-! ## Parts of a run -/

/-- A listener that accepts every event, whatever was heard before. -/
def Listener.Accepts : Listener → Prop
  | .silent => True
  | .spy s => (∀ heard, s.objection heard = none) ∧ ∀ events, s.recollection events = none

/-- A spy that accepts everything objects to nothing. -/
theorem Listener.Accepts.objects {spy : Spy} (h : (Listener.spy spy).Accepts) {place : Nat}
    {s : RunState φ} :
    spy.objects place s = none := by
  unfold Spy.objects
  rw [h.1, h.2]
  rfl

/-- All listeners accept every event. -/
def Bus.Accepts (bus : Bus) : Prop := ∀ channel l, (channel, l) ∈ bus → l.Accepts

/-- What a nested run finds out does not depend on what happened before it. -/
def Surroundings.Oblivious (env : Surroundings) : Prop := ∀ name request w w',
  ((env.nested name request).run w').1 = ((env.nested name request).run w).1

namespace Run

variable {env : Surroundings} {s : RunState φ} {o : Occurrence} {p : Phase}

/-- On a bus of listeners that accept, each listener of a channel does. -/
theorem accepts_of_mem_on {bus : Bus} {channel : Channel} {place : Nat} {l : Listener}
    (h : bus.Accepts) (hl : (place, l) ∈ bus.on channel) : l.Accepts :=
  h channel l (Bus.mem_of_mem_on hl)

/-- A listener that accepts every event lets the run go on, unless it fails to change the document.
-/
theorem hear_accepted {place : Nat} {l : Listener} {e : Event} (hl : l.Accepts)
    (hleaves : e.channel = .parsing → l.LeavesTree) : ((hear place l e).result s).1 = .ok () := by
  cases l with
  | silent => rfl
  | spy spy => rw [result_hear hleaves, result_attend, hl.objects]

/-- A list is gone through to its end if each entry is. -/
theorem forM_ok {xs : List β} {g : β → Run φ PUnit}
    (h : ∀ x ∈ xs, ∀ s, ((g x).result s).1 = .ok ()) :
    ((xs.forM g).result s).1 = .ok () := by
  induction xs generalizing s with
  | nil => rfl
  | cons x xs ih =>
    have hx := yields_result (h x List.mem_cons_self s)
    unfold Yields at hx
    show ((g x >>= fun _ => xs.forM g).result s).1 = _
    rw [result_bind, hx]
    exact ih fun y hy => h y (List.mem_cons_of_mem x hy)

/-- Listeners that accept every event let the run go on. -/
theorem tell_accepted {e : Event} (hbus : env.bus.Accepts) (he : e.channel ≠ .parsing) :
    ∃ s₁, (tell env.bus e).result s = (.ok (), s₁) ∧ Undisturbed s s₁ := by
  have hanswer : ((tell env.bus e).result s).1 = .ok () :=
    forM_ok fun l hl _ => hear_accepted (accepts_of_mem_on hbus hl) fun hparsing =>
      absurd hparsing he
  have hafter : Overheard e s ((tell env.bus e).result s).2 := tell_overheard s
  exact ⟨_, Prod.ext hanswer rfl, hafter.tree.resolve_left he, hafter.scope, by rw [hafter.record],
    hafter.kept,
    hafter.held⟩

/-- The part leads from twins to twins, with the same answer in both. -/
abbrev Paired (t : Tree) (same : φ → φ → Prop) (c : Occurrence) (xs : List Recorded)
    (x : Run φ α) : Prop :=
  Parallel (Twins t same c elementVariables xs) (Twins t same c elementVariables xs) x

/-! ### Small parts -/

section Parts

variable {t : Tree} {same : φ → φ → Prop} {c : Occurrence} {xs : List Recorded}

/-- Both runs tell their listeners, who all accept. -/
theorem tell_paired {e : Event} (hbus : env.bus.Accepts) (he : e.channel ≠ .parsing) :
    Paired t same c xs (tell env.bus e) := by
  intro s s' h
  obtain ⟨s₁, hresult, hs₁⟩ := tell_accepted (s := s) hbus he
  obtain ⟨s₁', hresult', hs₁'⟩ := tell_accepted (s := s') hbus he
  rw [hresult, hresult']
  exact ⟨rfl, h.undisturbed hs₁ hs₁'⟩

theorem kept?_paired {slot : Nat} : Paired t same c xs (kept? slot) := by
  intro s s' h
  rw [result_kept?, result_kept?, h.kept]
  exact ⟨rfl, h⟩

/-- Both runs let go of what nobody holds. -/
theorem tidy_paired : Paired t same c xs tidy := fun _ _ h =>
  ⟨rfl, h.tidied⟩

/-- A nested run answers both alike, since it does not see what happened before it. -/
theorem ask_paired {name : String} {request : RunRequest} (hnested : env.Oblivious) :
    Paired t same c xs (ask env name request) := by
  intro s s' h
  rw [result_ask, result_ask, hnested name request s.world s'.world]
  exact ⟨rfl, h.undisturbed ⟨rfl, rfl, rfl, rfl, rfl⟩ ⟨rfl, rfl, rfl, rfl, rfl⟩⟩

variable (ho : o.ApartFrom t c)
include ho

/-- A value is kept in the slot of a call that is apart. -/
theorem keep_paired {v : Value} : Paired t same c xs (keep o.slot v) :=
  .modify fun h => h.keeping ho

theorem spot_paired : Paired t same c xs (spot o.element) :=
  .look fun h => by rw [h.tree.describe ho.outside]

/-- An outcome is recorded at an element that is apart. -/
theorem report_paired {x : Recorded} (hbus : env.bus.Accepts) (hx : x.element = o.element) :
    Paired t same c xs (report env x) := by
  refine .seq (.modify fun {s s'} h => ?_) fun _ => ?_
  · exact h.recorded (s.record.outcomes_add x) (s'.record.outcomes_add x) (hx ▸ ho.ne)
  · rw [hx]
    exact (spot_paired ho).seq fun _ => tell_paired hbus (x.event_not_parsing _)

/-- So is an exception. -/
theorem exception_paired {expression : String} {error : EvaluationError} (hbus : env.bus.Accepts) :
    Paired t same c xs (recordException env o.element expression error) :=
  report_paired (x := ⟨o.element, .exception expression error⟩) ho hbus rfl

/-- A comparison of two values, the result of which is reported. -/
theorem verdict_paired {q : Prop} [Decidable q] {expected actual : String}
    (hbus : env.bus.Accepts) :
    Paired t same c xs (if q then recordSuccess env o.element else
      recordFailure env o.element expected actual) := by
  split
  · exact report_paired (x := ⟨o.element, .success⟩) ho hbus rfl
  · exact report_paired (x := ⟨o.element, .failure expected actual⟩) ho hbus rfl

/-- The content of an element is replaced, and what nobody holds any more is let go. -/
theorem fill_paired {text : String} :
    Paired t same c xs (do change fun t => t.setText o.element text; tidy) :=
  .seq (.modify fun h => h.filled ho) fun _ => tidy_paired

/-- Binding the variables of the element brings the scopes back together. -/
theorem bindElement_paired :
    Parallel (Twins t same c elementVariables xs) (Twins t same c [] xs)
    (bindElement o.element) := by
  intro s s' h
  rw [result_bindElement, result_bindElement]
  exact ⟨rfl, h.bound ho⟩

variable [Fixture φ] (hsteady : Fixture.Steady same)
include hsteady

omit ho in
/-- An evaluation may leave the variables of the element different, and nothing else. -/
theorem evaluate_paired {source : String} :
    Parallel (Twins t same c [] xs) (Twins t same c elementVariables xs) (evaluate source) := by
  intro s s' h
  obtain ⟨hanswer, hscope⟩ : (s'.scope.evaluate source).1 = (s.scope.evaluate source).1 ∧ _ :=
    h.scope.evaluate hsteady
  rw [result_evaluate, result_evaluate, hanswer]
  exact ⟨rfl, (h.rescoped hscope).hide⟩

omit ho in
theorem assign_paired {source : String} {v : Value} :
    Parallel (Twins t same c [] xs) (Twins t same c elementVariables xs) (assign source v) := by
  intro s s' h
  obtain ⟨hanswer, hscope⟩ : (s'.scope.assign source v).1 = (s.scope.assign source v).1 ∧ _ :=
    h.scope.assign hsteady
  rw [result_assign, result_assign, hanswer]
  exact ⟨rfl, (h.rescoped hscope).hide⟩

/-- Evaluating for an element, and going on with the answer. -/
theorem evaluating_paired {source : String} {f : Except EvaluationError Value → Run φ β}
    (hf : ∀ answer, Paired t same c xs (f answer)) :
    Paired t same c xs (bindElement o.element >>= fun _ => evaluate source >>= f) :=
  (bindElement_paired ho).bind (fun _ => (evaluate_paired hsteady).bind hf id) Twins.hide

/-- An evaluation at an element has the same answer in both runs. -/
theorem evaluateAt_paired {source : String} (hbus : env.bus.Accepts) :
    Paired t same c xs (evaluateAt env o.element source) := by
  refine evaluating_paired ho hsteady fun answer => ?_
  cases answer with
  | ok v => exact .pure
  | error e => exact (exception_paired ho hbus).seq fun _ => .pure

/-! ### What each command does at its element -/

variable (hbus : env.bus.Accepts)
include hbus

/-- An assertion elsewhere finds the same value and the same text. -/
theorem assertEquals_paired : Paired t same c xs (assertEquals env o p) := by
  cases p with
  | setup => exact .pure
  | execute =>
    refine (evaluateAt_paired ho hsteady hbus).seq fun v? => ?_
    cases v? with
    | some v => exact keep_paired ho
    | none => exact .pure
  | verify =>
    refine kept?_paired.seq fun v? => ?_
    cases v? with
    | none => exact .pure
    | some v => exact .seq (.look fun h => h.tree.text ho.outside) fun _ => verdict_paired ho hbus

theorem assertBoolean_paired {expected : Bool} :
    Paired t same c xs (assertBoolean env expected o p) := by
  cases p with
  | setup => exact .pure
  | execute =>
    refine (evaluateAt_paired ho hsteady hbus).seq fun v? => ?_
    split
    · exact keep_paired ho
    · exact exception_paired ho hbus
    · exact .pure
  | verify =>
    refine kept?_paired.seq fun v? => ?_
    split
    · exact verdict_paired ho hbus
    · exact .pure

/-- An `echo` elsewhere leaves the same text. -/
theorem echo_paired : Paired t same c xs (echo env o p) := by
  cases p with
  | setup => exact .pure
  | execute =>
    refine evaluating_paired ho hsteady fun answer => ?_
    cases answer with
    | ok v => exact fill_paired ho
    | error e =>
      dsimp only
      split
      · exact fill_paired ho
      · exact exception_paired ho hbus
  | verify => exact .pure

theorem executeAt_paired : Paired t same c xs (executeAt env o o.element) := by
  have hdone :
      Paired t same c xs (do tell env.bus (.executeCompleted (← spot o.element) o.expression)) :=
    (spot_paired ho).seq fun _ => tell_paired hbus nofun
  refine (evaluateAt_paired ho hsteady hbus).seq fun v? => ?_
  cases v? with
  | some v => exact (keep_paired ho).seq fun _ => hdone
  | none => exact hdone

theorem setTarget_paired : Paired t same c xs (setTarget env o p) := by
  cases p with
  | setup => exact .pure
  | execute =>
    refine .seq (.look fun h => h.tree.text ho.outside) fun text => ?_
    refine (bindElement_paired ho).bind
      (fun _ => (assign_paired hsteady).bind (fun answer => ?_) id) Twins.hide
    cases answer with
    | ok _ => exact .pure
    | error e => exact exception_paired ho hbus
  | verify => exact .pure

omit [Fixture φ] hsteady in
/-- A nested run that is asked for elsewhere comes to the same verdict. -/
theorem runLinked_paired (hnested : env.Oblivious) : Paired t same c xs (runLinked env o p) := by
  cases p with
  | setup => exact .pure
  | execute =>
    refine .seq (.look fun h => h.tree.attribute? ho.outside "href") fun href? => ?_
    cases href? with
    | none => exact exception_paired ho hbus
    | some href =>
      dsimp only
      split
      · exact exception_paired ho hbus
      · rw [ask_bind fun _ => rfl]
        refine (ask_paired hnested).seq fun verdict => ?_
        split
        · exact keep_paired ho
        · exact .throw
        · exact exception_paired ho hbus
  | verify =>
    refine kept?_paired.seq fun v? => ?_
    split
    · refine .seq (.look fun h => h.tree.namespacedAttribute? ho.outside o.key.ns "expected")
        fun expected? => ?_
      dsimp only
      split
      · exact exception_paired ho hbus
      · exact verdict_paired ho hbus
    · exact .pure

/-- **The part of another call leads from twins to twins.** -/
theorem part_paired (hnested : env.Oblivious) (hbuiltIn : o.command.isBuiltIn = true)
    (hrows : o.command ≠ .verifyRows) : Paired t same c xs (part env o p) := by
  unfold part
  cases hc : o.command with
  | assertEquals => exact assertEquals_paired ho hsteady hbus
  | assertBoolean expected => exact assertBoolean_paired ho hsteady hbus
  | echo => exact echo_paired ho hsteady hbus
  | execute =>
    dsimp only
    split
    · exact executeAt_paired ho hsteady hbus
    · exact .pure
  | set => exact setTarget_paired ho hsteady hbus
  | run => exact runLinked_paired ho hbus hnested
  | verifyRows => exact absurd hc hrows
  | inert => rw [hc] at hbuiltIn; cases hbuiltIn
  | probe probe => rw [hc] at hbuiltIn; cases hbuiltIn

/-- **A call that is apart runs alike** in both runs, whatever phase it is in. -/
theorem stepAlone_paired (hnested : env.Oblivious) (hbuiltIn : o.command.isBuiltIn = true)
    (hrows : o.command ≠ .verifyRows) : Paired t same c xs (stepAlone env p o) := by
  rw [stepAlone_eq]
  have hpart : Paired t same c xs (part env o p) :=
    part_paired ho hsteady hbus hnested hbuiltIn hrows
  exact .seq (.modify fun h => h.undisturbed ⟨rfl, rfl, rfl, rfl, rfl⟩ ⟨rfl, rfl, rfl, rfl, rfl⟩)
    fun _ => hpart

end Parts

end Run
end LiveSpec
