import LiveSpec.Proofs.Isolation.Deletion
import LiveSpec.Proofs.Isolation.Oblivious
import LiveSpec.Proofs.Run.Prepared

/-!
# Errors of evaluation are isolated

An expression that has no value is an error of its call, and of no other.
`Engine.evaluation_errors_isolated` compares a run in which a call records such an error with the
run of the same graph without the call, from where the document is ready up to where outcomes are
painted: the other calls record the same outcomes in the same order, and variables, properties and
texts are the same in the end (`Isolated`).

This takes a fixture that calls do not change, listeners that accept every event, and nested runs of
the same kind, which then do not notice what the call did to the world around them.
-/

namespace LiveSpec

open Markup (NodeId Tree)

variable {φ : Type} [Fixture φ] {same : φ → φ → Prop} {t : Tree} {g : CallGraph} {c : Occurrence}
  {x : Recorded}

/-- A run in which the call `c` recorded the error `x`, and a run without that call: how they ended,
and in which states. The calls were found in the tree `t`. -/
structure Isolated (t : Tree) (c : Occurrence) (x : Recorded)
    (r r' : Except Error Unit × RunState φ) : Prop where
  answer : r'.1 = r.1
  own : (r.2.record.outcomes.filter fun y => y.element = c.element) = [x]
  others : r'.2.record.outcomes = r.2.record.outcomes.filter fun y => y.element ≠ c.element
  bindings {name : String} : name ∉ elementVariables →
    r'.2.scope.bindings.find? name = r.2.scope.bindings.find? name
  properties (name : String) :
    Fixture.property r'.2.scope.fixture name = Fixture.property r.2.scope.fixture name
  standing {n : NodeId} : r'.2.tree.Standing n ↔ r.2.tree.Standing n
  text {n : NodeId} : ¬ t.Under c.element n ∨ r.2.tree.Standing n →
    r'.2.tree.text n = r.2.tree.text n

/-- Twins that differ in one error are isolated. -/
theorem Twins.isolated {r r' : Except Error Unit × RunState φ} (hsteady : Fixture.Steady same)
    (hanswer : r'.1 = r.1) (h : Twins t same c elementVariables [x] r.2 r'.2) :
    Isolated t c x r r' := by
  obtain ⟨before, after, hhere, hthere⟩ := h.outcomes
  have hothers : ∀ y ∈ before ++ after, y.element ≠ c.element := fun y hy => h.others (hthere ▸ hy)
  have hown : x.element = c.element := h.own (List.mem_singleton.mpr rfl)
  have hbefore : ∀ y ∈ before, y.element ≠ c.element :=
    fun y hy => hothers y (List.mem_append_left _ hy)
  have hafter : ∀ y ∈ after, y.element ≠ c.element :=
    fun y hy => hothers y (List.mem_append_right _ hy)
  have hapart : ∀ {ys : List Recorded}, (∀ y ∈ ys, y.element ≠ c.element) →
      ys.filter (fun y => y.element = c.element) = [] ∧
      ys.filter (fun y => y.element ≠ c.element) = ys := fun hys =>
    ⟨List.filter_eq_nil_iff.mpr (by simpa using hys), List.filter_eq_self.mpr (by simpa using hys)⟩
  refine
    { answer := hanswer, own := ?_, others := ?_, bindings := h.scope.bindings,
      properties := hsteady.property h.scope.fixture, standing := h.tree.standing_iff,
      text := fun hn => h.tree.text_of_standing fun hunder =>
        hn.resolve_left (not_not_intro hunder) }
  · rw [hhere, List.filter_append, List.filter_append, (hapart hbefore).1, (hapart hafter).1]
    simp [hown]
  · rw [hhere, hthere, List.filter_append, List.filter_append, (hapart hbefore).2,
      (hapart hafter).2]
    simp [hown]

namespace Engine

open Run

variable {e : Engine φ} {set : ExtensionSet} {env : Surroundings} {s s' : RunState φ}

/-- Goes through the phases of a graph, the calls of which were just collected. -/
def enact (env : Surroundings) (g : CallGraph) : Run φ Unit := do
  Run.tell env.bus (.graphBuilt env.resource.path (← get).tree g)
  modify fun s => { s with held := g.walk.map Occurrence.element, nextSlot := g.size }
  Run.runGraph env g

omit [Fixture φ] in
/-- Paints what was found out, and writes the document. -/
def conclude (e : Engine φ) (set : ExtensionSet) (env : Surroundings) : Run φ Output := do
  let summary : Summary := ⟨env.resource, (← get).record⟩
  let diagnostics ← paint
  Run.tell env.bus (.documentBuilt env.resource.path)
  let t := (← get).tree
  return ⟨env.resource, t.html, summary, t, set.assets, diagnostics, e.config.freshWindowMs⟩

/-- Performing the calls of a document is going through the phases and then painting what was found
out. -/
theorem perform_eq :
    e.perform set env g = (enact env g >>= fun _ => e.conclude set env : Run φ Output) := by
  unfold perform enact conclude
  simp only [bind_assoc]

omit [Fixture φ] in
/-- Preparing a document leaves the scope as it was. -/
theorem prepare_scope (h : (e.prepare set env : Run φ Unit).Yields s () s') :
    s'.scope = s.scope := by
  obtain ⟨_, s₁, htell, hattempt⟩ := yields_bind.mp h
  obtain ⟨t, -, rfl⟩ := yields_attempt.mp hattempt
  have htold : Overheard _ s s₁ := tell_overheard.keeps htell
  exact htold.scope

omit [Fixture φ] in
/-- Before the phases begin, there is no difference between a run with a call and one without it. -/
theorem twins_enact {s₁ s₁' : RunState φ} (ht : s.tree.Coherent) (hchildless : g.Childless c)
    (hlisted : ∃ p, s.tree.Standing p ∧ c.element ∈ (s.tree.node p).children)
    (hsame : same s.scope.fixture s.scope.fixture) (houtcomes : s.record.outcomes = [])
    (hkept : s.kept = []) (hs₁ : Undisturbed s s₁) (hs₁' : Undisturbed s s₁') :
    Twins s.tree same c elementVariables []
      { s₁ with held := g.walk.map Occurrence.element, nextSlot := g.size }
      { s₁' with
        held := (g.without c).walk.map Occurrence.element
        nextSlot := (g.without c).size } := by
  obtain ⟨p, hp, hmem⟩ := hlisted
  have hself : Scope.Alike same elementVariables s.scope s.scope := ⟨hsame, fun _ => rfl⟩
  constructor
  · show Tree.Beside _ _ s₁.tree s₁'.tree
    rw [hs₁.tree, hs₁'.tree]
    exact .refl (ht.enclosed hp hmem)
  · show _ ≤ s₁.tree.nodes.size
    rw [hs₁.tree]
  · show Scope.Alike same elementVariables s₁.scope s₁'.scope
    rw [hs₁.scope, hs₁'.scope]
    exact hself
  · exact ⟨[], [], hs₁.outcomes.trans houtcomes, hs₁'.outcomes.trans houtcomes⟩
  · intro y hy
    have hy : y ∈ s₁'.record.outcomes := hy
    rw [hs₁'.outcomes, houtcomes] at hy
    cases hy
  · exact nofun
  · exact hs₁'.kept.trans hs₁.kept.symm
  · show s₁.kept.lookup c.slot = none
    rw [hs₁.kept, hkept]
    rfl
  · intro n hn
    show n ∈ (g.without c).walk.map Occurrence.element ↔ n ∈ g.walk.map Occurrence.element
    rw [CallGraph.walk_without hchildless, List.mem_map, List.mem_map]
    refine exists_congr fun o => and_congr_left fun ho => ?_
    have hoc : o ≠ c := fun heq => hn (heq ▸ ho.symm)
    simp [hoc]

/-- Once its calls are collected, a run tells so, and then goes through the phases. -/
theorem result_enact {s₁ : RunState φ}
    (htell : (Run.tell env.bus (.graphBuilt env.resource.path s.tree g)).result s = (.ok (), s₁)) :
    (enact env g).result s =
      (Run.runGraph env g).result
        { s₁ with held := g.walk.map Occurrence.element, nextSlot := g.size } := by
  unfold enact
  rw [result_bind_of (yields_get.mpr ⟨rfl, rfl⟩), result_bind_of htell,
    result_bind_of (yields_modify (u := ⟨⟩).mpr rfl)]

/-- **Errors of evaluation are isolated.** Take a document whose calls can be collected, all of them
of built-in commands that work on no rows, a fixture whose methods are functions of their arguments
and change nothing, and listeners that accept every event. Suppose that a call with no calls inside
it, other than a `run`, has an exception recorded because its expression could not be evaluated, or
nothing be assigned to it.

Deleting that call from the graph makes no difference to the others: up to where outcomes are
painted, the run without it gives the same answer, records the same outcomes at their elements and
in the same order, and leaves the same variables, the same properties, and the same texts in the
elements that do not belong to the deleted call or still stand. -/
theorem evaluation_errors_isolated {context : Context} {fixture : φ} {html : String}
    {resource : Resource} {world : World} (hsteady : Fixture.Steady same)
    (hsame : same fixture fixture) (haccepts : e.Accepts fixture) (hnested : e.AcceptsNested)
    (hset : ExtensionSet.of (e.extensions ++ Fixture.extensions fixture) = .ok set)
    (henv : env = e.surroundings set (e.answering e.processIn) context fixture resource)
    (hprepare : (e.prepare set env).Yields (start fixture html world) () s)
    (hgraph : CallGraph.ofTree s.tree set.registry = .ok g)
    (hcalls : ∀ o ∈ g.walk, o.Ordinary s.tree) (hc : c ∈ g.walk) (hchildless : g.Childless c)
    (hrun : c.command ≠ .run) (hx : c.Lacks x)
    (hmem : x ∈ ((enact env g).result s).2.record.outcomes) :
    (e.pipeline set env).result (start fixture html world) =
        (enact env g >>= fun _ => e.conclude set env).result s ∧
      Isolated s.tree c x ((enact env g).result s) ((enact env (g.without c)).result s) := by
  refine ⟨(result_pipeline hprepare hgraph).trans (congrArg (Run.result · s) perform_eq), ?_⟩
  have ht : s.tree.Coherent := prepare_coherent hprepare (Tree.parsed_read html).sound
  have hbus : env.bus.Accepts := henv ▸ haccepts set hset
  have hoblivious : env.Oblivious := henv ▸ surroundings_oblivious hnested
  obtain ⟨hrecord, hkept⟩ := prepare_enters hprepare
  have hfixture : same s.scope.fixture s.scope.fixture := by
    rw [prepare_scope hprepare]
    exact hsame
  have hremovable : g.Removable s.tree c :=
    CallGraph.removable_of_tree ht hgraph hcalls hc hchildless
  obtain ⟨root, hroot, hmirrors⟩ := CallGraph.graph_mirrors_document ht hgraph
  obtain ⟨s₁, htell, hs₁⟩ := tell_accepted (s := s) hbus
    (show (Event.graphBuilt env.resource.path s.tree g).channel ≠ .parsing from nofun)
  obtain ⟨s₁', htell', hs₁'⟩ := tell_accepted (s := s) hbus
    (show (Event.graphBuilt env.resource.path s.tree (g.without c)).channel ≠ .parsing from nofun)
  have htwins := twins_enact ht hchildless (hmirrors.listed ht hroot hc) hfixture
    (congrArg Record.outcomes hrecord) hkept hs₁ hs₁'
  rw [result_enact htell] at hmem ⊢
  rw [result_enact htell']
  obtain ⟨hanswer, hstates⟩ := runGraph_isolated hremovable hsteady hbus hoblivious hrun
    (by exact hs₁.tree) (by exact hs₁'.tree) htwins hx hmem
  exact hstates.isolated hsteady hanswer

end Engine

namespace Sample

/-- An engine whose runs are logged. -/
def logged : Engine StockFixture where
  config := { Config.standard with embedDefaultCss := false }
  extensions := [.logEvents]
  runners := []

theorem logged_accepts : logged.Accepts one := by
  intro set hset channel l hl
  have hsilent :
      (ExtensionSet.of (logged.extensions ++ Fixture.extensions one)).toOption.all fun set =>
      set.listeners.all fun entry => !entry.2.isSpy := by decide +kernel
  rw [hset] at hsilent
  have hspy : (!l.isSpy) = true := List.all_eq_true.mp hsilent _ hl
  cases l with
  | silent => trivial
  | spy spy => cases hspy

/-- A document that binds a variable, fails to bind it anew, and asserts what it is bound to. -/
def rebinding : String :=
  "<html xmlns:c=\"" ++ builtInNamespace ++
    "\"><p c:set=\"#x\">1</p><b c:execute=\"#x = gone()\">2</b>"
    ++ "<p c:assertEquals=\"#x\">1</p></html>"

/-- The call that fails. -/
def rebindingCall : Occurrence := ⟨1, 1, 6, .execute, ⟨builtInNamespace, "execute"⟩, "#x = gone()"⟩

/-- What is recorded of it. -/
def rebindingFault : Recorded := rebindingCall.excepted (.targetNotFound "#x = gone()" "gone")

/-- The surroundings of the run of that document. -/
def rebindingSurroundings (set : ExtensionSet) : Surroundings :=
  logged.surroundings set (logged.answering logged.processIn) .outermost one ⟨["rebinding"]⟩

/-- How the preparation of that document ends. -/
def rebindingReady (set : ExtensionSet) : Except Error Unit × RunState StockFixture :=
  (logged.prepare set (rebindingSurroundings set)).result (Engine.start one rebinding .empty)

/-- The calls are ordinary, and among them is the failing one with no calls inside it. The run of
them records the fault and a success. -/
structure FailsOnce (set : ExtensionSet) (s : RunState StockFixture) (g : CallGraph) : Prop where
  ordinary : ∀ o ∈ g.walk, o.Ordinary s.tree
  mem : rebindingCall ∈ g.walk
  childless : g.Childless rebindingCall
  outcomes : ((Engine.enact (rebindingSurroundings set) g).result s).2.record.outcomes =
    [rebindingFault, ⟨8, .success⟩]

/-- Checks a preparation, after which the calls are collected. -/
def failsOnce (set : ExtensionSet) : Except Error Unit × RunState StockFixture → Bool
  | (.error _, _) => false
  | (.ok _, s) =>
    match CallGraph.ofTree s.tree set.registry with
    | .error _ => false
    | .ok g => decide <|
      (∀ o ∈ g.walk, o.Ordinary s.tree) ∧ rebindingCall ∈ g.walk ∧
      (∀ l ∈ g.links, l.1 ≠ some rebindingCall) ∧
      ((Engine.enact (rebindingSurroundings set) g).result s).2.record.outcomes = [rebindingFault,
        ⟨8, .success⟩]

theorem exists_failing {set : ExtensionSet} {ready : Except Error Unit × RunState StockFixture}
    (h : failsOnce set ready = true) : ∃ s g, ready = (.ok (), s) ∧
      CallGraph.ofTree s.tree set.registry = .ok g ∧
      FailsOnce set s g := by
  obtain ⟨cause | ⟨⟩, s⟩ := ready
  · cases h
  · dsimp only [failsOnce] at h
    cases hgraph : CallGraph.ofTree s.tree set.registry with
    | error cause =>
      rw [hgraph] at h
      cases h
    | ok g =>
      rw [hgraph] at h
      obtain ⟨hordinary, hmem, hlinks, houtcomes⟩ := of_decide_eq_true h
      exact ⟨s, g, rfl, hgraph, hordinary, hmem, fun o ho => hlinks _ ho rfl, houtcomes⟩

end Sample

/-- The variable stays bound to what it was bound to, and the assertion about it passes with the
failing call as without it. -/
theorem Engine.evaluation_errors_isolated_rebinding :
    ∃ set s g, Sample.rebindingReady set = (.ok (), s) ∧
    Sample.FailsOnce set s g ∧
    Isolated s.tree Sample.rebindingCall Sample.rebindingFault
      ((Engine.enact (Sample.rebindingSurroundings set) g).result s)
      ((Engine.enact (Sample.rebindingSurroundings set)
        (g.without Sample.rebindingCall)).result s) := by
  have hset : (ExtensionSet.of Sample.logged.extensions).isOk = true := by decide +kernel
  have hfails : (ExtensionSet.of Sample.logged.extensions).toOption.all fun set =>
      Sample.failsOnce set (Sample.rebindingReady set) := by decide +kernel
  obtain ⟨set, hset⟩ := Except.exists_of_isOk hset
  rw [hset] at hfails
  obtain ⟨s, g, hready, hgraph, hfails⟩ := Sample.exists_failing hfails
  have hset : ExtensionSet.of (Sample.logged.extensions ++ Fixture.extensions Sample.one) =
      .ok set := hset
  have hisolated := Engine.evaluation_errors_isolated StockFixture.steady .data
    Sample.logged_accepts (fun _ _ _ _ h => by cases h)
    hset rfl hready hgraph hfails.ordinary hfails.mem hfails.childless (by decide) ⟨_, rfl, rfl⟩
    (hfails.outcomes ▸ List.mem_cons_self)
  exact ⟨set, s, g, hready, hfails, hisolated.2⟩

end LiveSpec
