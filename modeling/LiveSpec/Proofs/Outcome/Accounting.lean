import LiveSpec.Proofs.Graph.Structure
import LiveSpec.Proofs.Listening.Agreement
import LiveSpec.Proofs.Outcome.Booking
import LiveSpec.Proofs.Phases.Order

/-!
# Every call is accounted for

The outcomes of a run over built-in commands that work on no rows are the outcomes of its calls:
exactly one for each assertion and each `run`, at most an exception for each other call, and none
beside these (`Engine.outcomes_accounted`). An assertion finds its value in one phase and judges it
in another, so the account of a call is kept over three passes. What carries it from one to the next
is the value that the call keeps, which no other call touches, since each has a slot of its own.

Such a run ends without an error unless a listener refuses an event or a nested run is aborted.
-/

namespace LiveSpec

open Markup (NodeId Tree)

/-- A call of a built-in command that works on no rows. -/
structure Occurrence.Ordinary (t : Tree) (o : Occurrence) : Prop where
  builtIn : o.command.isBuiltIn = true
  rowless : o.command ≠ .verifyRows
  offTable : o.command = .execute → t.isNamed o.element "table" = false

instance {t : Tree} {o : Occurrence} : Decidable (o.Ordinary t) :=
  decidable_of_iff (o.command.isBuiltIn = true ∧ o.command ≠ .verifyRows ∧
    (o.command = .execute → t.isNamed o.element "table" = false)) ⟨fun ⟨h, h', h''⟩ => ⟨h, h', h''⟩,
      fun h => ⟨h.builtIn, h.rowless, h.offTable⟩⟩

/-- The outcomes of a run, in whatever order, are those that its calls may record. -/
def CallGraph.Accounts (g : CallGraph) (xs : List Recorded) : Prop :=
  ∃ share : Occurrence → List Recorded, xs.Perm (g.walk.flatMap share) ∧
    ∀ o ∈ g.walk, o.Settles (share o)

theorem Occurrence.Ordinary.plain {t : Tree} {o : Occurrence} (h : o.Ordinary t)
    (ho : t.isElement o.element = true) :
    o.Plain t := by
  refine ⟨ho, ?_⟩
  have hbuiltIn := h.builtIn
  cases hc : o.command with
  | execute =>
    show (!t.isNamed o.element "table") = true
    rw [h.offTable hc]
    rfl
  | verifyRows => exact absurd hc h.rowless
  | probe p => rw [hc] at hbuiltIn; cases hbuiltIn
  | _ => rfl

variable {φ : Type} [Fixture φ] {env : Surroundings} {s s' s'' : RunState φ} {o : Occurrence}
  {os : List Occurrence} {p : Phase} {t : Tree}

/-- Between two states a pass came to each call of a list: `share` tells what it recorded. -/
structure Passed (p : Phase) (os : List Occurrence) (share : Occurrence → List Recorded)
    (s s' : RunState φ) : Prop where
  outcomes : s'.record.outcomes = s.record.outcomes ++ os.flatMap share
  does {o : Occurrence} : o ∈ os → o.Does p (s.kept.lookup o.slot) (share o) (s'.kept.lookup o.slot)
  apart {slot : Nat} : slot ∉ os.map Occurrence.slot → s'.kept.lookup slot = s.kept.lookup slot

omit [Fixture φ] in
/-- A call that comes first and has a slot of its own. -/
theorem Passed.cons {share : Occurrence → List Recorded} {xs : List Recorded}
    (ho : o.Acted p xs s s') (hos : Passed p os share s' s'')
    (hslot : o.slot ∉ os.map Occurrence.slot) :
    Passed p (o :: os) (Function.update share o xs) s s'' := by
  have hne : ∀ o' ∈ os, o' ≠ o := fun o' ho' heq => hslot (heq ▸ List.mem_map_of_mem ho')
  have hshare : os.flatMap (Function.update share o xs) = os.flatMap share :=
    List.flatMap_congr fun o' ho' => Function.update_of_ne (hne o' ho') xs share
  refine ⟨?_, fun {o'} ho' => ?_, fun {slot} hout => ?_⟩
  · rw [hos.outcomes, ho.outcomes, List.flatMap_cons, Function.update_self, hshare,
      List.append_assoc]
  · rcases List.mem_cons.mp ho' with rfl | ho'
    · rw [Function.update_self, hos.apart hslot]
      exact ho.does
    · rw [Function.update_of_ne (hne o' ho'),
        ← ho.apart fun h => hslot (h ▸ List.mem_map_of_mem ho')]
      exact hos.does ho'
  · rw [List.map_cons, List.mem_cons, not_or] at hout
    rw [hos.apart hout.2, ho.apart hout.1]

namespace Run

theorem stepAlone_acted (ho : o.Ordinary t) :
    Gives env s (stepAlone env p o) fun _ s' => ∃ xs, o.Acted p xs s s' := by
  rw [stepAlone_eq]
  let visited : RunState φ := { s with visits := s.visits ++ [(p, o)] }
  have hpart : Gives env visited (part env o p) fun _ s' => ∃ xs, o.Acted p xs visited s' :=
    part_acted ho.builtIn ho.rowless
  refine .after rfl (hpart.mono fun _ s' h => ?_)
  obtain ⟨xs, h⟩ := h
  exact ⟨xs, h.outcomes, h.does, h.apart⟩

/-- A pass over calls that have a slot each comes to all of them, unless it is halted. -/
theorem eachAlone_passed (hos : ∀ o ∈ os, o.Ordinary t) (hslots : (os.map Occurrence.slot).Nodup) :
    Gives env s (eachAlone env p os) fun _ s' => ∃ share, Passed p os share s s' := by
  induction os generalizing s with
  | nil => exact .pure ⟨fun _ => [], by simp, nofun, fun _ => rfl⟩
  | cons o os ih =>
    obtain ⟨hslot, hslots⟩ := List.nodup_cons.mp hslots
    refine .bind (stepAlone_acted (hos o List.mem_cons_self)) fun _ s₁ h => ?_
    obtain ⟨xs, ho⟩ := h
    refine (ih (fun o' ho' => hos o' (List.mem_cons_of_mem o ho')) hslots).mono fun _ s' h' => ?_
    obtain ⟨share, hrest⟩ := h'
    exact ⟨_, .cons ho hrest hslot⟩

omit [Fixture φ] in
/-- Three passes over the same calls settle the account of each, if nothing was kept before. -/
theorem accounts_of_passed {g : CallGraph} {s₁ s₂ s₃ : RunState φ}
    {share₁ share₂ share₃ : Occurrence → List Recorded}
    (hkept : ∀ o ∈ g.walk, s.kept.lookup o.slot = none)
    (hsetup : Passed .setup (Call.orderAll .setup g.roots) share₁ s s₁)
    (hexecute : Passed .execute (Call.orderAll .execute g.roots) share₂ s₁ s₂)
    (hverify : Passed .verify (Call.orderAll .verify g.roots) share₃ s₂ s₃) :
    ∃ xs, s₃.record.outcomes = s.record.outcomes ++ xs ∧ g.Accounts xs := by
  have hperm : ∀ p, (Call.orderAll p g.roots).Perm g.walk := fun p => Call.orderAll_perm p g.roots
  let entered (p : Phase) (share : Occurrence → List Recorded) :=
    (Call.orderAll p g.roots).flatMap share
  refine ⟨entered .setup share₁ ++ (entered .execute share₂ ++ entered .verify share₃), ?_,
    fun o => share₁ o ++ share₂ o ++ share₃ o, ?_, fun o ho => ?_⟩
  · rw [hverify.outcomes, hexecute.outcomes, hsetup.outcomes, List.append_assoc, List.append_assoc]
  · have hflat : ∀ p (share : Occurrence → List Recorded),
        ((Call.orderAll p g.roots).flatMap share).Perm (g.walk.flatMap share) :=
      fun p share => (hperm p).flatMap_right share
    have hsplit : (g.walk.flatMap share₁ ++ (g.walk.flatMap share₂ ++ g.walk.flatMap share₃)).Perm
        (g.walk.flatMap fun o => share₁ o ++ share₂ o ++ share₃ o) := by
      simp only [List.append_assoc]
      exact ((List.flatMap_append_perm _ _ _).append_left _).trans (List.flatMap_append_perm _ _ _)
    exact ((hflat .setup share₁).append
      ((hflat .execute share₂).append (hflat .verify share₃))).trans hsplit
  · have hone := hsetup.does ((hperm .setup).mem_iff.mpr ho)
    rw [hkept o ho] at hone
    exact hone.settles (hexecute.does ((hperm .execute).mem_iff.mpr ho))
      (hverify.does ((hperm .verify).mem_iff.mpr ho))

/-- A run over a graph whose calls have a slot each accounts for all of them, unless it is halted.
-/
theorem runGraph_accounts {g : CallGraph}
    (hg : ∀ o ∈ g.walk, o.Ordinary s.tree ∧ s.tree.isElement o.element = true)
    (hslots : (g.walk.map Occurrence.slot).Nodup) (hkept : s.kept = []) :
    Gives env s (runGraph env g) fun _ s' => ∃ xs, s'.record.outcomes = s.record.outcomes ++ xs ∧
      g.Accounts xs := by
  have hplain : ∀ o ∈ g.walk, o.Plain s.tree := fun o ho => (hg o ho).1.plain (hg o ho).2
  have hpass :
      ∀ p s₁, Gives env s₁ (eachAlone env p (Call.orderAll p g.roots) : Run φ Unit) fun _ s' =>
      ∃ share, Passed p (Call.orderAll p g.roots) share s₁ s' := by
    intro p s₁
    have hperm := Call.orderAll_perm p g.roots
    refine eachAlone_passed (t := s.tree) (fun o ho => (hg o (hperm.mem_iff.mp ho)).1) ?_
    exact (hperm.map Occurrence.slot).nodup_iff.mpr hslots
  rw [Gives.congr (runGraph_eq hplain), forM_schedule]
  refine .bind (hpass .setup s) fun _ s₁ h₁ => .bind (hpass .execute s₁) fun _ s₂ h₂ => ?_
  refine (hpass .verify s₂).mono fun _ s₃ h₃ => ?_
  obtain ⟨share₁, h₁⟩ := h₁
  obtain ⟨share₂, h₂⟩ := h₂
  obtain ⟨share₃, h₃⟩ := h₃
  exact accounts_of_passed (fun o _ => by rw [hkept]; rfl) h₁ h₂ h₃

end Run

namespace Engine

open Run

variable {e : Engine φ} {set : ExtensionSet} {g : CallGraph}

/-- What happens to a document before its calls are collected: it is shown to the listeners of
parsing, and its head is completed. -/
def prepare (e : Engine φ) (set : ExtensionSet) (env : Surroundings) : Run φ Unit := do
  Run.tell env.bus (.documentParsed env.resource.path)
  Run.attempt (installHead e.config.embedDefaultCss env.resource set.head)

/-- What happens once the calls are collected. -/
def perform (e : Engine φ) (set : ExtensionSet) (env : Surroundings) (g : CallGraph) :
    Run φ Output := do
  Run.tell env.bus (.graphBuilt env.resource.path (← get).tree g)
  modify fun s => { s with held := g.walk.map Occurrence.element, nextSlot := g.size }
  Run.runGraph env g
  let summary : Summary := ⟨env.resource, (← get).record⟩
  let diagnostics ← paint
  Run.tell env.bus (.documentBuilt env.resource.path)
  let t := (← get).tree
  return ⟨env.resource, t.html, summary, t, set.assets, diagnostics, e.config.freshWindowMs⟩

/-- A run prepares its document, and performs the calls if they can be collected. -/
theorem pipeline_eq : (e.pipeline set env : Run φ Output) = (do
    e.prepare set env
    let s ← get
    match CallGraph.ofTree s.tree set.registry with
    | .ok g => e.perform set env g
    | .error cause => throw cause) := by
  unfold pipeline prepare
  rw [bind_assoc]
  refine bind_congr fun _ => bind_congr fun _ => bind_congr fun s => ?_
  cases CallGraph.ofTree s.tree set.registry <;> rfl

/-- A run whose calls can be collected performs them. -/
theorem result_pipeline (hprepare : (e.prepare set env).Yields s () s')
    (hgraph : CallGraph.ofTree s'.tree set.registry = .ok g) :
    (e.pipeline set env).result s = (e.perform set env g).result s' := by
  rw [pipeline_eq, result_bind_of hprepare, result_bind_of (yields_get.mpr ⟨rfl, rfl⟩), hgraph]

theorem perform_accounts (hg : ∀ o ∈ g.walk, o.Ordinary s.tree ∧ s.tree.isElement o.element = true)
    (hslots : (g.walk.map Occurrence.slot).Nodup) (hkept : s.kept = []) :
    Gives env s (e.perform set env g) fun output _ =>
      ∃ xs, output.summary.record.outcomes = s.record.outcomes ++ xs ∧ g.Accounts xs := by
  have htold : ∀ (event : Event) (s : RunState φ), event.channel ≠ .parsing →
      Gives env s (Run.tell env.bus event) fun _ => Overheard event s :=
    fun _ _ hchannel => .tell hchannel fun _ h => h
  refine .after rfl (.bind (htold _ s nofun) fun _ s₁ h₁ => .after rfl ?_)
  have htree : s₁.tree = s.tree := h₁.tree.resolve_left nofun
  refine .bind (runGraph_accounts (fun o ho => ?_) hslots (h₁.kept.trans hkept)) fun _ s₂ h₂ =>
    .after rfl ?_
  · rw [show RunState.tree _ = s.tree from htree]
    exact hg o ho
  · refine .after rfl (.bind (htold _ _ nofun) fun _ s₃ h₃ => .after rfl (.pure ?_))
    obtain ⟨xs, houtcomes, haccounts⟩ := h₂
    refine ⟨xs, houtcomes.trans ?_, haccounts⟩
    rw [show s₁.record = s.record from h₁.record]

omit [Fixture φ] in
/-- Preparing a document finds out nothing. -/
theorem prepare_enters (h : (e.prepare set env : Run φ Unit).Yields s () s') :
    s'.record = s.record ∧ s'.kept = s.kept := by
  obtain ⟨_, s₁, htell, hattempt⟩ := yields_bind.mp h
  obtain ⟨t, -, rfl⟩ := yields_attempt.mp hattempt
  have htold : Overheard _ s s₁ := tell_overheard.keeps htell
  exact ⟨htold.record, htold.kept⟩

/-- **Every call is accounted for.** Take a document whose calls can be collected, all of them of
built-in commands that work on no rows, and any fixture. Its run ends without an error, and the
outcomes of its summary are those of its calls, exactly one for each assertion and each `run`,
nothing or an exception for each other call, each at the element of the call, and none beside these;
unless a listener refuses an event or a nested run is aborted, which then ends the run. -/
theorem outcomes_accounted {nested : Nested} {context : Context} {fixture : φ} {html : String}
    {resource : Resource} {world : World}
    (hset : ExtensionSet.of (e.extensions ++ Fixture.extensions fixture) = .ok set)
    (hprepare : (e.prepare set (e.surroundings set nested context fixture resource)).Yields
      (start fixture html world) () s)
    (hgraph : CallGraph.ofTree s.tree set.registry = .ok g)
    (hcalls : ∀ o ∈ g.walk, o.Ordinary s.tree) :
    (∃ output after,
      e.processUsing nested context fixture html resource world = (.ok output, after) ∧
      g.Accounts output.summary.record.outcomes) ∨
    ∃ cause s',
      (e.pipeline set (e.surroundings set nested context fixture resource)).result
        (start fixture html world) = (.error cause, s') ∧
      Halted (e.surroundings set nested context fixture resource) s' cause := by
  obtain ⟨hrecord, hkept⟩ := prepare_enters hprepare
  have hslots : (g.walk.map Occurrence.slot).Nodup :=
    CallGraph.slots_ofTree hgraph ▸ List.nodup_range
  have hgives : Gives (e.surroundings set nested context fixture resource) s
      (e.perform set (e.surroundings set nested context fixture resource) g) fun output _ =>
        ∃ xs, output.summary.record.outcomes = s.record.outcomes ++ xs ∧ g.Accounts xs :=
    perform_accounts (fun o ho => ⟨hcalls o ho, CallGraph.isElement_ofTree hgraph ho⟩) hslots hkept
  unfold Gives at hgives
  rw [← result_pipeline hprepare hgraph] at hgives
  rcases hresult : (e.pipeline set (e.surroundings set nested context fixture resource)).result
    (start fixture html world) with ⟨cause | output, s'⟩
  · rw [hresult] at hgives
    exact .inr ⟨cause, s', rfl, hgives⟩
  · rw [hresult] at hgives
    obtain ⟨xs, houtcomes, haccounts⟩ := hgives
    have hall : output.summary.record.outcomes = xs := by
      rw [houtcomes, hrecord]
      rfl
    refine .inl ⟨output, (s'.scope.fixture, s'.world), ?_, hall ▸ haccounts⟩
    rw [processUsing_eq, hset]
    simp only [hresult]

end Engine

namespace Sample

/-- A document with a binding, an assertion, and a link that nobody runs. -/
def varied : String :=
  "<html xmlns:c=\"" ++ builtInNamespace ++ "\"><p c:set=\"#x\">1</p><p c:assertEquals=\"#x\">1</p>"
    ++ "<a c:run=\"\" href=\"n\">2</a></html>"

/-- What was found out in the run of that document; nothing came of the binding. -/
def variedOutcomes : List Recorded := [⟨8, .exception "" (.targetNotFound "" "")⟩, ⟨6, .success⟩]

/-- The run of that document. -/
def variedRun : Engine.Result StockFixture :=
  attended.processUsing nobody .outermost one varied ⟨["varied"]⟩ .empty

/-- How the preparation of that document ends. -/
def variedReady (set : ExtensionSet) : Except Error Unit × RunState StockFixture :=
  (attended.prepare set (attended.surroundings set nobody .outermost one ⟨["varied"]⟩)).result
    (Engine.start one varied .empty)

/-- Says whether a preparation went well, after which some number of ordinary calls can be
collected. -/
def hasOrdinary (count : Nat) (registry : Registry) :
    Except Error Unit × RunState StockFixture → Bool
  | (.ok _, s) =>
    match CallGraph.ofTree s.tree registry with
    | .ok g => g.size == count && g.walk.all fun o => o.Ordinary s.tree
    | .error _ => false
  | (.error _, _) => false

theorem exists_ordinary {count : Nat} {registry : Registry}
    {ready : Except Error Unit × RunState StockFixture}
    (h : hasOrdinary count registry ready = true) : ∃ s g, ready = (.ok (), s) ∧
      CallGraph.ofTree s.tree registry = .ok g ∧ g.size = count ∧
      ∀ o ∈ g.walk, o.Ordinary s.tree := by
  obtain ⟨cause | ⟨⟩, s⟩ := ready
  · cases h
  · dsimp only [hasOrdinary] at h
    cases hgraph : CallGraph.ofTree s.tree registry with
    | error cause =>
      rw [hgraph] at h
      cases h
    | ok g =>
      rw [hgraph] at h
      obtain ⟨hsize, h⟩ := Bool.and_eq_true_iff.mp h
      exact ⟨s, g, rfl, hgraph, beq_iff_eq.mp hsize,
        fun o ho => of_decide_eq_true (List.all_eq_true.mp h o ho)⟩

end Sample

/-- The two outcomes of that run are those of its three calls. -/
theorem Engine.outcomes_accounted_varied :
    ∃ output after g, Sample.variedRun = (.ok output, after) ∧
    output.summary.record.outcomes = Sample.variedOutcomes ∧ CallGraph.size g = 3 ∧
    g.Accounts Sample.variedOutcomes := by
  have houtcomes : (Sample.variedRun.1.map fun o => o.summary.record.outcomes).toOption =
      some Sample.variedOutcomes := by decide +kernel
  have hset : (ExtensionSet.of Sample.attended.extensions).isOk = true := by decide +kernel
  have hordinary : (ExtensionSet.of Sample.attended.extensions).toOption.all fun set =>
      Sample.hasOrdinary 3 set.registry (Sample.variedReady set) := by decide +kernel
  obtain ⟨set, hset⟩ := Except.exists_of_isOk hset
  rw [hset] at hordinary
  obtain ⟨s, g, hready, hgraph, hsize, hcalls⟩ := Sample.exists_ordinary hordinary
  unfold Sample.variedReady at hready
  have hset : ExtensionSet.of (Sample.attended.extensions ++ Fixture.extensions Sample.one) =
      .ok set := hset
  rcases Engine.outcomes_accounted hset hready hgraph hcalls with
    ⟨output, after, hrun, haccounts⟩ | ⟨cause, s', hresult, -⟩
  · have hrun : Sample.variedRun = (.ok output, after) := hrun
    rw [hrun] at houtcomes
    have houtcomes : output.summary.record.outcomes = Sample.variedOutcomes :=
      Option.some.inj houtcomes
    exact ⟨output, after, g, hrun, houtcomes, hsize, houtcomes ▸ haccounts⟩
  · -- the run of the sample is not halted
    have hrun : Sample.variedRun.1 = .error cause := by
      unfold Sample.variedRun
      rw [Engine.processUsing_eq, hset]
      exact congrArg Prod.fst hresult
    rw [hrun] at houtcomes
    cases houtcomes

end LiveSpec
