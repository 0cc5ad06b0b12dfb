import LiveSpec.Proofs.Listening.Hearing
import LiveSpec.Proofs.Nesting.Levels

/-!
# The account of nested runs

`NestedRun` is a run that was asked for: what was asked, what it answered, and the runs nested in
it. For each run there are nested runs (`Accounted`) that stand one level below it
(`NestedRun.Stands`), whose requests are those that the log got, in the order in which they were
made (`NestedRun.requests`), and whose outputs are those that the world got, in the order in which
the runs were finished, those inside a run before it (`NestedRun.finished`).

A nested run that is ended by an error ends the asking run as well, so in a run that has an output
all of them have one.
-/

namespace LiveSpec

/-- A nested run that was asked for. -/
inductive NestedRun where
  /-- Its document was read, but it has no fixture. -/
  | unmade (runner : String) (request : RunRequest)
  | processed (runner : String) (request : RunRequest) (answer : Except Error Output)
    (inside : List NestedRun)

/-- A nested run that was processed, with the name of its runner and what it answered. -/
structure Finished where
  runner : String
  request : RunRequest
  answer : Except Error Output

namespace NestedRun

mutual
/-- The requests for a nested run and for those inside it, in the order in which they were made. -/
def requests : NestedRun → List RunRequest
  | .unmade _ request => [request]
  | .processed _ request _ inside => request :: requestsAll inside
/-- The requests for several nested runs and for those inside them, in the order in which they were
made. -/
def requestsAll : List NestedRun → List RunRequest
  | [] => []
  | r :: rs => requests r ++ requestsAll rs
end

mutual
/-- A nested run and those inside it, in the order in which they were finished. -/
def finished : NestedRun → List Finished
  | .unmade _ _ => []
  | .processed runner request answer inside => finishedAll inside ++ [⟨runner, request, answer⟩]
/-- Several nested runs and those inside them, in the order in which they were finished. -/
def finishedAll : List NestedRun → List Finished
  | [] => []
  | r :: rs => finished r ++ finishedAll rs
end

theorem requestsAll_append (rs rs' : List NestedRun) :
    requestsAll (rs ++ rs') = requestsAll rs ++ requestsAll rs' := by
  induction rs with
  | nil => rfl
  | cons r rs ih => rw [List.cons_append, requestsAll, requestsAll, ih, List.append_assoc]

theorem finishedAll_append (rs rs' : List NestedRun) :
    finishedAll (rs ++ rs') = finishedAll rs ++ finishedAll rs' := by
  induction rs with
  | nil => rfl
  | cons r rs ih => rw [List.cons_append, finishedAll, finishedAll, ih, List.append_assoc]

variable {φ : Type} [Fixture φ]

/-- Says that a run at a depth, over a fixture of a name, can have a run nested in it: its document
can be read, it is one level deeper and not too deep, and if there is a fixture for it, it is what
running the document comes to. -/
inductive Stands (e : Engine φ) : Nat → String → NestedRun → Prop
  | unmade {depth : Nat} {caller name html : String} {request : RunRequest} {runner : Runner φ}
    {error : RunnerError}
    (hcaller : request.caller = caller) (hdepth : request.depth = depth + 1)
    (hallowed : request.depth ≤ e.config.maxNestingDepth)
      (hrunner : e.runners.find? name = some runner)
    (hread : runner.read request.resource = .ok html)
      (hfixture : runner.fixture request = .error error) :
    Stands e depth caller (.unmade name request)
  | processed {depth : Nat} {caller name html : String} {request : RunRequest} {runner : Runner φ}
    {fixture : φ}
    {w : World} {inside : List NestedRun}
    (hcaller : request.caller = caller) (hdepth : request.depth = depth + 1)
    (hallowed : request.depth ≤ e.config.maxNestingDepth)
      (hrunner : e.runners.find? name = some runner)
    (hread : runner.read request.resource = .ok html)
      (hfixture : runner.fixture request = .ok fixture)
    (hinside : ∀ r ∈ inside, Stands e request.depth (Fixture.name fixture) r) :
    Stands e depth caller (.processed name request
      (e.processIn ⟨request.depth, some request.caller⟩ fixture html request.resource w).1 inside)

/-- Nested runs stand above the greatest depth. -/
theorem Stands.depth_lt {e : Engine φ} {depth : Nat} {caller : String} {r : NestedRun}
    (h : r.Stands e depth caller) :
    depth < e.config.maxNestingDepth := by
  cases h with
  | unmade _ hdepth hallowed | processed _ hdepth hallowed => omega

end NestedRun

open NestedRun (requestsAll finishedAll)

variable {φ : Type} [i : Fixture φ] {e : Engine φ} {depth : Nat} {caller : String}
  {w w' w'' : World} {rs rs' : List NestedRun}

/-- What some nested runs added to the world. -/
structure Accounted (w w' : World) (rs : List NestedRun) : Prop where
  requests : w'.requests = w.requests ++ requestsAll rs
  outputs : w'.outputs = w.outputs ++ (finishedAll rs).filterMap fun f => f.answer.toOption

namespace Accounted

theorem trans (h : Accounted w w' rs) (h' : Accounted w' w'' rs') :
    Accounted w w'' (rs ++ rs') where
  requests := by rw [h'.requests, h.requests, NestedRun.requestsAll_append, List.append_assoc]
  outputs := by rw [h'.outputs, h.outputs, NestedRun.finishedAll_append, List.filterMap_append,
    List.append_assoc]

end Accounted

/-- A way to get from a world to another one by nested runs of a run at a depth. If it went well, so
did they. -/
def Nests (e : Engine φ) (depth : Nat) (caller : String) (w w' : World) (good : Bool) : Prop :=
  ∃ rs : List NestedRun, (∀ r ∈ rs, r.Stands e depth caller) ∧ Accounted w w' rs ∧
    (good = true → ∀ f ∈ finishedAll rs, f.answer.isOk = true)

namespace Nests

/-- Nothing was asked for. -/
theorem none {good : Bool} (hrequests : w'.requests = w.requests)
    (houtputs : w'.outputs = w.outputs) :
    Nests e depth caller w w' good :=
  ⟨[], by simp, ⟨by simp [hrequests, requestsAll], by simp [houtputs, finishedAll]⟩, by
    simp [finishedAll]⟩

theorem trans {good : Bool} (h : Nests e depth caller w w' true)
    (h' : Nests e depth caller w' w'' good) :
    Nests e depth caller w w'' good := by
  obtain ⟨rs, hstands, haccounted, hgood⟩ := h
  obtain ⟨rs', hstands', haccounted', hgood'⟩ := h'
  refine ⟨rs ++ rs', ?_, haccounted.trans haccounted', ?_⟩
  · intro r hr
    exact (List.mem_append.mp hr).elim (hstands r) (hstands' r)
  · intro hg f hf
    rw [NestedRun.finishedAll_append] at hf
    exact (List.mem_append.mp hf).elim (hgood rfl f) (hgood' hg f)

end Nests

/-! ## The parts of a run -/

/-- The parts of a run that do nothing to the world but have runs nested in them. -/
def Nesting (e : Engine φ) (depth : Nat) (caller : String) (α : Type) (x y : Run φ α) : Prop :=
  y = x ∧ ∀ s, Nests e depth caller s.world (x.result s).2.world (x.result s).1.isOk

namespace Nesting

variable {α β : Type} {x : Run φ α}

theorem outside (h : Run.Always (fun s s' => s'.world.requests = s.world.requests ∧
    s'.world.outputs = s.world.outputs) x) :
    Nesting e depth caller α x x := ⟨rfl, fun s => .none (h s).1 (h s).2⟩

theorem bind {y : Run φ α} {f g : α → Run φ β} (hxy : Nesting e depth caller α x y)
    (hfg : ∀ a, Nesting e depth caller β (f a) (g a)) :
    Nesting e depth caller β (x >>= f) (y >>= g) := by
  obtain ⟨rfl, hx⟩ := hxy
  obtain rfl : g = f := funext fun a => (hfg a).1
  refine ⟨rfl, fun s => ?_⟩
  have hs := hx s
  rw [Run.result_bind]
  rcases hresult : Run.result y s with ⟨e | a, s₁⟩
  · rw [hresult] at hs
    exact hs
  · rw [hresult] at hs
    exact hs.trans ((hfg a).2 s₁)

theorem tell {bus : Bus} {event : Event} :
    Nesting e depth caller Unit (Run.tell bus event) (Run.tell bus event) := by
  refine outside (Run.tell_overheard.mono fun {s s'} h => ⟨?_, h.outputs⟩)
  obtain ⟨heard, hlog⟩ := h.log
  unfold World.requests
  rw [hlog, List.filterMap_append, List.filterMap_map]
  simp [Function.comp_def, LogEntry.requested?]

theorem log {entry : LogEntry} (h : entry.requested? = none) :
    Nesting e depth caller Unit (Run.log entry) (Run.log entry) := by
  refine outside (.modify fun s => ⟨?_, rfl⟩)
  unfold World.requests
  rw [List.filterMap_append]
  simp [h]

end Nesting

namespace Engine

variable {context : Context} {fixture : φ} {html : String} {resource : Resource}

/-- Says that a way of running documents at a depth accounts for the runs nested in them. -/
def Accounts (e : Engine φ) (depth : Nat) (process : Context → φ → String → Resource → World →
    Result φ) : Prop :=
  ∀ context fixture html resource w, context.depth = depth →
    let r := process context fixture html resource w
    Nests e depth (Fixture.name fixture) w r.2.2 r.1.isOk

/-- What is added to the world when a document was read for a request. -/
theorem requests_asked (w : World) (request : RunRequest) :
    World.requests { w with log := w.log ++ [.requested request] } = w.requests ++ [request] := by
  simp [World.requests, LogEntry.requested?]

/-- A nested run is accounted for after those inside it. -/
theorem delivered_nests {r : Result φ} {name : String} {request : RunRequest}
    (hstands : (NestedRun.processed name request r.1 rs).Stands e depth caller)
    (haccounted : Accounted { w with log := w.log ++ [.requested request] } r.2.2 rs)
    (hgood : r.1.isOk = true → ∀ f ∈ finishedAll rs, f.answer.isOk = true) :
    Nests e depth caller w (delivered r).2 (Run.relayed (delivered r).1).isOk := by
  refine ⟨[.processed name request r.1 rs], fun _ hr => List.mem_singleton.mp hr ▸ hstands, ?_⟩
  obtain ⟨result, fixture, w'⟩ := r
  obtain ⟨hrequests, houtputs⟩ := haccounted
  rw [requests_asked, List.append_assoc] at hrequests
  cases result with
  | error error =>
    refine ⟨⟨?_, ?_⟩, nofun⟩
    · show w'.requests = _
      simpa [requestsAll, NestedRun.requests] using hrequests
    · show w'.outputs = _
      simpa [finishedAll, NestedRun.finished, Except.toOption] using houtputs
  | ok output =>
    refine ⟨⟨?_, ?_⟩, fun _ f hf => ?_⟩
    · show w'.requests = _
      simpa [requestsAll, NestedRun.requests] using hrequests
    · have hbefore : w'.outputs = w.outputs ++ (finishedAll rs).filterMap fun f =>
        f.answer.toOption := houtputs
      show w'.outputs ++ [output] = _
      rw [hbefore]
      simp [finishedAll, NestedRun.finished, Except.toOption]
    · have hmem : f ∈ finishedAll rs ∨ f = ⟨name, request, .ok output⟩ := by
        simpa [finishedAll, NestedRun.finished] using hf
      rcases hmem with hmem | rfl
      · exact hgood rfl f hmem
      · rfl

/-- What a request that can be made comes to. -/
theorem answering_nests (h : e.Accounts (depth + 1) e.processIn) {name : String}
    {request : RunRequest} (hcaller : request.caller = caller) (hdepth : request.depth = depth + 1)
    (hallowed : request.depth ≤ e.config.maxNestingDepth) (w : World) :
    Nests e depth caller w ((e.answering e.processIn name request).run w).2
      (Run.relayed ((e.answering e.processIn name request).run w).1).isOk := by
  unfold answering
  cases hrunner : e.runners.find? name with
  | none => exact .none rfl rfl
  | some runner =>
    dsimp only
    rw [run_runRequest]
    cases hread : runner.read request.resource with
    | error error => exact .none rfl rfl
    | ok html =>
      cases hfixture : runner.fixture request with
      | error error =>
        refine ⟨[.unmade name request], ?_, ⟨requests_asked w request, ?_⟩, ?_⟩
        · intro r hr
          cases List.mem_singleton.mp hr
          exact .unmade hcaller hdepth hallowed hrunner hread hfixture
        · exact (List.append_nil _).symm
        · simp [finishedAll, NestedRun.finished]
      | ok fixture =>
        obtain ⟨rs, hinside, haccounted, hgood⟩ :=
          h ⟨request.depth, some request.caller⟩ fixture html request.resource
          { w with log := w.log ++ [.requested request] } hdepth
        rw [← hdepth] at hinside
        exact delivered_nests (.processed hcaller hdepth hallowed hrunner hread hfixture hinside)
          haccounted hgood

/-- All parts of a run are accounted for, if the requests that it can make are. -/
theorem nesting_lockstep {bus : Bus} {fixtureName : String} {nested : Nested}
    (h : ∀ name request, request.caller = fixtureName → request.depth = context.depth + 1 →
      request.depth ≤ e.config.maxNestingDepth → ∀ w, Nests e context.depth fixtureName w
        ((nested name request).run w).2 (Run.relayed ((nested name request).run w).1).isOk) :
    Lockstep i i ⟨bus, resource, fixtureName, context, e.config.maxNestingDepth, nested⟩
      ⟨bus, resource, fixtureName, context, e.config.maxNestingDepth, nested⟩
      (Nesting e context.depth fixtureName) where
  resource := rfl
  fixtureName := rfl
  context := rfl
  maxDepth := rfl
  name := rfl
  pure _ := .outside fun _ => ⟨rfl, rfl⟩
  bind := .bind
  throw _ := .outside fun _ => ⟨rfl, rfl⟩
  getting hxy _ _ := .bind (.outside fun _ => ⟨rfl, rfl⟩) hxy
  modify hf := .outside (.modify fun s => by
    rw [(hf s).1.world]
    exact ⟨rfl, rfl⟩)
  log _ := .log
  evaluate _ := .outside fun _ => ⟨rfl, rfl⟩
  assign _ _ := .outside fun _ => ⟨rfl, rfl⟩
  tell _ := .tell
  report x := .bind (.outside fun _ => ⟨rfl, rfl⟩) fun _ =>
    .bind (.outside fun _ => ⟨rfl, rfl⟩) fun _ => .tell
  ask name request hasks := by
    refine ⟨rfl, fun s => ?_⟩
    rw [Run.result_ask]
    exact h name request hasks.caller hasks.depth hasks.allowed s.world

/-- **Each run accounts for the runs nested in it.** -/
theorem processIn_accounts (e : Engine φ) (depth : Nat) : e.Accounts depth e.processIn := by
  -- the deeper a run lies, the fewer levels there are below it
  induction hlevels :
    e.config.maxNestingDepth - depth using Nat.strong_induction_on generalizing depth with
  | _ levels ih =>
    rintro context fixture html resource w rfl
    rw [processIn_eq, processUsing_eq]
    cases ExtensionSet.of (e.extensions ++ Fixture.extensions fixture) with
    | error error => exact .none rfl rfl
    | ok set =>
      have hlockstep :
          Lockstep i i (e.surroundings set (e.answering e.processIn) context fixture resource)
          (e.surroundings set (e.answering e.processIn) context fixture resource)
          (Nesting e context.depth (Fixture.name fixture)) :=
        nesting_lockstep fun name request hcaller hdepth hallowed w =>
          answering_nests (ih _ (by omega) (context.depth + 1) rfl) hcaller hdepth hallowed w
      have hpipeline := hlockstep.pipeline (e := e) (rfl : e.config = e.config)
        (rfl : set.registry = set.registry) rfl rfl
      exact hpipeline.2 (start fixture html w)

end Engine

end LiveSpec
