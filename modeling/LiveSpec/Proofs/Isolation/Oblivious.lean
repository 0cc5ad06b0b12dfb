import LiveSpec.Proofs.Isolation.Twins
import LiveSpec.Proofs.Nesting.Levels

/-!
# What happened before a nested run

A nested run goes on in the world that the runs before it left: the log of all that was watched, and
the outputs of other nested runs. It adds to these, and only listeners look at them. Where no
listener refuses an event, a nested run finds out the same whatever happened before
(`Engine.surroundings_oblivious`). Each part of a run is `Insular` in this sense, which goes from
part to part as other relations do, and from the deepest runs to those above them.
-/

namespace LiveSpec

variable {φ α β : Type}

namespace Run

/-- Amid another world the part does the same, except for what it does to the world and to what
listeners heard. -/
def Insular (x : Run φ α) : Prop := ∀ s w heard, ∃ w' heard',
  x.result (s.amid w heard) = ((x.result s).1, (x.result s).2.amid w' heard')

namespace Insular

variable {x : Run φ α} {f : α → Run φ β} {env : Surroundings}

theorem pure {a : α} : Insular (pure a : Run φ α) := fun _ w heard => ⟨w, heard, rfl⟩

theorem throw {e : Error} : Insular (throw e : Run φ α) := fun _ w heard => ⟨w, heard, rfl⟩

theorem bind (hx : Insular x) (hf : ∀ a, Insular (f a)) : Insular (x >>= f) := by
  intro s w heard
  obtain ⟨w₁, heard₁, h⟩ := hx s w heard
  rw [result_bind, result_bind, h]
  rcases x.result s with ⟨e | a, s₁⟩
  · exact ⟨w₁, heard₁, rfl⟩
  · exact hf a s₁ w₁ heard₁

/-- The part looks at something that has nothing to do with the world. -/
theorem getting {x : RunState φ → Run φ α} (h : ∀ s, Insular (x s))
    (hx : ∀ s w heard, x (s.amid w heard) = x s) :
    Insular (get >>= x) := by
  intro s w heard
  show ∃ w' heard', (x (s.amid w heard)).result (s.amid w heard) = _
  rw [hx]
  exact h s s w heard

theorem modify {g : RunState φ → RunState φ}
    (h : ∀ s w heard, ∃ w' heard', g (s.amid w heard) = (g s).amid w' heard') :
    Insular (modify g : Run φ PUnit) := by
  intro s w heard
  obtain ⟨w', heard', hg⟩ := h s w heard
  exact ⟨w', heard', congrArg (Prod.mk _) hg⟩

theorem forM {xs : List β} {g : β → Run φ PUnit} (h : ∀ x ∈ xs, Insular (g x)) :
    Insular (xs.forM g) := by
  induction xs with
  | nil => exact pure
  | cons x xs ih =>
    exact (h x List.mem_cons_self).bind fun _ => ih fun y hy => h y (List.mem_cons_of_mem x hy)

/-- A spy that accepts every event takes note of it. -/
theorem hear {place : Nat} {l : Listener} {e : Event} (hl : l.Accepts) :
    Insular (hear place l e : Run φ Unit) := by
  cases l with
  | silent => exact pure
  | spy spy =>
    have hreshape : Insular (reshape spy e : Run φ Unit) := by
      unfold reshape
      split
      · refine getting (fun s => ?_) fun _ _ _ => rfl
        split
        · exact modify fun _ w heard => ⟨w, heard, rfl⟩
        · exact throw
      · exact pure
    have hattend : Insular (attend place spy e : Run φ Unit) := by
      intro s w heard
      rw [result_attend, result_attend, hl.objects, hl.objects]
      exact ⟨_, _, rfl⟩
    rw [hear_spy]
    exact hreshape.bind fun _ => hattend

theorem tell {e : Event} (hbus : env.bus.Accepts) : Insular (tell env.bus e : Run φ Unit) :=
  .forM fun _ hl => hear (accepts_of_mem_on hbus hl)

theorem report {x : Recorded} (hbus : env.bus.Accepts) : Insular (report env x : Run φ Unit) := by
  refine .bind (.modify fun _ w heard => ⟨w, heard, rfl⟩) fun _ => .bind ?_ fun _ => tell hbus
  exact .getting (fun _ => pure) fun _ _ _ => rfl

theorem ask {name : String} {request : RunRequest}
    (h : ∀ w w', ((env.nested name request).run w').1 = ((env.nested name request).run w).1) :
    Insular (ask env name request : Run φ _) := by
  intro s w heard
  rw [result_ask, result_ask]
  exact ⟨_, _, congrArg (fun answer => (relayed answer, _)) (h s.world w)⟩

end Insular

/-- Every part of a run is insular, if the nested runs that it can ask for are. -/
theorem insular_lockstep [i : Fixture φ] {env : Surroundings} (hbus : env.bus.Accepts)
    (hnested : ∀ name request, env.Asks request →
      ∀ w w', ((env.nested name request).run w').1 = ((env.nested name request).run w).1) :
    Lockstep i i env env fun α (x _ : Run φ α) => Insular x where
  resource := rfl
  fixtureName := rfl
  context := rfl
  maxDepth := rfl
  name := rfl
  pure _ := .pure
  bind hx hf := .bind hx hf
  throw _ := .throw
  getting hx hown _ := .getting hx hown
  modify hf := .modify fun s w heard => ⟨w, heard, (hf s).2 w heard⟩
  log _ _ := .modify fun _ _ _ => ⟨_, _, rfl⟩
  evaluate _ := fun _ w heard => ⟨w, heard, rfl⟩
  assign _ _ := fun _ w heard => ⟨w, heard, rfl⟩
  tell _ := .tell hbus
  report _ := .report hbus
  ask name request hasks := .ask (hnested name request hasks)

end Run

namespace Engine

variable [i : Fixture φ] {e : Engine φ}

/-- No listener of an engine refuses an event in a run that starts with a fixture. -/
def Accepts (e : Engine φ) (fixture : φ) : Prop :=
  ∀ set, ExtensionSet.of (e.extensions ++ Fixture.extensions fixture) = .ok set →
    set.listeners.Accepts

/-- No listener refuses an event in a nested run. -/
def AcceptsNested (e : Engine φ) : Prop :=
  ∀ name runner request fixture, e.runners.find? name = some runner →
  runner.fixture request = .ok fixture → e.Accepts fixture

omit i in
/-- A run that ended delivers the same in any world. -/
theorem delivered_insular {r r' : Result φ} (h : r'.1 = r.1) :
    (delivered r').1 = (delivered r).1 := by
  unfold delivered
  rw [h]
  cases r.1 with
  | error error => rfl
  | ok output => rfl

theorem answering_insular {process : Context → φ → String → Resource → World → Result φ}
    {name : String} {request : RunRequest} (he : e.AcceptsNested)
    (h : ∀ context fixture html resource w w', e.Accepts fixture → context.depth = request.depth →
      (process context fixture html resource w').1 = (process context fixture html resource w).1)
        (w w' : World) :
    ((e.answering process name request).run w').1 =
    ((e.answering process name request).run w).1 := by
  unfold answering
  cases hrunner : e.runners.find? name with
  | none => rfl
  | some runner =>
    dsimp only
    rw [run_runRequest, run_runRequest]
    cases runner.read request.resource with
    | error error => rfl
    | ok html =>
      cases hfixture : runner.fixture request with
      | error error => rfl
      | ok fixture =>
        exact delivered_insular (h _ fixture html request.resource _ _
          (he name runner request fixture hrunner hfixture) rfl)

/-- **What a run finds out does not depend on what happened before it.** -/
theorem processIn_insular (he : e.AcceptsNested) (context : Context) (fixture : φ) (html : String)
    (resource : Resource) (w w' : World) (hfixture : e.Accepts fixture) :
    (e.processIn context fixture html resource w').1 =
    (e.processIn context fixture html resource w).1 := by
  -- the deeper a run lies, the fewer levels there are below it
  induction hlevels :
    e.config.maxNestingDepth - context.depth using Nat.strong_induction_on generalizing
    context fixture html resource w w' with
  | _ levels ih =>
    rw [processIn_eq, processUsing_eq, processUsing_eq]
    cases hset : ExtensionSet.of (e.extensions ++ Fixture.extensions fixture) with
    | error error => rfl
    | ok set =>
      let env := e.surroundings set (e.answering e.processIn) context fixture resource
      have hlockstep : Lockstep i i env env fun α (x _ : Run φ α) => Run.Insular x := by
        refine Run.insular_lockstep (hfixture set hset) fun name request hasks =>
          answering_insular he ?_
        intro context' fixture' html' resource' w₁ w₁' hfixture' hdepth
        have hbelow : request.depth = context.depth + 1 := hasks.depth
        have hallowed : request.depth ≤ e.config.maxNestingDepth := hasks.allowed
        exact ih _ (by omega) context' fixture' html' resource' w₁ w₁' hfixture' rfl
      have hpipeline := hlockstep.pipeline (e := e) (rfl : e.config = e.config)
        (rfl : set.registry = set.registry) rfl rfl
      obtain ⟨w₂, heard₂, hresult⟩ := hpipeline (start fixture html w) w' []
      have hstart : (start fixture html w).amid w' [] = start fixture html w' := rfl
      rw [hstart] at hresult
      dsimp only
      rw [hresult]

/-- Nested runs do not depend on what happened before them. -/
theorem surroundings_oblivious (he : e.AcceptsNested) {set : ExtensionSet} {context : Context}
    {fixture : φ} {resource : Resource} :
    (e.surroundings set (e.answering e.processIn) context fixture resource).Oblivious :=
  fun _ _ => answering_insular he fun context fixture html resource w w' hfixture _ =>
    processIn_insular he context fixture html resource w w' hfixture

end Engine
end LiveSpec
