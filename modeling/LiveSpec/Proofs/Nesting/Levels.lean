import LiveSpec.Proofs.Run.Lockstep

/-!
# Nested runs end

A document can ask for a run of a document that asks for a run of the first one again. Nothing in
the documents stops this, only the depth does: a run makes requests for one level below its own, and
none for a level below the greatest (`Surroundings.Asks`). So what would happen below the greatest
level never matters.

`Engine.cutOff` runs documents to a number of levels and has any answer at all in the place of what
lies deeper. As soon as the number of levels reaches down to the greatest depth, the result is the
same for all such answers (`Engine.cutOff_eq`), and running documents satisfies the equation of a
recursion without a bound (`Engine.processIn_eq`).
-/

namespace LiveSpec

variable {φ : Type} [i : Fixture φ]

/-- Two runs of the same document in which the requests that it can make are answered alike go
alike. -/
theorem same_lockstep {bus : Bus} {resource : Resource} {fixtureName : String} {context : Context}
    {maxDepth : Nat} {nested nested' : Engine.Nested}
    (h : ∀ name request, request.depth = context.depth + 1 → request.depth ≤ maxDepth →
      nested' name request = nested name request) :
    Lockstep i i ⟨bus, resource, fixtureName, context, maxDepth, nested⟩
      ⟨bus, resource, fixtureName, context, maxDepth, nested'⟩ fun α (x y : Run φ α) => y = x where
  resource := rfl
  fixtureName := rfl
  context := rfl
  maxDepth := rfl
  name := rfl
  pure _ := rfl
  bind {_ _ x y f g} hxy hfg := by
    obtain rfl : g = f := funext hfg
    rw [hxy]
  throw _ := rfl
  getting hxy _ _ := bind_congr hxy
  modify _ := rfl
  log _ _ := rfl
  evaluate _ := rfl
  assign _ _ := rfl
  tell _ := rfl
  report _ := rfl
  ask name request hasks := by
    apply Run.ext
    intro s
    rw [Run.result_ask, Run.result_ask]
    dsimp only
    rw [h name request hasks.depth hasks.allowed]

namespace Engine

variable {e : Engine φ} {context : Context}

/-- Nested runs as an engine runs them, given how it runs documents. -/
def answering (e : Engine φ) (process : Context → φ → String → Resource → World →
    Result φ) : Nested :=
  fun name request =>
    match e.runners.find? name with
    | none => return .error (.unknownRunner name)
    | some runner => runRequest runner process request

/-- Runs a document with some levels of nested runs below it, and has `stop` answer what lies
deeper. -/
def cutOff (e : Engine φ) (stop : Nested) : Nat → Context → φ → String → Resource → World → Result φ
  | 0 => processUsing e stop
  | levels + 1 => processUsing e (e.answering (cutOff e stop levels))

theorem processUsing_congr {nested nested' : Nested}
    (h : ∀ name request, request.depth = context.depth + 1 →
      request.depth ≤ e.config.maxNestingDepth →
      nested' name request = nested name request) :
    e.processUsing nested' context = e.processUsing nested context := by
  funext fixture html resource w
  rw [processUsing_eq, processUsing_eq]
  cases ExtensionSet.of (e.extensions ++ Fixture.extensions fixture) with
  | error error => rfl
  | ok set =>
    have hpipeline : e.pipeline set (e.surroundings set nested' context fixture resource) =
        e.pipeline set (e.surroundings set nested context fixture resource) :=
      (same_lockstep h).pipeline rfl rfl rfl rfl
    dsimp only
    rw [hpipeline]

omit i in
/-- A request is answered by running its document one level deeper. -/
theorem answering_congr {process process' : Context → φ → String → Resource → World → Result φ}
    {name : String} {request : RunRequest}
    (h : process' ⟨request.depth, some request.caller⟩ = process ⟨request.depth,
      some request.caller⟩) :
    e.answering process' name request = e.answering process name request := by
  unfold answering
  cases e.runners.find? name with
  | none => rfl
  | some runner =>
    dsimp only
    unfold runRequest
    rw [h]

/-- A run at the greatest depth makes no requests. -/
theorem processUsing_of_le {nested nested' : Nested}
    (h : e.config.maxNestingDepth ≤ context.depth) :
    e.processUsing nested' context = e.processUsing nested context :=
  processUsing_congr fun name request hdepth hallowed => by omega

/-- **Running documents is a recursion without a bound.** -/
theorem processIn_eq (context : Context) :
    e.processIn context = e.processUsing (e.answering e.processIn) context := by
  unfold processIn
  cases hlevels : e.config.maxNestingDepth - context.depth with
  | zero => exact processUsing_of_le (by omega)
  | succ levels =>
    refine processUsing_congr fun name request hdepth hallowed => ?_
    show e.answering (processWithin e levels) name request = _
    have hbelow : e.config.maxNestingDepth - request.depth = levels := by omega
    apply answering_congr
    funext fixture html resource w
    rw [hbelow]

/-- **What lies below the greatest depth does not matter.** -/
theorem cutOff_eq (stop : Nested) (levels : Nat) (context : Context)
    (h : e.config.maxNestingDepth - context.depth ≤ levels) :
    e.cutOff stop levels context = e.processIn context := by
  induction levels generalizing context with
  | zero =>
    rw [processIn_eq]
    exact processUsing_of_le (by omega)
  | succ levels ih =>
    rw [processIn_eq]
    refine processUsing_congr fun name request hdepth hallowed => ?_
    apply answering_congr
    apply ih
    show e.config.maxNestingDepth - request.depth ≤ levels
    omega

end Engine
end LiveSpec
