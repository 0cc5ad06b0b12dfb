import LiveSpec.Proofs.Resource.Canonical
import LiveSpec.Proofs.Run.Inert

/-!
# What nested runs put out

A nested run is asked for by a link, so its document has the canonical resource that the link leads
to. Where neither the engine nor a fixture brings extensions along, no files go with the documents:
all outputs are then alone (`Output.IsAlone`), those of nested runs at whatever depth included
(`Engine.processIn_alone`).
-/

namespace LiveSpec

/-- An output under a canonical resource, with which no other files go. -/
structure Output.IsAlone (o : Output) : Prop where
  canonical : o.resource.Canonical
  assets : o.assets = []

/-- A world in which all outputs of nested runs are alone. -/
def World.IsAlone (w : World) : Prop := ∀ o ∈ w.outputs, o.IsAlone

variable {φ : Type}

/-- States of a run that goes on to have only outputs that are alone. -/
def RunState.StaysAlone (s s' : RunState φ) : Prop := s.world.IsAlone → s'.world.IsAlone

instance : IsPreorder (RunState φ) RunState.StaysAlone where
  refl _ := id
  trans _ _ _ h h' := h' ∘ h

open RunState (StaysAlone)

/-- The parts of a run that add only outputs that are alone. -/
def AddsAlone (α : Type) (x y : Run φ α) : Prop := y = x ∧ Run.Always StaysAlone x

theorem Run.Always.of_outputs {α : Type} {x : Run φ α}
    (h : Run.Always (fun s s' => s'.world.outputs = s.world.outputs) x) :
    Run.Always StaysAlone x := h.mono fun heq halone o ho => halone o (heq ▸ ho)

theorem AddsAlone.bind {α β : Type} {x y : Run φ α} {f g : α → Run φ β} (hxy : AddsAlone α x y)
    (hfg : ∀ a, AddsAlone β (f a) (g a)) : AddsAlone β (x >>= f) (y >>= g) := by
  obtain ⟨rfl, hx⟩ := hxy
  obtain rfl : g = f := funext fun a => (hfg a).1
  exact ⟨rfl, .bind hx fun a => (hfg a).2⟩

variable [i : Fixture φ] {e : Engine φ} {set : ExtensionSet} {env : Surroundings}
  {context : Context} {fixture : φ} {html : String} {resource : Resource} {w : World}
  {s s' : RunState φ} {output : Output}

theorem alone_lockstep {bus : Bus} {fixtureName : String} {maxDepth : Nat} {nested : Engine.Nested}
    (h : ∀ name request, request.depth = context.depth + 1 → request.depth ≤ maxDepth →
      (∃ link, request.resource = resource.resolve link) → ∀ w, w.IsAlone →
        ((nested name request).run w).2.IsAlone) :
    Lockstep i i ⟨bus, resource, fixtureName, context, maxDepth, nested⟩
      ⟨bus, resource, fixtureName, context, maxDepth, nested⟩ (AddsAlone (φ := φ)) where
  resource := rfl
  fixtureName := rfl
  context := rfl
  maxDepth := rfl
  name := rfl
  pure _ := ⟨rfl, .pure⟩
  bind := .bind
  throw _ := ⟨rfl, .throw⟩
  getting hxy _ _ := .bind ⟨rfl, .get⟩ hxy
  modify hf := ⟨rfl, .of_outputs (.modify fun s => by rw [(hf s).1.world])⟩
  log _ _ := ⟨rfl, .of_outputs (.modify fun _ => rfl)⟩
  evaluate _ := ⟨rfl, .of_outputs fun _ => rfl⟩
  assign _ _ := ⟨rfl, .of_outputs fun _ => rfl⟩
  tell _ := ⟨rfl, .of_outputs (Run.tell_overheard.mono fun h => h.outputs)⟩
  report _ := .bind ⟨rfl, .of_outputs (.modify fun _ => rfl)⟩ fun _ => .bind ⟨rfl, .get⟩ fun _ =>
    ⟨rfl, .of_outputs (Run.tell_overheard.mono fun h => h.outputs)⟩
  ask name request hasks := by
    refine ⟨rfl, fun s halone => ?_⟩
    rw [Run.result_ask]
    exact h name request hasks.depth hasks.allowed hasks.linked s.world halone

namespace Engine

open Run

/-- What a run that ends well puts out. -/
theorem pipeline_output (h : (e.pipeline set env : Run φ Output).Yields s output s') :
    output.resource = env.resource ∧ output.assets = set.assets := by
  obtain ⟨s₁, g, -, -, hperform⟩ := pipeline_spec h
  obtain ⟨_, _, -, h₁⟩ := yields_bind.mp hperform
  obtain ⟨_, _, -, h₂⟩ := yields_bind.mp h₁
  obtain ⟨_, _, -, h₃⟩ := yields_bind.mp h₂
  obtain ⟨_, _, -, h₄⟩ := yields_bind.mp h₃
  obtain ⟨_, _, -, h₅⟩ := yields_bind.mp h₄
  obtain ⟨_, _, -, h₆⟩ := yields_bind.mp h₅
  obtain ⟨_, _, -, h₇⟩ := yields_bind.mp h₆
  obtain ⟨_, _, -, hpure⟩ := yields_bind.mp h₇
  obtain ⟨rfl, -⟩ := yields_pure.mp hpure
  exact ⟨rfl, rfl⟩

/-- An engine that brings no extensions along, and whose runners supply fixtures without any. -/
structure IsPlain (e : Engine φ) : Prop where
  extensions : e.extensions = []
  fixtures : ∀ {name runner request fixture}, e.runners.find? name = some runner →
    runner.fixture request = .ok fixture → Fixture.extensions fixture = []

/-- The built-in commands bring no files along. -/
theorem assets_of_plain (h : ExtensionSet.of [] = .ok set) : set.assets = [] := by
  have hassets : (ExtensionSet.of []).map ExtensionSet.assets = .ok [] := by decide +kernel
  rw [h] at hassets
  exact Except.ok.inj hassets

/-- What a request comes to whose document puts out what is alone. -/
theorem answering_alone {name : String} {request : RunRequest} (he : e.IsPlain)
    (h : ∀ w, w.IsAlone → ∀ fixture html, Fixture.extensions fixture = [] →
      let r := e.processIn ⟨request.depth, some request.caller⟩ fixture html request.resource w
      r.2.2.IsAlone ∧ ∀ output, r.1 = .ok output → output.resource = request.resource ∧
        output.assets = [])
    (hrequest : request.resource.Canonical) (hw : w.IsAlone) :
    ((e.answering e.processIn name request).run w).2.IsAlone := by
  unfold answering
  cases hrunner : e.runners.find? name with
  | none => exact hw
  | some runner =>
    dsimp only
    rw [run_runRequest]
    cases runner.read request.resource with
    | error error => exact hw
    | ok html =>
      cases hfixture : runner.fixture request with
      | error error => exact hw
      | ok fixture =>
        obtain ⟨halone, houtput⟩ :=
          h { w with log := w.log ++ [.requested request] } hw fixture html
          (he.fixtures hrunner hfixture)
        dsimp only
        unfold delivered
        split
        · exact halone
        · next output hok =>
          obtain ⟨hresource, hassets⟩ := houtput output hok
          intro o ho
          rcases List.mem_append.mp ho with hmem | hmem
          · exact halone o hmem
          · obtain rfl := List.mem_singleton.mp hmem
            exact ⟨hresource ▸ hrequest, hassets⟩

/-- **Outputs are alone** where nothing brings extensions along. -/
theorem processIn_alone (he : e.IsPlain) (hresource : resource.Canonical)
    (hfixture : Fixture.extensions fixture = []) (hw : w.IsAlone) :
    (e.processIn context fixture html resource w).2.2.IsAlone ∧
      ∀ output, (e.processIn context fixture html resource w).1 = .ok output →
        output.resource = resource ∧ output.assets = [] := by
  -- the deeper a run lies, the fewer levels there are below it
  induction hlevels : e.config.maxNestingDepth - context.depth using Nat.strong_induction_on
    generalizing context fixture html resource w with
  | _ levels ih =>
    rw [processIn_eq, processUsing_eq, he.extensions, hfixture, List.append_nil]
    cases hset : ExtensionSet.of [] with
    | error error => exact ⟨hw, nofun⟩
    | ok set =>
      have hlockstep :
          Lockstep i i (e.surroundings set (e.answering e.processIn) context fixture resource)
          (e.surroundings set (e.answering e.processIn) context fixture resource) AddsAlone := by
        refine alone_lockstep fun name request hdepth hallowed hlinked w hw => ?_
        obtain ⟨link, hlink⟩ := hlinked
        have hcanonical : request.resource.Canonical := hlink ▸ hresource.resolve
        have hless : e.config.maxNestingDepth - request.depth < levels := by omega
        exact answering_alone he (fun w hw fixture html hfixture =>
          ih _ hless hcanonical hfixture hw rfl) hcanonical hw
      have hpipeline := hlockstep.pipeline (e := e) (rfl : e.config = e.config)
        (rfl : set.registry = set.registry) rfl rfl
      refine ⟨hpipeline.2 (start fixture html w) hw, fun output houtput => ?_⟩
      have hyields := yields_result houtput
      exact ⟨(pipeline_output hyields).1, (pipeline_output hyields).2.trans (assets_of_plain hset)⟩

end Engine
end LiveSpec
