import LiveSpec.Proofs.Listening.Hearing
import LiveSpec.Proofs.Run.Lockstep

/-!
# What ends a run

Once a document is parsed there are two things that end its run by an error: a listener refuses an
event, or a nested run was ended by an error itself. `Halted` says so of the state in which the run
ends, since nothing happens after the error: the last event that was heard is the one that was
refused, and the world is as the nested run left it.

`Gives` says of a part of a run that it ends with an answer and in a state as expected, unless it is
halted. So it says that the part goes well if no listener refuses anything and no nested run is
aborted.
-/

namespace LiveSpec

open Markup (NodeId Tree)

variable {φ α β : Type}

/-- The two ways in which an error ends a run, told from the state in which it ends. -/
inductive Halted (env : Surroundings) (s : RunState φ) : Error → Prop
  /-- A listener on the bus objects to the event that was heard last. -/
  | refused {e : Event} {place : Nat} {spy : Spy} {message : String}
    (listens : (place, .spy spy) ∈ env.bus.on e.channel)
    (heard : s.heard.head? = some (place, e)) (objects : spy.objects place s = some message) :
    Halted env s (.listener spy.label message)
  /-- A nested run was ended by an error; its world is the one that is left. -/
  | aborted {name : String} {request : RunRequest} {w : World} {cause : Error}
    (answer : (env.nested name request).run w = (.error (.aborted cause), s.world)) :
      Halted env s cause

namespace Run

/-- The part ends with an answer and in a state that are as expected, or is halted. -/
def Gives (env : Surroundings) (s : RunState φ) (x : Run φ α) (Q : α → RunState φ → Prop) : Prop :=
  match x.result s with
  | (.ok a, s') => Q a s'
  | (.error cause, s') => Halted env s' cause

namespace Gives

variable {env : Surroundings} {s : RunState φ} {x : Run φ α} {f : α → Run φ β}
  {P : α → RunState φ → Prop} {Q : β → RunState φ → Prop}

theorem pure {a : α} (h : P a s) : Gives env s (pure a : Run φ α) P := h

theorem bind (hx : Gives env s x P) (hf : ∀ a s', P a s' → Gives env s' (f a) Q) :
    Gives env s (x >>= f) Q := by
  unfold Gives at hx ⊢
  rw [result_bind]
  rcases hresult : x.result s with ⟨cause | a, s₁⟩
  · rw [hresult] at hx
    exact hx
  · rw [hresult] at hx
    exact hf a s₁ hx

theorem mono {P' : α → RunState φ → Prop} (hx : Gives env s x P) (h : ∀ a s', P a s' → P' a s') :
    Gives env s x P' := by
  unfold Gives at hx ⊢
  rcases hresult : x.result s with ⟨cause | a, s₁⟩
  · rw [hresult] at hx
    exact hx
  · rw [hresult] at hx
    exact h a s₁ hx

theorem congr {y : Run φ α} (h : x.result s = y.result s) : Gives env s x P ↔ Gives env s y P := by
  unfold Gives
  rw [h]

/-- A part whose end is known comes first. -/
theorem after {a : α} {s₁ : RunState φ} (hx : x.result s = (.ok a, s₁))
    (hf : Gives env s₁ (f a) Q) :
    Gives env s (x >>= f) Q := by
  unfold Gives at hf ⊢
  rw [result_bind, hx]
  exact hf

theorem keep {slot : Nat} {v : Value} {P : Unit → RunState φ → Prop}
    (h : P () { s with kept := (slot, v) :: s.kept }) : Gives env s (Run.keep slot v) P := h

/-- Parts of a list, one after the other, each of which leads from a good state to a good one. -/
theorem forM {xs : List β} {g : β → Run φ PUnit} {I : RunState φ → Prop}
    (hg : ∀ x ∈ xs, ∀ s, I s → Gives env s (g x) fun _ => I) (hs : I s) :
    Gives env s (xs.forM g) fun _ => I := by
  induction xs generalizing s with
  | nil => exact pure hs
  | cons x xs ih =>
    refine bind (hg x List.mem_cons_self s hs) fun _ s' hs' => ?_
    exact ih (fun y hy => hg y (List.mem_cons_of_mem x hy)) hs'

/-- A listener hears of an event, or refuses it. -/
theorem hear {place : Nat} {l : Listener} {e : Event} {I : RunState φ → Prop}
    (hon : (place, l) ∈ env.bus.on e.channel) (he : e.channel ≠ .parsing)
    (hI : ∀ s s', I s → Overheard e s s' → I s') (hs : I s) :
    Gives env s (Run.hear place l e) fun _ => I := by
  cases l with
  | silent => exact pure hs
  | spy spy =>
    rw [congr (result_hear fun hparsing => absurd hparsing he)]
    have hnoted : I (s.noted place spy.label e) :=
      hI s _ hs ⟨.inr rfl, rfl, rfl, rfl, rfl, rfl, rfl, rfl, [(spy.label, e)], rfl⟩
    unfold Gives
    rw [result_attend]
    cases hobjects : spy.objects place (s.noted place spy.label e) with
    | none => exact hnoted
    | some message => exact .refused hon rfl hobjects

/-- Listeners hear of an event that is not about parsing. They leave what the run found out alone.
-/
theorem tell {e : Event} {P : Unit → RunState φ → Prop} (he : e.channel ≠ .parsing)
    (h : ∀ s', Overheard e s s' → P () s') : Gives env s (Run.tell env.bus e) P := by
  have hall : Gives env s (Run.tell env.bus e) fun _ s' => Overheard e s s' := by
    refine forM (fun l hl s₁ hs₁ => ?_) (refl_of (Overheard e) s)
    exact hear hl he (fun _ _ h₁ h₂ => trans_of (Overheard e) h₁ h₂) hs₁
  exact hall.mono fun _ => h

/-- A nested run is asked for. -/
theorem ask {name : String} {request : RunRequest}
    {P : Except RunnerError Verdict → RunState φ → Prop}
    (h : ∀ verdict w, (∀ cause, verdict ≠ .error (.aborted cause)) →
      P verdict { s with world := w }) :
    Gives env s (Run.ask env name request) P := by
  unfold Gives
  rw [result_ask]
  rcases hanswer : (env.nested name request).run s.world with ⟨verdict, w⟩
  cases verdict with
  | ok v => exact h (.ok v) w nofun
  | error e =>
    cases e with
    | aborted cause => exact .aborted hanswer
    | _ => exact h _ w nofun

end Gives

end Run
end LiveSpec
