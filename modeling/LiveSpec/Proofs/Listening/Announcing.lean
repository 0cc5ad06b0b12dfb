import LiveSpec.Proofs.Listening.Agreement
import LiveSpec.Proofs.Outcome.Accounting

/-!
# What listeners are handed first

What listeners heard is kept, event by event, and a run only adds to it (`Lockstep.heard_grows`). So
what a run tells first is what its listeners heard first: each spy on the channel of the event hears
it in its turn, and if one refuses it, the run ends before anybody has heard of anything else
(`Announced`).
-/

namespace LiveSpec

variable {φ α β : Type} {s : RunState φ} {bus : Bus} {e : Event}

/-- The places of the spies on a channel, in the order of the bus. -/
def Bus.spies (b : Bus) (c : Channel) : List Nat :=
  ((b.on c).filter fun l => l.2.isSpy).map Prod.fst

/-- Says of how a run ended, which began in a state, that its listeners were handed an event before
anything else: all spies on the channel of the event, in their order, or those up to one that
refused it and so ended the run. -/
def Announced (bus : Bus) (e : Event) (s : RunState φ) (r : Except Error α × RunState φ) : Prop :=
  (∃ later,
    r.2.heard = later ++ (((bus.spies e.channel).map fun place => (place, e)).reverse ++ s.heard)) ∨
    ∃ cause places, r.1 = .error cause ∧ places <+: bus.spies e.channel ∧
      r.2.heard = (places.map fun place => (place, e)).reverse ++ s.heard

namespace Run

/-- Listeners that are told of an event hear it one after the other, up to the first that refuses
it. -/
theorem hear_announced (he : e.channel ≠ .parsing) (listeners : List (Nat × Listener)) :
    let r := (listeners.forM fun l => hear l.1 l.2 e : Run φ PUnit).result s
    let places := (listeners.filter fun l => l.2.isSpy).map Prod.fst
    (r.1 = .ok () ∧ r.2.heard = (places.map fun place => (place, e)).reverse ++ s.heard) ∨
      ∃ cause some, r.1 = .error cause ∧ some <+: places ∧
        r.2.heard = (some.map fun place => (place, e)).reverse ++ s.heard := by
  induction listeners generalizing s with
  | nil => exact .inl ⟨rfl, rfl⟩
  | cons l listeners ih =>
    obtain ⟨place, l⟩ := l
    cases l with
    | silent => exact ih
    | spy spy =>
      have hfirst : (hear place (.spy spy) e).result s = (attend place spy e).result s :=
        result_hear (absurd · he)
      rw [result_attend] at hfirst
      have hall : (((place, Listener.spy spy) :: listeners).forM fun l =>
          hear l.1 l.2 e : Run φ PUnit).result s =
          (hear place (.spy spy) e >>= fun _ => listeners.forM fun l =>
            hear l.1 l.2 e : Run φ PUnit).result s := rfl
      dsimp only
      rw [hall, result_bind, hfirst]
      cases spy.objects place (s.noted place spy.label e) with
      | some message => exact .inr ⟨_, [place], rfl, ⟨_, rfl⟩, rfl⟩
      | none =>
        rcases ih (s := s.noted place spy.label e) with ⟨hok, hheard⟩ | ⟨cause, places, herror,
          hprefix, hheard⟩
        · refine .inl ⟨hok, hheard.trans ?_⟩
          simp [RunState.noted, Listener.isSpy]
        · refine .inr ⟨cause, place :: places, herror, ?_, hheard.trans ?_⟩
          · simpa [Listener.isSpy] using hprefix
          · simp [RunState.noted]

/-! ## What a run adds -/

/-- Between two states listeners heard more. -/
def HeardMore (s s' : RunState φ) : Prop := s.heard <:+ s'.heard

instance : IsPreorder (RunState φ) HeardMore where
  refl s := List.suffix_refl s.heard
  trans _ _ _ h h' := List.IsSuffix.trans h h'

theorem HeardMore.of_eq {s' : RunState φ} (h : s'.heard = s.heard) : HeardMore s s' :=
  show s.heard <:+ s'.heard from h ▸ List.suffix_refl s.heard

theorem tell_heardMore : Always HeardMore (tell bus e : Run φ Unit) := by
  refine .forM fun listener _ => ?_
  obtain ⟨place, l⟩ := listener
  cases l with
  | silent => exact .pure
  | spy spy =>
    show Always HeardMore (hear place (.spy spy) e)
    rw [hear_spy]
    refine .bind ?_ fun _ => .bind (.modify fun _ => List.suffix_cons _ _) fun _ =>
      .bind .get fun _ => ?_
    · unfold reshape
      split
      · refine .bind .get fun _ => ?_
        split
        · exact .modify fun _ => .of_eq rfl
        · exact .throw
      · exact .pure
    · split
      · exact .throw
      · exact .pure

/-- The parts of a run that add to what was heard. -/
def Hears (α : Type) (x y : Run φ α) : Prop := y = x ∧ Always HeardMore x

theorem Hears.bind {x y : Run φ α} {f g : α → Run φ β} (hxy : Hears α x y)
    (hfg : ∀ a, Hears β (f a) (g a)) :
    Hears β (x >>= f) (y >>= g) := by
  obtain ⟨rfl, hx⟩ := hxy
  obtain rfl : g = f := funext fun a => (hfg a).1
  exact ⟨rfl, .bind hx fun a => (hfg a).2⟩

/-- **A run only adds to what its listeners heard**; what is heard in nested runs is theirs. -/
theorem hears_lockstep [i : Fixture φ] {env : Surroundings} :
    Lockstep i i env env (Hears (φ := φ)) where
  resource := rfl
  fixtureName := rfl
  context := rfl
  maxDepth := rfl
  name := rfl
  pure _ := ⟨rfl, .pure⟩
  bind := .bind
  throw _ := ⟨rfl, .throw⟩
  getting hxy _ _ := .bind ⟨rfl, .get⟩ hxy
  modify hf := ⟨rfl, .modify fun s => .of_eq (hf s).1.heard⟩
  log _ _ := ⟨rfl, .modify fun _ => .of_eq rfl⟩
  evaluate _ := ⟨rfl, fun _ => .of_eq rfl⟩
  assign _ _ := ⟨rfl, fun _ => .of_eq rfl⟩
  tell _ := ⟨rfl, tell_heardMore⟩
  report _ := .bind ⟨rfl, .modify fun _ => .of_eq rfl⟩ fun _ => .bind ⟨rfl, .get⟩ fun _ =>
    ⟨rfl, tell_heardMore⟩
  ask name request _ := ⟨rfl, fun s => by
    rw [result_ask]
    exact .of_eq rfl⟩

/-- **What a run tells first**, its listeners hear first. -/
theorem tell_announces {f : Unit → Run φ α} (he : e.channel ≠ .parsing)
    (hf : ∀ u, Always HeardMore (f u)) :
    Announced bus e s ((tell bus e >>= f).result s) := by
  rw [result_bind]
  rcases hear_announced (s := s) he (bus.on e.channel) with ⟨hok, hheard⟩ | ⟨cause, places, herror,
    hprefix, hheard⟩
  · rcases htell : (tell bus e : Run φ Unit).result s with ⟨cause | _, s₁⟩
    · cases (congrArg Prod.fst htell).symm.trans hok
    · obtain ⟨later, hlater⟩ := hf () s₁
      refine .inl ⟨later, hlater.symm.trans ?_⟩
      rw [← show _ = s₁ from congrArg Prod.snd htell]
      exact congrArg (later ++ ·) hheard
  · rcases htell : (tell bus e : Run φ Unit).result s with ⟨cause' | _, s₁⟩
    · refine .inr ⟨cause', places, rfl, hprefix, ?_⟩
      rw [← show _ = s₁ from congrArg Prod.snd htell]
      exact hheard
    · cases (congrArg Prod.fst htell).symm.trans herror

end Run

namespace Engine

open Run

/-- **A run that performs its calls hands the graph to the listeners of building first**, with the
document. -/
theorem perform_announces [i : Fixture φ] (e : Engine φ) (set : ExtensionSet) (env : Surroundings)
    (g : CallGraph) (s : RunState φ) :
    Announced env.bus (.graphBuilt env.resource.path s.tree g) s
      ((e.perform set env g).result s) := by
  have h : Lockstep i i env env (Hears (φ := φ)) := hears_lockstep
  have hchannel : (Event.graphBuilt env.resource.path s.tree g).channel ≠ .parsing := by
    simp [Event.channel, Event.graphBuilt]
  unfold perform
  rw [result_bind_of (yields_get.mpr ⟨rfl, rfl⟩)]
  refine tell_announces hchannel fun _ => ?_
  refine .bind (.modify fun _ => .of_eq rfl) fun _ => .bind h.runGraph.2 fun _ =>
    .bind .get fun _ => ?_
  exact .bind h.paint.2 fun _ => .bind tell_heardMore fun _ => .bind .get fun _ => .pure

end Engine
end LiveSpec
