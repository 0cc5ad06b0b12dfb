import LiveSpec.Proofs.Listening.Hearing
import LiveSpec.Proofs.Listening.Replacing
import LiveSpec.Proofs.Run.Lockstep

/-!
# A listener that refuses an event

Two runs of the same document: in one a listener accepts whatever it hears, in the other the same
listener refuses its `n`-th event. Both listeners do nothing else. Up to that event the runs do the
same; there the one with the refusal ends, however deep in nested runs it happens, and its log ends
with the refused event (`Engine.refusal_stops_run`).

A listener is known by its label, and its events are counted over all runs. Listeners that are made
anew for each run share a label; that one of them refuses an event of its own is that the event with
its number in the count of all of them is refused.

`UntilRefused` says this of how two parts of a run end. Either they end alike, or the one with the
refusal was stopped (`Stopped`) at a moment that the other passed. Both are kept by putting parts
together, since logs only grow, so `Lockstep` carries it through each command and phase. A nested
run that was stopped stops the asking run, so an induction on the levels of nesting carries it
through those.
-/

namespace LiveSpec

/-! ## The two listeners -/

/-- How many events of a log a listener heard. -/
def heardBy (label : String) (log : List LogEntry) : Nat :=
  (log.filterMap LogEntry.heard?).countP fun (l, _) => l = label

/-- What was heard adds up. -/
theorem heardBy_append (label : String) (log log' : List LogEntry) :
    heardBy label (log ++ log') = heardBy label log + heardBy label log' := by
  unfold heardBy
  rw [List.filterMap_append, List.countP_append]

/-- A longer log has heard no less. -/
theorem heardBy_le {label : String} {log log' : List LogEntry} (h : log <+: log') :
    heardBy label log ≤ heardBy label log' :=
  ((h.filterMap _).sublist).countP_le

/-- A spy that takes note of everything and accepts it. -/
def Spy.logging (label : String) : Spy := ⟨label, fun _ => none, ⟨none, none⟩, fun _ => none⟩

/-- A spy that takes note of everything, and refuses its `n`-th event and no other. -/
def Spy.refusing (label message : String) (n : Nat) : Spy where
  label := label
  objection := fun _ => none
  retouch := ⟨none, none⟩
  recollection := fun heard => if heard.countP (fun (l, _) => l = label) = n then
    some message else none

/-- Puts a spy in the place of all spies with its label. -/
def Listener.replacedBy (spy : Spy) : Listener → Listener
  | .silent => .silent
  | .spy s => .spy (if s.label = spy.label then spy else s)

theorem Spy.objects_logging {φ : Type} {label : String} {place : Nat} {s : RunState φ} :
    (logging label).objects place s = none := rfl

theorem Spy.objects_refusing {φ : Type} {label message : String} {n place : Nat} {s : RunState φ} :
    (refusing label message n).objects place s = if heardBy label s.world.log = n then
      some message else none := rfl

/-- All listeners as they are where the one with a label accepts everything. -/
abbrev accepting (label : String) : Listener → Listener := .replacedBy (.logging label)

/-- All listeners as they are where the one with a label refuses its `n`-th event. -/
abbrev refusing (label message : String) (n : Nat) : Listener → Listener :=
  .replacedBy (.refusing label message n)

/-! ## How two parts end -/

section Ending

variable (label message : String) (n : Nat)

/-- From `before` on, a run was stopped by the `n`-th event of the listener, at a moment that the
run with the log `after` passed as well. -/
structure Stopped (before stopped after : List LogEntry) : Prop where
  early : heardBy label before < n
  sooner : stopped <+: after
  last : ∃ e, stopped.getLast? = some (.heard label e)
  count : heardBy label stopped = n

/-- From `before` on, `y` is how something ended where everything was accepted, and `x` how it ended
with the refusal: either alike, and if the `n`-th event was still to come it still is, or `x` was
stopped by it. -/
structure UntilRefused {γ : Type} (log : γ → List LogEntry) (refused : γ → Prop)
    (before : List LogEntry) (x y : γ) :
    Prop where
  grows : before <+: log y
  ends : x = y ∧ (heardBy label before < n → heardBy label (log y) < n) ∨
    refused x ∧ Stopped label n before (log x) (log y)

namespace UntilRefused

variable {label n} {γ δ : Type} {log : γ → List LogEntry} {refused : γ → Prop}
  {before : List LogEntry} {x y : γ}

/-- What the listener hears nothing of ends in the same way. -/
theorem same (added : List LogEntry) (hlog : log x = before ++ added)
    (hadded : heardBy label added = 0) :
    UntilRefused label n log refused before x x where
  grows := ⟨added, hlog.symm⟩
  ends := .inl ⟨rfl, fun h => by rw [hlog, heardBy_append, hadded]; exact h⟩

theorem map {log' : δ → List LogEntry} {refused' : δ → Prop} {f : γ → δ}
    (h : UntilRefused label n log refused before x y) (hlog : ∀ r, log' (f r) = log r)
    (hrefused : ∀ r, refused r → refused' (f r)) :
    UntilRefused label n log' refused' before (f x) (f y) where
  grows := by rw [hlog]; exact h.grows
  ends := by
    rw [hlog, hlog]
    rcases h.ends with ⟨rfl, hspared⟩ | ⟨hx, hstopped⟩
    · exact .inl ⟨rfl, hspared⟩
    · exact .inr ⟨hrefused x hx, hstopped⟩

/-- Going on from where another part ended that both runs share. -/
theorem after {middle : List LogEntry} (h : UntilRefused label n log refused middle x y)
    (hgrows : before <+: middle) (hspared : heardBy label before < n → heardBy label middle < n) :
    UntilRefused label n log refused before x y where
  grows := hgrows.trans h.grows
  ends := by
    rcases h.ends with ⟨heq, hspared'⟩ | ⟨hx, hstopped⟩
    · exact .inl ⟨heq, hspared' ∘ hspared⟩
    · exact .inr ⟨hx, { hstopped with early := (heardBy_le hgrows).trans_lt hstopped.early }⟩

end UntilRefused

variable {φ : Type}

/-- The two ways in which a part of a run goes: `y` where everything was accepted, `x` with the
refusal. -/
def Shadows (α : Type) (y x : Run φ α) : Prop :=
  ∀ s, UntilRefused label n (fun r : Except Error α × RunState φ => r.2.world.log)
    (fun r => r.1 = .error (.listener label message)) s.world.log (x.result s) (y.result s)

/-- The two ways in which a document is run. -/
abbrev ResultUntilRefused (w : World) (x y : Engine.Result φ) : Prop :=
  UntilRefused label n (fun r : Engine.Result φ => r.2.2.log)
    (fun r => r.1 = .error (.listener label message)) w.log
    x y

/-- The two ways in which a request for a nested run is dealt with. -/
abbrev VerdictUntilRefused (w : World) (x y : Except RunnerError Verdict × World) : Prop :=
  UntilRefused label n (fun r : Except RunnerError Verdict × World => r.2.log)
    (fun r => r.1 = .error (.aborted (.listener label message))) w.log x y

/-- The two ways in which all requests are dealt with. -/
def NestedUntilRefused (nested nested' : Engine.Nested) : Prop :=
  ∀ name request w, VerdictUntilRefused label message n w ((nested' name request).run w)
    ((nested name request).run w)

end Ending

namespace Shadows

open Run

variable {label message : String} {n : Nat} {φ : Type} {α β : Type}

/-- A part in which the listener hears nothing. -/
theorem same {x : Run φ α}
    (h : ∀ s, ∃ added, (x.result s).2.world.log = s.world.log ++ added ∧ heardBy label added = 0) :
    Shadows label message n α x x := fun s => by
  obtain ⟨added, hlog, hadded⟩ := h s
  exact .same added hlog hadded

/-- A part that does not touch the log. -/
theorem silent {x : Run φ α} (h : ∀ s, (x.result s).2.world.log = s.world.log) :
    Shadows label message n α x x :=
  same fun s => ⟨[], by rw [h, List.append_nil], rfl⟩

/-- Runs in sequence are shadowed if each is. -/
theorem bind {x y : Run φ α} {f g : α → Run φ β} (hx : Shadows label message n α y x)
    (hf : ∀ a, Shadows label message n β (g a) (f a)) :
    Shadows label message n β (y >>= g) (x >>= f) := fun s => by
  obtain ⟨hgrows, hends⟩ := hx s
  rw [result_bind, result_bind]
  rcases hy : y.result s with ⟨e | a, s₁⟩
  · rw [hy] at hgrows hends
    rcases hends with ⟨heq, hspared⟩ | ⟨hrefused, hstopped⟩
    · rw [heq]
      exact ⟨hgrows, .inl ⟨rfl, hspared⟩⟩
    · rcases hx : x.result s with ⟨r, s₂⟩
      rw [hx] at hrefused hstopped
      cases hrefused
      exact ⟨hgrows, .inr ⟨rfl, hstopped⟩⟩
  · rw [hy] at hgrows hends
    rcases hends with ⟨heq, hspared⟩ | ⟨hrefused, hstopped⟩
    · rw [heq]
      exact (hf a s₁).after hgrows hspared
    · rcases hx : x.result s with ⟨r, s₂⟩
      rw [hx] at hrefused hstopped
      cases hrefused
      have hlater := (hf a s₁).grows
      exact ⟨hgrows.trans hlater, .inr ⟨rfl,
        { hstopped with sooner := hstopped.sooner.trans hlater }⟩⟩

/-- An entry of the log that is not an event. -/
theorem log {entry : LogEntry} (h : entry.heard? = none) :
    Shadows label message n Unit (Run.log entry : Run φ Unit) (Run.log entry) :=
  same fun _ => ⟨[entry], rfl, by simp [heardBy, h]⟩

/-! ## Telling listeners -/

/-- What listeners to parsing do to the document leaves no trace in the log. -/
theorem reshape {spy : Spy} {e : Event} :
    Shadows label message n Unit (Run.reshape spy e : Run φ Unit) (Run.reshape spy e) := by
  unfold Run.reshape
  split
  · refine bind (silent fun _ => rfl) fun s => ?_
    split <;> exact silent fun _ => rfl
  · exact silent fun _ => rfl

/-- Another spy hears the same in both runs. -/
theorem hear_other {place : Nat} {spy : Spy} {e : Event} (h : spy.label ≠ label) :
    Shadows label message n Unit (hear place (.spy spy) e : Run φ Unit)
    (hear place (.spy spy) e) := by
  rw [hear_spy]
  refine bind reshape fun _ => same fun s => ⟨[.heard spy.label e],
    ?_, by simp [heardBy, LogEntry.heard?, h]⟩
  rw [result_attend]
  split <;> rfl

/-- The listener itself: up to its last event it takes note and goes on, and there it refuses. -/
theorem hear_own {place : Nat} {e : Event} :
    Shadows label message n Unit (hear place (.spy (.logging label)) e : Run φ Unit)
      (hear place (.spy (.refusing label message n)) e) := by
  rw [hear_spy, hear_spy]
  refine bind reshape fun _ s => ?_
  have hcount :
      heardBy label (s.noted place label e).world.log = heardBy label s.world.log + 1 := by
    unfold RunState.noted
    rw [heardBy_append]
    simp [heardBy, LogEntry.heard?]
  rw [result_attend, result_attend, Spy.objects_logging, Spy.objects_refusing]
  refine ⟨List.prefix_append _ _, ?_⟩
  show _ ∨ _ ∧ Stopped label n s.world.log _ (s.noted place label e).world.log
  by_cases hn : heardBy label (s.noted place label e).world.log = n
  · rw [show (Spy.refusing label message n).label = label from rfl, if_pos hn]
    exact .inr ⟨rfl, by omega, List.prefix_refl _, ⟨e, List.getLast?_concat⟩, hn⟩
  · rw [show (Spy.refusing label message n).label = label from rfl, if_neg hn]
    exact .inl ⟨rfl, fun _ => by
      show heardBy label (s.noted place label e).world.log < n
      omega⟩

/-- The spy that refuses hears what the one that accepts does, until it refuses. -/
theorem hear {place : Nat} {l : Listener} {e : Event} :
    Shadows label message n Unit (Run.hear place (accepting label l) e : Run φ Unit)
      (Run.hear place (refusing label message n l) e) := by
  cases l with
  | silent => exact silent fun _ => rfl
  | spy spy =>
    show Shadows label message n Unit
        (Run.hear place (.spy (if spy.label = label then _ else spy)) e)
      (Run.hear place (.spy (if spy.label = label then _ else spy)) e)
    split
    · exact hear_own
    · next hother => exact hear_other hother

/-- All listeners of a channel. -/
theorem tell {bus : Bus} {e : Event} :
    Shadows label message n Unit (Run.tell (bus.mapListeners (accepting label)) e : Run φ Unit)
      (Run.tell (bus.mapListeners (refusing label message n)) e) := by
  unfold Run.tell
  rw [Bus.on_mapListeners, Bus.on_mapListeners]
  induction bus.on e.channel with
  | nil => exact silent fun _ => rfl
  | cons listener rest ih => exact bind hear fun _ => ih

/-! ## Nested runs, and the whole run -/

/-- Asking for a nested run: what stopped that one stops this one. -/
theorem ask {env env' : Surroundings} {name : String} {request : RunRequest}
    (h : ∀ w, VerdictUntilRefused label message n w ((env'.nested name request).run w)
      ((env.nested name request).run w)) :
    Shadows label message n _ (Run.ask env name request : Run φ _)
    (Run.ask env' name request) := fun s => by
  rw [result_ask, result_ask]
  refine (h s.world).map (f := fun r => (relayed r.1, { s with world := r.2 }))
    (fun _ => ?_) fun r hr => ?_
  · rfl
  · rw [hr]
    rfl

end Shadows

section Runs

variable {label message : String} {n : Nat} {φ : Type} [i : Fixture φ]

/-- An evaluation does not depend on listeners. -/
theorem evaluate_mapListeners (g : Listener → Listener) :
    @Run.evaluate φ (i.mapListeners g) = @Run.evaluate φ i := by
  have h : @Scope.evaluate φ (i.mapListeners g) = @Scope.evaluate φ i := by
    delta Scope.evaluate Scope.value
    rfl
  unfold Run.evaluate
  rw [h]

/-- Where nested runs do so, all parts of a run follow each other. -/
theorem shadows_lockstep {bus : Bus} {resource : Resource} {fixtureName : String}
    {context : Context} {maxDepth : Nat} {nested nested' : Engine.Nested}
    (h : NestedUntilRefused label message n nested nested') :
    Lockstep (i.mapListeners (accepting label)) (i.mapListeners (refusing label message n))
      ⟨bus.mapListeners (accepting label), resource, fixtureName, context, maxDepth, nested⟩
      ⟨bus.mapListeners (refusing label message n), resource, fixtureName, context,
        maxDepth, nested'⟩
      (Shadows label message n (φ := φ)) where
  resource := rfl
  fixtureName := rfl
  context := rfl
  maxDepth := rfl
  name := rfl
  pure _ := .silent fun _ => rfl
  bind := .bind
  throw _ := .silent fun _ => rfl
  getting hxy _ _ := .bind (.silent fun _ => rfl) hxy
  modify hf := .silent fun s => congrArg World.log (hf s).1.world
  log hheard _ := .log hheard
  evaluate source := by
    rw [evaluate_mapListeners, evaluate_mapListeners]
    exact .silent fun _ => rfl
  assign source v := .silent fun _ => rfl
  tell _ := .tell
  report x := .bind (.silent fun _ => rfl) fun _ => .bind (.silent fun _ => rfl) fun _ => .tell
  ask name request _ := .ask (h name request)

namespace Engine

variable {e : Engine φ} {context : Context} {fixture : φ} {html : String} {resource : Resource}
  {w : World}

/-- Runs a document with a spy in the place of all with its label, also of those that fixtures bring
along. -/
def processWith (e : Engine φ) (spy : Spy) : φ → String → Resource → World → Result φ :=
  @process φ (i.mapListeners (.replacedBy spy)) (e.mapListeners (.replacedBy spy))

omit i in
/-- Nor do the nested runners. -/
theorem runners_mapListeners (g : Listener → Listener) :
    (e.mapListeners g).runners = e.runners := rfl

theorem processUsing_mapListeners (g : Listener → Listener) (nested : Nested) :
    @processUsing φ (i.mapListeners g) (e.mapListeners g) nested context fixture html resource w =
      match ExtensionSet.of (e.extensions ++ Fixture.extensions fixture) with
      | .error error => (.error error, fixture, w)
      | .ok set =>
        let (result, s) := (@pipeline φ (i.mapListeners g) (e.mapListeners g) (set.mapListeners g)
          (e.surroundings (set.mapListeners g) nested context fixture resource)).result
            (start fixture html w)
        (result, s.scope.fixture, s.world) := by
  have hextensions : (e.mapListeners g).extensions ++ @Fixture.extensions φ
      (i.mapListeners g) fixture =
      (e.extensions ++ Fixture.extensions fixture).map (Extension.mapListeners g) :=
    List.map_append.symm
  rw [@processUsing_eq φ (i.mapListeners g), hextensions, ExtensionSet.of_mapListeners]
  cases ExtensionSet.of (e.extensions ++ Fixture.extensions fixture) <;> rfl

/-- The whole pipeline is shadowed, if its nested runs are. -/
theorem pipeline_shadows {set : ExtensionSet} {nested nested' : Nested}
    (h : NestedUntilRefused label message n nested nested') :
    Shadows label message n Output
      (@pipeline φ (i.mapListeners (accepting label)) (e.mapListeners (accepting label))
        (set.mapListeners (accepting label))
        (e.surroundings (set.mapListeners (accepting label)) nested context fixture resource))
      (@pipeline φ (i.mapListeners (refusing label message n))
        (e.mapListeners (refusing label message n))
        (set.mapListeners (refusing label message n))
        (e.surroundings (set.mapListeners (refusing label message n)) nested' context fixture
          resource)) :=
  (shadows_lockstep h).pipeline rfl rfl rfl rfl

/-- Processing a document goes the same way until the refusal. -/
theorem processUsing_untilRefused {nested nested' : Nested}
    (h : NestedUntilRefused label message n nested nested') :
    ResultUntilRefused label message n w
      (@processUsing φ (i.mapListeners (refusing label message n))
        (e.mapListeners (refusing label message n)) nested'
        context fixture html resource w)
      (@processUsing φ (i.mapListeners (accepting label)) (e.mapListeners (accepting label)) nested
        context fixture html
        resource w) := by
  rw [processUsing_mapListeners, processUsing_mapListeners]
  cases ExtensionSet.of (e.extensions ++ Fixture.extensions fixture) with
  | error error => exact .same [] (List.append_nil _).symm rfl
  | ok set =>
    refine (pipeline_shadows h (start fixture html w)).map
      (f := fun r => (r.1, r.2.scope.fixture, r.2.world))
      (fun _ => ?_) fun r hr => ?_
    · rfl
    · exact hr

omit i in
/-- A nested run that was stopped has no verdict, and says why. -/
theorem runRequest_untilRefused {runner : Runner φ}
    {process process' : Context → φ → String → Resource → World → Result φ}
    (h : ∀ context fixture html resource w, ResultUntilRefused label message n w
      (process' context fixture html resource w) (process context fixture html resource w))
        (request : RunRequest) :
    VerdictUntilRefused label message n w ((runRequest runner process' request).run w)
      ((runRequest runner process request).run w) := by
  rw [run_runRequest, run_runRequest]
  split
  · exact .same [] (List.append_nil _).symm rfl
  · exact .same [.requested request] rfl rfl
  · have hrequested : heardBy label (w.log ++ [.requested request]) = heardBy label w.log :=
      heardBy_append ..
    refine ((h _ _ _ _ _).map (f := delivered) (fun r => ?_) fun r hr => ?_).after
      (List.prefix_append _ _)
      hrequested.trans_lt
    · unfold delivered
      split <;> rfl
    · unfold delivered
      rw [hr]

/-- However many levels of nested runs lie below. -/
theorem processWithin_untilRefused (levels : Nat) (context : Context) (fixture : φ) (html : String)
    (resource : Resource) (w : World) : ResultUntilRefused label message n w
      (@processWithin φ (i.mapListeners (refusing label message n))
        (e.mapListeners (refusing label message n)) levels
        context fixture html resource w)
      (@processWithin φ (i.mapListeners (accepting label)) (e.mapListeners (accepting label)) levels
        context fixture
        html resource w) := by
  induction levels generalizing context fixture html resource w with
  | zero => exact processUsing_untilRefused fun _ _ _ => .same [] (List.append_nil _).symm rfl
  | succ levels ih =>
    refine processUsing_untilRefused fun name request w => ?_
    rw [runners_mapListeners, runners_mapListeners]
    cases e.runners.find? name with
    | none => exact .same [] (List.append_nil _).symm rfl
    | some runner => exact runRequest_untilRefused ih request

/-- **A refusal is a hard stop.** A document is run twice, by the same engine and with the same
fixture, and each run can ask for others. In one the listener with a label takes note of all events
and accepts them; in the other it refuses its `n`-th event, counted over all runs. If that event
comes, the second run ends with the listener's error and has no output; its log is the start of the
other log, and ends with the refused event. Otherwise the two runs do the same. -/
theorem refusal_stops_run (e : Engine φ) (label message : String) (n : Nat) (fixture : φ)
    (html : String) (resource : Resource) (w : World) :
    let accepted := e.processWith (.logging label) fixture html resource w
    let refused := e.processWith (.refusing label message n) fixture html resource w
    if heardBy label w.log < n ∧ n ≤ heardBy label accepted.2.2.log then
      refused.1 = .error (.listener label message) ∧ refused.2.2.log <+: accepted.2.2.log ∧
        (∃ event, refused.2.2.log.getLast? = some (.heard label event)) ∧
        heardBy label refused.2.2.log = n
    else refused = accepted := by
  intro accepted refused
  obtain ⟨-, hends⟩ : ResultUntilRefused label message n w refused accepted :=
    processWithin_untilRefused ..
  split
  · next h =>
    obtain ⟨hbefore, hreached⟩ := h
    rcases hends with ⟨-, hspared⟩ | ⟨hrefused, hstopped⟩
    · exact absurd (hspared hbefore) (Nat.not_lt.mpr hreached)
    · exact ⟨hrefused, hstopped.sooner, hstopped.last, hstopped.count⟩
  · next h =>
    rcases hends with ⟨hsame, -⟩ | ⟨-, hstopped⟩
    · exact hsame
    · exact absurd ⟨hstopped.early, hstopped.count ▸ heardBy_le hstopped.sooner⟩ h

end Engine

end Runs

namespace Sample

/-- An engine that tells a spy of each document that it builds, and runs the same document for every
link. -/
def nesting : Engine StockFixture where
  config := { Config.standard with embedDefaultCss := false }
  extensions := [⟨"nesting", [.listeners [(.build, .spy (.logging "patient"))]]⟩]
  runners := [("inner", ⟨fun _ => .ok "<p>inner</p>", fun _ => .ok (.bare "Inner")⟩)]

/-- A document that links to another one. -/
def linking : String :=
  "<html xmlns:c=\"" ++ builtInNamespace ++ "\"><a c:run=\"inner\" href=\"x\">x</a></html>"

end Sample

/-- The second document that is built is the one linked to. -/
example :
    ((Sample.nesting.processWith (.refusing "patient" "enough" 2) (.bare "Outer")
      Sample.linking ⟨["outer"]⟩
    .empty).1.map fun _ => ()) = .error (.listener "patient" "enough") := by decide +kernel

end LiveSpec
