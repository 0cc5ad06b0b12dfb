import LiveSpec.Proofs.Listening.Hearing
import LiveSpec.Proofs.Run.Lockstep

/-!
# What listeners are told, and what the summary says

All that a record says can be read off its outcomes (`Record.of`): how many successes there are, and
the details of failures and exceptions in their order. Each outcome is told to the listeners of its
kind right after it was recorded, and nothing else that they are told looks like an outcome. So
whoever listens to all kinds of outcomes is told of exactly those in the summary, in their order
(`Engine.summary_as_told`).

The invariant is that the record is the one of the outcomes told so far (`RunState.Agrees`).
Reporting an outcome breaks and restores it: the outcome is recorded first, and told then
(`report_agrees`). That exactly one of the three listeners hears of it is a matter of where they sit
(`Bus.Attended.heard`).
-/

namespace LiveSpec

open Markup (NodeId Tree TreeError)

/-! ## Records as lists of outcomes -/

namespace Recorded

/-- The details of the failure that an outcome is, if it counts as one. -/
def failure? (x : Recorded) : Option FailureDetail :=
  match x.outcome with
  | .failure expected actual =>
    some ⟨x.element, expected, actual, "expected '" ++ expected ++ "' but was '" ++ actual ++ "'"⟩
  | .missingRow expected => some ⟨x.element, expected, "", "missing row '" ++ expected ++ "'"⟩
  | .surplusRow actual => some ⟨x.element, "", actual, "surplus row '" ++ actual ++ "'"⟩
  | _ => none

/-- The details of the exception that an outcome is, if it is one. -/
def exception? (x : Recorded) : Option ExceptionDetail :=
  match x.outcome with
  | .exception expression error => some ⟨x.element, expression, error, error.frames⟩
  | _ => none

/-- An outcome is a success unless it is something else. -/
theorem isSuccess_iff (x : Recorded) : x.outcome = .success ↔
    x.failure? = none ∧ x.exception? = none := by
  obtain ⟨n, outcome⟩ := x
  cases outcome <;> simp [failure?, exception?]

/-- The channel on which an outcome is told. -/
def channel (x : Recorded) : Channel :=
  match x.outcome with
  | .success | .failure _ _ => .assertion
  | .exception _ _ => .exceptions
  | .missingRow _ | .surplusRow _ => .rows

theorem channel_event (x : Recorded) (shown : Spot) : (x.event shown).channel = x.channel := by
  obtain ⟨n, outcome⟩ := x
  cases outcome <;> rfl

end Recorded

namespace Record

/-- The record of some outcomes. -/
def of (xs : List Recorded) : Record where
  successes := xs.countP fun x => x.outcome = .success
  failures := xs.filterMap Recorded.failure?
  exceptions := xs.filterMap Recorded.exception?
  outcomes := xs

/-- Recording an outcome is putting it after the others. -/
theorem add_of (xs : List Recorded) (x : Recorded) : (of xs).add x = of (xs ++ [x]) := by
  obtain ⟨n, outcome⟩ := x
  cases outcome <;>
    simp [add, of, success, failure, exception, missingRow, surplusRow, Recorded.failure?,
      Recorded.exception?]

end Record

/-- A summary of outcomes is one of success if all of them are successes. -/
theorem Summary.isSuccess_of (resource : Resource) (xs : List Recorded) :
    (Summary.mk resource (.of xs)).isSuccess = true ↔ ∀ x ∈ xs, x.outcome = .success := by
  simp only [isSuccess, hasFailures, hasExceptions, Record.of, Bool.and_eq_true, Bool.not_not,
    List.isEmpty_iff,
    List.filterMap_eq_nil_iff, Recorded.isSuccess_iff]
  exact ⟨fun h x hx => ⟨h.1 x hx, h.2 x hx⟩, fun h => ⟨fun x hx => (h x hx).1,
    fun x hx => (h x hx).2⟩⟩

/-! ## What listeners at some places hear -/

/-- Says whether a listener takes note of what it hears. -/
def Listener.isSpy : Listener → Bool
  | .silent => false
  | .spy _ => true

variable {φ : Type} {s s' : RunState φ}

/-- The outcomes that listeners at some places of the bus were told of, in order. -/
def RunState.told (places : List Nat) (s : RunState φ) : List Recorded :=
  s.heard.reverse.filterMap fun (place, e) => if place ∈ places then e.outcome? else none

/-- At these places sit listeners that take note of what they hear, one for each kind of outcome. -/
structure Bus.Attended (bus : Bus) (i j k : Nat) : Prop where
  assertions : ∃ spy, bus[i]? = some (.assertion, .spy spy)
  exceptions : ∃ spy, bus[j]? = some (.exceptions, .spy spy)
  rows : ∃ spy, bus[k]? = some (.rows, .spy spy)

/-- The record is that of its outcomes, and whoever attends was told of these. -/
structure RunState.Agrees (bus : Bus) (s : RunState φ) : Prop where
  record : s.record = .of s.record.outcomes
  told : ∀ {i j k}, bus.Attended i j k → s.told [i, j, k] = s.record.outcomes

theorem RunState.Agrees.congr {bus : Bus} (h : s.Agrees bus) (hrecord : s'.record = s.record)
    (hheard : s'.heard = s.heard) : s'.Agrees bus where
  record := by rw [hrecord, ← h.record]
  told ha := by rw [hrecord, ← h.told ha, RunState.told, hheard, RunState.told]

/-- Says whether a spy listens to a channel at a place of the bus. -/
def Bus.hasSpy (bus : Bus) (place : Nat) (c : Channel) : Bool :=
  match bus[place]? with
  | some (c', .spy _) => c' = c
  | _ => false

theorem Bus.hasSpy_iff {bus : Bus} {place : Nat} {c : Channel} :
    bus.hasSpy place c ↔ ∃ spy, bus[place]? = some (c, .spy spy) := by
  unfold Bus.hasSpy
  rcases bus[place]? with _ | ⟨c', _ | spy⟩ <;> simp

instance {bus : Bus} {i j k : Nat} : Decidable (bus.Attended i j k) :=
  decidable_of_iff (bus.hasSpy i .assertion ∧ bus.hasSpy j .exceptions ∧ bus.hasSpy k .rows) <| by
    simp only [Bus.hasSpy_iff]
    exact ⟨fun ⟨ha, he, hr⟩ => ⟨ha, he, hr⟩, fun h => ⟨h.assertions, h.exceptions, h.rows⟩⟩

/-- Reading a list with its places off one place only. -/
theorem zipIdx_filterMap_single {α β : Type} {xs : List α} {i : Nat} {f : α × Nat → Option β}
    {a : α} {b : β} (ha : xs[i]? = some a) (hb : f (a, i) = some b)
    (hrest : ∀ {c k}, xs[k]? = some c → k ≠ i → f (c, k) = none) :
    xs.zipIdx.filterMap f = [b] := by
  obtain ⟨hi, rfl⟩ := List.getElem?_eq_some_iff.mp ha
  have hbefore : (xs.take i).zipIdx.filterMap f = [] := by
    refine List.filterMap_eq_nil_iff.mpr fun ⟨c, k⟩ hk => ?_
    have hc := List.mk_mem_zipIdx_iff_getElem?.mp hk
    rw [List.getElem?_take] at hc
    split at hc
    · next hlt => exact hrest hc hlt.ne
    · cases hc
  have hafter : ((xs.drop (i + 1)).zipIdx (i + 1)).filterMap f = [] := by
    refine List.filterMap_eq_nil_iff.mpr fun ⟨c, k⟩ hk => ?_
    obtain ⟨hle, hc⟩ := List.mk_mem_zipIdx_iff_le_and_getElem?_sub.mp hk
    rw [List.getElem?_drop, Nat.add_sub_cancel' hle] at hc
    exact hrest hc (by omega)
  calc xs.zipIdx.filterMap f = (xs.take i ++ xs[i] :: xs.drop (i + 1)).zipIdx.filterMap f := by
        rw [List.getElem_cons_drop, List.take_append_drop]
    _ = [b] := by
        rw [List.zipIdx_append, List.filterMap_append, hbefore, List.zipIdx_cons, Nat.zero_add,
          List.length_take_of_le hi.le, List.filterMap_cons_some hb, hafter]
        rfl

/-- Of the places, one alone hears of an event of a kind of outcome. -/
theorem Bus.Attended.heard {bus : Bus} {i j k : Nat} (h : bus.Attended i j k) (x : Recorded) :
    ((bus.on x.channel).filterMap fun (place, l) => if l.isSpy ∧
      place ∈ [i, j, k] then some x else none) = [x] := by
  -- one of the places is on the channel of the outcome, the other two are not
  have hplace : ∃ place ∈ [i, j, k], (∃ spy, bus[place]? = some (x.channel, .spy spy)) ∧
      ∀ place' ∈ [i, j, k], ∀ l, bus[place']? = some (x.channel, l) → place' = place := by
    obtain ⟨⟨a, ha⟩, ⟨b, hb⟩, ⟨c, hc⟩⟩ := h
    unfold Recorded.channel
    split <;> simp [*]
  obtain ⟨place, hmem, ⟨spy, hspy⟩, hunique⟩ := hplace
  generalize [i, j, k] = places at hmem hunique ⊢
  unfold Bus.on
  rw [List.filterMap_filterMap]
  refine zipIdx_filterMap_single hspy ?_ fun {entry k'} hentry hne => ?_
  · simp [Listener.isSpy, hmem]
  · obtain ⟨c, l⟩ := entry
    by_cases hc : c = x.channel
    · subst hc
      have hout : k' ∉ places := fun hin => hne (hunique k' hin l hentry)
      simp [hout]
    · simp [hc]

namespace Run

theorem told_hear {place : Nat} {l : Listener} {e : Event} {u : Unit} (places : List Nat)
    (h : (hear place l e).Yields s u s') :
    s'.told places = s.told places ++ (if l.isSpy ∧ place ∈ places then e.outcome? else
      none).toList := by
  cases l with
  | silent =>
    obtain ⟨-, rfl⟩ := yields_pure.mp h
    simp [Listener.isSpy]
  | spy spy =>
    obtain ⟨t, rfl⟩ := yields_hear h
    simp only [RunState.told, RunState.noted, List.reverse_cons, List.filterMap_append,
      Listener.isSpy, true_and]
    congr 1

/-- Whoever is told of an event sits on its channel. -/
theorem told_tell {bus : Bus} {e : Event} {u : Unit} (places : List Nat)
    (h : (tell bus e).Yields s u s') :
    s'.told places = s.told places ++
      (bus.on e.channel).filterMap fun (place, l) => if l.isSpy ∧
      place ∈ places then e.outcome? else none := by
  unfold tell at h
  generalize bus.on e.channel = listeners at h ⊢
  induction listeners generalizing s with
  | nil =>
    obtain ⟨-, rfl⟩ := yields_pure.mp h
    simp
  | cons listener rest ih =>
    obtain ⟨_, s₁, hhear, hrest⟩ := yields_bind.mp h
    rw [ih hrest, told_hear places hhear, List.append_assoc, List.filterMap_cons]
    dsimp only
    cases if listener.2.isSpy ∧ listener.1 ∈ places then e.outcome? else none <;> rfl

/-! ## Each part of a run keeps the agreement -/

variable {bus : Bus} {env : Surroundings}

/-- The invariant: if record and listeners agreed before a part of the run, they do so after it. -/
abbrev KeepsAgreement (bus : Bus) {α : Type} (x : Run φ α) :
    Prop := Keeps (fun s s' => s.Agrees bus → s'.Agrees bus) x

instance : IsPreorder (RunState φ) fun s s' => s.Agrees bus → s'.Agrees bus where
  refl _ := id
  trans _ _ _ h h' hs := h' (h hs)

theorem modify_agrees {f : RunState φ → RunState φ} (hrecord : ∀ s, (f s).record = s.record)
    (hheard : ∀ s, (f s).heard = s.heard) :
    KeepsAgreement bus (modify f : Run φ PUnit) := fun s _ _ h hs => by
  obtain rfl := yields_modify.mp h
  exact hs.congr (hrecord s) (hheard s)

/-- What is told besides outcomes leaves record and listeners as they are. -/
theorem tell_agrees {e : Event} (he : e.outcome? = none) :
    KeepsAgreement bus (tell bus e : Run φ Unit) :=
  fun s _ s' h hs => by
    have hrecord := record_tell h
    refine ⟨by rw [hrecord, ← hs.record], fun {i j k} ha => ?_⟩
    rw [told_tell [i, j, k] h, hs.told ha, hrecord]
    simp [he]

/-- An outcome is recorded first, and then told to one of the three who attend. -/
theorem report_agrees (x : Recorded) :
    KeepsAgreement env.bus (report env x : Run φ Unit) := fun s _ s' hy hs => by
  obtain ⟨_, s₁, hnote, hrest⟩ := yields_bind.mp hy
  obtain rfl := yields_modify.mp hnote
  obtain ⟨shown, _, hspot, htell⟩ := yields_bind.mp hrest
  obtain ⟨rfl, rfl⟩ := yields_look.mp hspot
  have hrecord : s'.record = .of (s.record.outcomes ++ [x]) := by
    rw [record_tell htell, ← Record.add_of, ← hs.record]
  refine ⟨by rw [hrecord]; rfl, fun {i j k} ha => ?_⟩
  have htold := told_tell [i, j, k] htell
  simp only [Recorded.channel_event, Recorded.outcome?_event] at htold
  rw [htold, ha.heard x, hrecord]
  exact congrArg (· ++ [x]) (hs.told ha)

theorem ask_agrees {name : String} {request : RunRequest} :
    KeepsAgreement bus (ask env name request : Run φ _) := by
  refine .bind (.bind .get fun _ => .bind ?_ fun _ => .pure) fun verdict => ?_
  · exact modify_agrees (fun _ => rfl) fun _ => rfl
  · split
    · exact .throw
    · exact .pure

/-- The agreement looks at one run alone. -/
theorem agreement_lockstep [i : Fixture φ] :
    Lockstep i i env env fun _ x _ => KeepsAgreement env.bus x where
  resource := rfl
  fixtureName := rfl
  context := rfl
  maxDepth := rfl
  name := rfl
  pure _ := .pure
  bind hx hf := .bind hx hf
  throw _ := .throw
  getting hxy _ _ := .bind .get hxy
  modify hf := modify_agrees (fun s => (hf s).1.record) fun s => (hf s).1.heard
  log _ _ := modify_agrees (fun _ => rfl) fun _ => rfl
  evaluate _ := .bind .get fun _ => .bind (modify_agrees (fun _ => rfl) fun _ => rfl) fun _ => .pure
  assign _ _ := .bind .get fun _ => .bind (modify_agrees (fun _ => rfl) fun _ => rfl) fun _ => .pure
  tell := tell_agrees
  report := report_agrees
  ask _ _ _ := ask_agrees

/-! ## Whole runs -/

/-- Wherever a part begins, its answer and the state that it leaves are related by `P`. -/
def Ends {α : Type} (P : α → RunState φ → Prop) (x : Run φ α) : Prop :=
  ∀ s a s', x.Yields s a s' → P a s'

theorem Ends.after {α β : Type} {P : β → RunState φ → Prop} {x : Run φ α} {f : α → Run φ β}
    (h : ∀ a, Ends P (f a)) :
    Ends P (x >>= f) := fun _ b s' hy => by
  obtain ⟨a, s₁, -, hrest⟩ := yields_bind.mp hy
  exact h a s₁ b s' hrest

end Run

/-- What a summary says is what listeners on the bus were told: the outcomes in their order, each
with its element and its data. The rest follows from these: the number of successes among them, the
details of failures and of exceptions in their order, and whether there are only successes. -/
structure RunState.Tells (bus : Bus) (summary : Summary) (s : RunState φ) : Prop where
  told : ∀ {i j k}, bus.Attended i j k → s.told [i, j, k] = summary.record.outcomes
  successes : summary.record.successes = summary.record.outcomes.countP fun x =>
    x.outcome = .success
  failures : summary.record.failures = summary.record.outcomes.filterMap Recorded.failure?
  exceptions : summary.record.exceptions = summary.record.outcomes.filterMap Recorded.exception?
  isSuccess : summary.isSuccess = true ↔ ∀ x ∈ summary.record.outcomes, x.outcome = .success

/-- At the end of a run that keeps the agreement, the summary is as it should be. -/
theorem RunState.Agrees.tells {bus : Bus} (h : s.Agrees bus) (resource : Resource) :
    s.Tells bus ⟨resource, s.record⟩ where
  told := h.told
  successes := congrArg Record.successes h.record
  failures := congrArg Record.failures h.record
  exceptions := congrArg Record.exceptions h.record
  isSuccess := by
    have h' := Summary.isSuccess_of resource s.record.outcomes
    rwa [← h.record] at h'

namespace Engine

open Run

variable [Fixture φ] {e : Engine φ} {set : ExtensionSet} {env : Surroundings} {output : Output}

omit [Fixture φ] in
theorem paint_record {diagnostics : List Diagnostic}
    (h : (paint : Run φ _).Yields s diagnostics s') :
    s'.record = s.record := by
  obtain ⟨_, _, hget, hrest⟩ := yields_bind.mp h
  obtain ⟨rfl, rfl⟩ := yields_get.mp hget
  obtain ⟨_, _, hchange, hpure⟩ := yields_bind.mp hrest
  obtain ⟨-, rfl⟩ := yields_pure.mp hpure
  rw [yields_change.mp hchange]

/-- The summary of a finished run is that of its record: nothing is recorded once the outcomes are
painted. -/
theorem pipeline_summary :
    Ends (fun output s' => output.summary = ⟨env.resource, s'.record⟩)
    (e.pipeline set env : Run φ Output) := by
  refine .after fun _ => .after fun _ => .after fun s => ?_
  dsimp only
  split
  · refine .after fun g => .after fun _ => .after fun _ => .after fun _ =>
      .after fun _ s output s' h => ?_
    obtain ⟨_, s₁, hget, hrest⟩ := yields_bind.mp h
    obtain ⟨rfl, rfl⟩ := yields_get.mp hget
    obtain ⟨diagnostics, s₂, hpaint, hrest⟩ := yields_bind.mp hrest
    obtain ⟨_, s₃, htell, hrest⟩ := yields_bind.mp hrest
    obtain ⟨_, s₄, hget, hpure⟩ := yields_bind.mp hrest
    obtain ⟨rfl, rfl⟩ := yields_get.mp hget
    obtain ⟨rfl, rfl⟩ := yields_pure.mp hpure
    rw [record_tell htell, paint_record hpaint]
  · intro _ _ _ h
    obtain ⟨_, _, hthrow, -⟩ := yields_bind.mp h
    exact absurd hthrow not_yields_throw

/-- **Listeners are told of the outcomes in the summary.** Three spies that listen on the bus of a
finished run to assertions, exceptions and rows were told of exactly the outcomes of the summary, in
their order, each with its element and its data. The rest of the summary is what these outcomes say.
-/
theorem summary_as_told {nested : Nested} {context : Context} {fixture : φ} {html : String}
    {resource : Resource} {world : World} {after : φ × World}
    (hrun : e.processUsing nested context fixture html resource world = (.ok output, after)) :
    ∃ set s', ExtensionSet.of (e.extensions ++ Fixture.extensions fixture) = .ok set ∧
      (e.pipeline set (e.surroundings set nested context fixture resource)).Yields
        (start fixture html world) output s' ∧
      after = (s'.scope.fixture, s'.world) ∧ s'.Tells set.listeners output.summary := by
  rw [processUsing_eq] at hrun
  split at hrun
  · cases hrun
  · next set hset =>
    have hyields := yields_result (Prod.ext_iff.mp hrun).1
    refine ⟨set, _, hset, hyields, (Prod.ext_iff.mp hrun).2.symm, ?_⟩
    rw [pipeline_summary _ _ _ hyields]
    exact (agreement_lockstep.pipeline rfl rfl rfl rfl hyields ⟨rfl, fun _ => rfl⟩).tells resource

end Engine

namespace Sample

/-- A spy that accepts everything. -/
def patient : Listener := .spy ⟨"patient", fun _ => none, ⟨none, none⟩, fun _ => none⟩

/-- An engine whose runs a spy listens to. -/
def attended : Engine StockFixture where
  config := { Config.standard with embedDefaultCss := false }
  extensions :=
    [⟨"attended", [.listeners [(.assertion, patient), (.exceptions, patient), (.rows, patient)]]⟩]
  runners := []

/-- A document with an assertion that holds, one that does not, and one that cannot be evaluated. -/
def mixed : String :=
  "<html xmlns:c=\"" ++ builtInNamespace ++
    "\"><p c:assertEquals=\"x\">1</p><p c:assertEquals=\"x\">2</p>"
    ++ "<p c:assertEquals=\"y\">3</p></html>"

/-- A fixture with one property. -/
def one : StockFixture := .data "One" [("x", .int 1)]

/-- Nested runs without runners. -/
def nobody : Engine.Nested := fun name _ => return .error (.unknownRunner name)

/-- The run of that document. -/
def mixedRun : Engine.Result StockFixture :=
  attended.processUsing nobody .outermost one mixed ⟨["mixed"]⟩ .empty

/-- What was found out in that run. The exception comes first, since values are compared after all
were computed. -/
def mixedOutcomes : List Recorded :=
  [⟨8, .exception "y" (.targetNotFound "y" "y")⟩, ⟨4, .success⟩, ⟨6, .failure "2" "1"⟩]

end Sample

/-- The spy sits on the bus of this run in three places, and was told of all three outcomes. -/
theorem Engine.summary_as_told_mixed :
    ∃ output after set s', Sample.mixedRun = (.ok output, after) ∧
    (Sample.attended.pipeline set
      (Sample.attended.surroundings set Sample.nobody .outermost Sample.one ⟨["mixed"]⟩)).Yields
        (Engine.start Sample.one Sample.mixed .empty) output s' ∧
    set.listeners.Attended 0 1 2 ∧ s'.told [0, 1, 2] = Sample.mixedOutcomes ∧
      output.summary.record.outcomes = Sample.mixedOutcomes := by
  have houtcomes : (Sample.mixedRun.1.map fun o => o.summary.record.outcomes).toOption =
      some Sample.mixedOutcomes := by
    decide +kernel
  have hbus : (ExtensionSet.of Sample.attended.extensions).toOption.all fun set =>
      set.listeners.Attended 0 1 2 := by
    decide +kernel
  rcases hrun : Sample.mixedRun with ⟨_ | output, after⟩
  · rw [hrun] at houtcomes
    cases houtcomes
  · obtain ⟨set, s', hset, hyields, -, htells⟩ := Engine.summary_as_told hrun
    have hset : ExtensionSet.of Sample.attended.extensions = .ok set := hset
    rw [hset] at hbus
    rw [hrun] at houtcomes
    have hattended : set.listeners.Attended 0 1 2 := of_decide_eq_true hbus
    have houtcomes : output.summary.record.outcomes = Sample.mixedOutcomes :=
      Option.some.inj houtcomes
    exact ⟨output, after, set, s', rfl, hyields, hattended,
      (htells.told hattended).trans houtcomes, houtcomes⟩

end LiveSpec
