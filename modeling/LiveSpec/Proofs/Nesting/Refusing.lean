import LiveSpec.Proofs.Graph.Structure
import LiveSpec.Proofs.Nesting.Account
import LiveSpec.Proofs.Run.Slots
import LiveSpec.Proofs.Tree.Contents

/-!
# Runs that are refused

A `run` that executes in a run at the greatest depth is refused: one exception is recorded at its
element, and nothing is read or run. When it prepares or compares it does nothing; that it has no
verdict to compare is a matter of slots. A `run` compares the verdict in its own slot, and no other
call keeps a value there. The calls of the graph have slots of their own, and so do the calls that a
table moves to its rows, whatever these keep (`Booked`).

`Refused` tells the visits and the outcomes of such a run together, one after the other. An element
at which nothing but `run` calls did their part has one outcome for each that executed, and no other
(`Refused.outcomesAt`).
-/

namespace LiveSpec

open Markup (NodeId Tree)

variable {φ : Type} {s s' : RunState φ}

/-! ## Slots -/

/-- The calls of a run so far, those of its graph and those that were moved to rows: they stand at
elements, each has a slot of its own, and values are kept in the slots of calls other than `run`
alone. -/
structure Booked (known : List Occurrence) (s : RunState φ) : Prop where
  elements : ∀ o ∈ known, s.tree.isElement o.element = true
  distinct : (known.map Occurrence.slot).Nodup
  taken : ∀ o ∈ known, o.slot < s.nextSlot
  kept : ∀ entry ∈ s.kept, ∃ o ∈ known, o.slot = entry.1 ∧ o.command ≠ .run

namespace Booked

variable {known : List Occurrence} {o : Occurrence}

/-- Nothing is kept in the slot of a `run`. -/
theorem lookup (h : Booked known s) (ho : o ∈ known) (hrun : o.command = .run) :
    s.kept.lookup o.slot = none := by
  apply List.lookup_eq_none_iff.mpr
  intro entry hentry
  simp only [bne_iff_ne, ne_eq]
  intro hslot
  obtain ⟨o', ho', hsame, hne⟩ := h.kept entry hentry
  have heq : o' = o := List.inj_on_of_nodup_map h.distinct ho' ho (hsame.trans hslot.symm)
  exact hne (heq ▸ hrun)

/-- Where a call other than `run` keeps values in its slot. -/
theorem keeping (h : Booked known s) (ho : o ∈ known) (hne : o.command ≠ .run)
    (hs : Keeping o.slot s s') (ht : s.tree.SameElements s'.tree) : Booked known s' where
  elements o ho := ht.isElement (h.elements o ho)
  distinct := h.distinct
  taken := hs.nextSlot ▸ h.taken
  kept := by
    obtain ⟨vs, hvs⟩ := hs.kept
    intro entry hentry
    rw [hvs] at hentry
    rcases List.mem_append.mp hentry with hnew | hold
    · obtain ⟨v, -, rfl⟩ := List.mem_map.mp hnew
      exact ⟨o, ho, rfl, hne⟩
    · exact h.kept entry hold

/-- Where no value is kept, and no slot is taken. -/
theorem next (h : Booked known s) (hkept : s'.kept = s.kept) (hslot : s'.nextSlot = s.nextSlot)
    (ht : s.tree.SameElements s'.tree) : Booked known s' where
  elements o ho := ht.isElement (h.elements o ho)
  distinct := h.distinct
  taken := hslot ▸ h.taken
  kept := hkept ▸ h.kept

/-- Calls that are moved to a row get slots of their own. -/
theorem moved (h : Booked known s) {calls : List Occurrence}
    (hcalls : ∀ o ∈ calls, s.tree.isElement o.element = true)
    (hslots : calls.map Occurrence.slot = List.range' s.nextSlot calls.length)
    (hs : s' = { s with nextSlot := s.nextSlot + calls.length }) : Booked (known ++ calls) s' := by
  subst hs
  have hrange : ∀ o ∈ calls, s.nextSlot ≤ o.slot ∧ o.slot < s.nextSlot + calls.length := by
    intro o ho
    have hmem : o.slot ∈ List.range' s.nextSlot calls.length := hslots ▸ List.mem_map_of_mem ho
    exact List.mem_range'_1.mp hmem
  constructor
  case elements =>
    intro o ho
    exact (List.mem_append.mp ho).elim (h.elements o) (hcalls o)
  case distinct =>
    rw [List.map_append, hslots]
    refine h.distinct.append List.nodup_range' ?_
    intro slot hknown hnew
    obtain ⟨o, ho, rfl⟩ := List.mem_map.mp hknown
    exact absurd (h.taken o ho) (Nat.not_lt.mpr (List.mem_range'_1.mp hnew).1)
  case taken =>
    intro o ho
    rcases List.mem_append.mp ho with ho | ho
    · exact Nat.lt_of_lt_of_le (h.taken o ho) (Nat.le_add_right _ _)
    · exact (hrange o ho).2
  case kept =>
    intro entry hentry
    obtain ⟨o, ho, hboth⟩ := h.kept entry hentry
    exact ⟨o, List.mem_append_left _ ho, hboth⟩

/-- At the start the calls of the graph have the slots up to its size, and nothing is kept. -/
theorem start {r : Registry} {g : CallGraph} (hgraph : CallGraph.ofTree s.tree r = .ok g)
    (hkept : s.kept = []) (hslot : s.nextSlot = g.size) : Booked g.walk s := by
  have hslots := CallGraph.slots_ofTree hgraph
  refine ⟨fun o => CallGraph.isElement_ofTree hgraph, hslots ▸ List.nodup_range,
    ?_, by simp [hkept]⟩
  intro o ho
  have hmem : o.slot ∈ List.range g.size := hslots ▸ List.mem_map_of_mem ho
  exact hslot ▸ List.mem_range.mp hmem

end Booked

/-! ## What is recorded -/

/-- What is recorded for a `run` that goes one level deeper than allowed. -/
def tooDeep (limit depth : Nat) (o : Occurrence) : EvaluationError :=
  .thrown o.expression (RunnerError.depthExceeded (depth + 1) limit).message []

/-- What is recorded for a `run` without a link. -/
def noLink (o : Occurrence) : EvaluationError :=
  .syntaxFault o.expression "run requires an href attribute"

/-- What is recorded for a `run` that executes at the greatest depth: that it goes too deep, if it
has a link. -/
def refusal (limit depth : Nat) (t : Tree) (o : Occurrence) : EvaluationError :=
  match t.attribute? o.element "href" with
  | some _ => tooDeep limit depth o
  | none => noLink o

/-- An element at which others than a `run` record outcomes: a row, or the element of another call
that did its part. -/
def Foreign (t : Tree) (visits : List (Phase × Occurrence)) (n : NodeId) : Prop :=
  t.isNamed n "tr" = true ∨ ∃ v ∈ visits, v.2.command ≠ .run ∧ v.2.element = n

/-- The visits of a run and its outcomes, told together from the start, if each `run` that executes
is refused. -/
inductive Refused (limit depth : Nat) (t : Tree) : List (Phase × Occurrence) → List Recorded → Prop
  | start : Refused limit depth t [] []
  /-- A call comes to do its part: one of another command, or a `run` that prepares or compares. -/
  | visited {visits : List (Phase × Occurrence)} {outcomes : List Recorded} {p : Phase}
    {o : Occurrence}
    (h : Refused limit depth t visits outcomes) (ho : o.command = .run → p ≠ .execute) :
    Refused limit depth t (visits ++ [(p, o)]) outcomes
  /-- A `run` executes, and that is recorded as an exception. -/
  | refused {visits : List (Phase × Occurrence)} {outcomes : List Recorded} {o : Occurrence}
    (h : Refused limit depth t visits outcomes) (ho : o.command = .run)
      (element : t.isElement o.element = true) :
    Refused limit depth t (visits ++ [(.execute, o)])
      (outcomes ++ [⟨o.element, .exception o.expression (refusal limit depth t o)⟩])
  /-- An outcome is recorded by something else than a `run`. -/
  | elsewhere {visits : List (Phase × Occurrence)} {outcomes : List Recorded} {x : Recorded}
    (h : Refused limit depth t visits outcomes) (foreign : Foreign t visits x.element) :
    Refused limit depth t visits (outcomes ++ [x])

section

variable {limit depth : Nat} {t t' : Tree} {visits visits' : List (Phase × Occurrence)}
  {outcomes : List Recorded} {o : Occurrence} {n : NodeId}

theorem Foreign.mono (h : Foreign t visits n) (ht : t.SameElements t')
    (hvisits : visits <+: visits') :
    Foreign t' visits' n := by
  rcases h with hrow | ⟨v, hv, hrun⟩
  · exact .inl (ht.isNamed hrow (by cbv))
  · exact .inr ⟨v, hvisits.subset hv, hrun⟩

theorem refusal_congr (ht : t.SameElements t') (ho : t.isElement o.element = true) :
    refusal limit depth t' o = refusal limit depth t o := by
  unfold refusal
  rw [ht.attribute? ho (by cbv)]

namespace Refused

/-- It does not matter if nodes and classes are added. -/
theorem mono (h : Refused limit depth t visits outcomes) (ht : t.SameElements t') :
    Refused limit depth t' visits outcomes := by
  induction h with
  | start => exact .start
  | visited _ ho ih => exact .visited ih ho
  | refused _ ho element ih =>
    rw [← refusal_congr ht element]
    exact .refused ih ho (ht.isElement element)
  | elsewhere _ foreign ih => exact .elsewhere ih (foreign.mono ht List.prefix_rfl)

/-- Several outcomes are recorded by something else than a `run`. -/
theorem append (h : Refused limit depth t visits outcomes) {xs : List Recorded}
    (hxs : ∀ x ∈ xs, Foreign t visits x.element) :
    Refused limit depth t visits (outcomes ++ xs) := by
  induction xs generalizing outcomes with
  | nil => rwa [List.append_nil]
  | cons x xs ih =>
    rw [← List.singleton_append, ← List.append_assoc]
    exact ih (.elsewhere h (hxs x List.mem_cons_self)) fun y hy => hxs y (List.mem_cons_of_mem x hy)

/-- **One exception for each `run` that executes.** At an element at which nothing but `run` calls
did their part, and which is no row, the outcomes are the exceptions of those that executed. -/
theorem outcomesAt {r : Record} (h : Refused limit depth t visits r.outcomes)
    (hrow : t.isNamed n "tr" = false) (hruns : ∀ v ∈ visits, v.2.element = n → v.2.command = .run) :
    r.outcomesAt n = (visits.filter fun v => v.1 = .execute ∧ v.2.element = n).map fun v =>
      .exception v.2.expression (refusal limit depth t v.2) := by
  unfold Record.outcomesAt
  generalize r.outcomes = outcomes at h
  induction h with
  | start => rfl
  | @visited visits outcomes p o _ ho ih =>
    have hnot : ¬ (p = .execute ∧ o.element = n) :=
      fun ⟨hp, hn⟩ => ho (hruns (p, o) (by simp) hn) hp
    rw [List.filter_append, List.filter_cons_of_neg (by simpa using hnot), List.filter_nil,
      List.append_nil]
    exact ih fun v hv => hruns v (List.mem_append_left _ hv)
  | @refused visits outcomes o _ ho _ ih =>
    rw [List.filter_append, List.filter_append, List.map_append, List.map_append,
      ih fun v hv => hruns v (List.mem_append_left _ hv)]
    by_cases hn : o.element = n
    · simp [hn]
    · simp [hn]
  | @elsewhere visits outcomes x _ foreign ih =>
    have hne : x.element ≠ n := by
      rintro rfl
      rcases foreign with hnamed | ⟨v, hv, hne, hat⟩
      · rw [hrow] at hnamed
        cases hnamed
      · exact hne (hruns v hv hat)
    rw [List.filter_append, List.filter_cons_of_neg (by simpa using hne), List.filter_nil,
      List.append_nil]
    exact ih hruns

end Refused

end

/-! ## A `run` at the greatest depth -/

/-- What it is for a call to have one exception recorded when it executes, and to do nothing else:
no value is kept, no document is read, and nothing is run. -/
structure Excepted (o : Occurrence) (error : EvaluationError) (s s' : RunState φ) : Prop where
  visits : s'.visits = s.visits ++ [(.execute, o)]
  outcomes : s'.record.outcomes = s.record.outcomes ++ [⟨o.element, .exception o.expression error⟩]
  tree : s'.tree = s.tree
  kept : s'.kept = s.kept
  nextSlot : s'.nextSlot = s.nextSlot
  requests : s'.world.requests = s.world.requests
  outputs : s'.world.outputs = s.world.outputs

namespace Run

variable {env : Surroundings} {o : Occurrence} {p : Phase}

/-- An exception is recorded once and told of, whoever refuses to hear of it. -/
theorem excepted_visit {error : EvaluationError} :
    Excepted o error s
      ((visit .execute o (recordException env o.element o.expression error)).result s).2 := by
  have htold :
      Overheard (.exceptionCaught ⟨o.element, s.tree.describe o.element⟩ o.expression error)
      { s with
        visits := s.visits ++ [(.execute, o)]
        record := s.record.exception o.element o.expression error }
      ((visit .execute o (recordException env o.element o.expression error)).result s).2 :=
    tell_overheard _
  obtain ⟨heard, hlog⟩ := htold.log
  refine ⟨htold.visits, ?_, ?_, htold.kept, htold.nextSlot, ?_, htold.outputs⟩
  · rw [htold.record]
    rfl
  · exact htold.tree.resolve_left (by simp [Event.channel])
  · unfold World.requests
    rw [hlog, List.filterMap_append, List.filterMap_map]
    simp [Function.comp_def, LogEntry.requested?]

/-- A `run` that goes too deep, or has no link. -/
theorem result_runLinked_execute (hlimit : env.maxDepth ≤ env.context.depth) :
    (runLinked env o .execute).result s =
      (recordException env o.element o.expression
        (refusal env.maxDepth env.context.depth s.tree o)).result s := by
  have hdeep : env.context.depth + 1 > env.maxDepth := by omega
  unfold runLinked refusal
  dsimp only
  rw [result_bind, result_look]
  dsimp only
  cases s.tree.attribute? o.element "href" with
  | none => rfl
  | some href =>
    dsimp only
    rw [if_pos hdeep, pure_bind]
    rfl

/-- A `run` that has no verdict to compare. -/
theorem result_runLinked_verify (hkept : s.kept.lookup o.slot = none) :
    (runLinked env o .verify).result s = (.ok (), s) := by
  unfold runLinked
  dsimp only
  rw [result_bind, result_kept?]
  dsimp only
  rw [hkept]
  rfl

/-- A `run` that executes at the greatest depth is refused. -/
theorem excepted_runLinked (hlimit : env.maxDepth ≤ env.context.depth) :
    Excepted o (refusal env.maxDepth env.context.depth s.tree o) s
      ((visit .execute o (runLinked env o .execute)).result s).2 := by
  let visited : RunState φ := { s with visits := s.visits ++ [(.execute, o)] }
  have hresult := result_runLinked_execute (o := o) (s := visited) hlimit
  show Excepted o _ s ((runLinked env o .execute).result visited).2
  rw [hresult]
  exact excepted_visit

/-- A `run` that prepares, or compares with nothing kept in its slot, does nothing but to be
visited. -/
theorem result_visit_runLinked (hp : p ≠ .execute) (hkept : s.kept.lookup o.slot = none) :
    (visit p o (runLinked env o p)).result s = (.ok (),
      { s with visits := s.visits ++ [(p, o)] }) := by
  cases p with
  | setup => rfl
  | execute => exact absurd rfl hp
  | verify =>
    exact result_runLinked_verify (s := { s with visits := s.visits ++ [(.verify, o)] }) hkept

end Run

end LiveSpec
