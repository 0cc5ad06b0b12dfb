import LiveSpec.Proofs.Isolation.Failure

/-!
# A run and the run without one of its calls

A call that comes upon an error of evaluation can as well be deleted from the graph: the run over
what is left comes to the other calls in the same order, and records the same outcomes of them
(`runGraph_isolated`).

The two runs go side by side. Up to the visit in which the call executes they are twins without any
difference in their outcomes, since the call has done nothing so far. There it fails, and from then
on the twins differ in that one outcome. Were the expression to have a value, then no error of
evaluation would be recorded at all (`Adds`).
-/

namespace LiveSpec

open Markup (NodeId Tree)

variable {φ : Type} {g : CallGraph} {c o : Occurrence} {t : Tree}

namespace CallGraph

/-- A call that can be taken out of a graph: no calls stand inside it, and all others are apart from
it. Every call of the graph is one of a built-in command that works on no rows. -/
structure Removable (g : CallGraph) (t : Tree) (c : Occurrence) : Prop where
  mem : c ∈ g.walk
  childless : g.Childless c
  once : g.walk.Nodup
  ordinary {o : Occurrence} : o ∈ g.walk → o.Ordinary t
  plain {o : Occurrence} : o ∈ g.walk → o.Plain t
  apart {o : Occurrence} : o ∈ g.walk → o ≠ c → o.ApartFrom t c

/-- In the graph of a document, a call without calls inside it can be taken out. -/
theorem removable_of_tree {r : Registry} (ht : t.Coherent) (hgraph : ofTree t r = .ok g)
    (hcalls : ∀ o ∈ g.walk, o.Ordinary t) (hc : c ∈ g.walk) (hchildless : g.Childless c) :
    g.Removable t c := by
  obtain ⟨root, hroot, hmirrors⟩ := graph_mirrors_document ht hgraph
  have hslots : (g.walk.map Occurrence.slot).Nodup := slots_ofTree hgraph ▸ List.nodup_range
  have helement : ∀ o ∈ g.walk, t.isElement o.element = true :=
    fun o ho => isElement_ofTree hgraph ho
  constructor
  · exact hc
  · exact hchildless
  · exact hslots.of_map _
  · exact fun ho => hcalls _ ho
  · exact fun ho => (hcalls _ ho).plain (helement _ ho)
  · intro o ho hne
    refine ⟨hmirrors.not_under ht hroot hc hchildless ho hne,
      Tree.lt_size_of_isElement (helement o ho), fun hslot => ?_⟩
    exact hne (List.inj_on_of_nodup_map hslots ho hc hslot)

theorem mem_schedule {v : Phase × Occurrence} : v ∈ g.schedule → v.2 ∈ g.walk := by
  intro hv
  obtain ⟨p, -, hv⟩ := List.mem_flatMap.mp hv
  obtain ⟨o, ho, rfl⟩ := List.mem_map.mp hv
  exact (Call.orderAll_perm p g.roots).mem_iff.mp ho

theorem nodup_schedule (h : g.walk.Nodup) : g.schedule.Nodup := by
  have hpass : ∀ p, ((Call.orderAll p g.roots).map (Prod.mk p)).Nodup := fun p =>
    ((Call.orderAll_perm p g.roots).nodup_iff.mpr h).map (Prod.mk_right_injective p)
  have hapart : ∀ {p p' : Phase}, p ≠ p' →
      List.Disjoint ((Call.orderAll p g.roots).map (Prod.mk p))
        ((Call.orderAll p' g.roots).map (Prod.mk p')) := by
    intro p p' hne v hv hv'
    obtain ⟨o, -, rfl⟩ := List.mem_map.mp hv
    obtain ⟨o', -, ho'⟩ := List.mem_map.mp hv'
    exact hne (congrArg Prod.fst ho').symm
  refine List.nodup_flatMap.mpr ⟨fun p _ => hpass p, ?_⟩
  refine List.Pairwise.imp (fun hne => hapart hne)
    (?_ : List.Pairwise (· ≠ ·) [Phase.setup, .execute, .verify])
  decide

/-- The visit in which a call executes, and those before and after it. -/
theorem exists_execution (h : g.walk.Nodup) (hc : c ∈ g.walk) : ∃ before after,
    g.schedule = before ++ (.execute, c) :: after ∧ (.execute, c) ∉ before ++ after := by
  have hmem : (Phase.execute, c) ∈ g.schedule := by
    refine List.mem_flatMap.mpr ⟨.execute, by decide, List.mem_map_of_mem ?_⟩
    exact (Call.orderAll_perm .execute g.roots).mem_iff.mpr hc
  obtain ⟨before, after, hsplit⟩ := List.append_of_mem hmem
  have hnodup := nodup_schedule h
  rw [hsplit] at hnodup
  exact ⟨before, after, hsplit, (List.nodup_cons.mp (List.nodup_middle.mp hnodup)).1⟩

end CallGraph

namespace Run

variable [Fixture φ] {env : Surroundings} {same : φ → φ → Prop} {xs : List Recorded}
  {s s' : RunState φ} {vs : List (Phase × Occurrence)}

/-- The visits of a list, one after the other, each by itself. -/
abbrev visitAll (env : Surroundings) (vs : List (Phase × Occurrence)) : Run φ Unit :=
  vs.forM fun v => stepAlone env v.1 v.2

theorem visitAll_cons {v : Phase × Occurrence} : (visitAll env (v :: vs) : Run φ Unit) =
    stepAlone env v.1 v.2 >>= fun _ => visitAll env vs := List.forM_cons

theorem visitAll_append {ws : List (Phase × Occurrence)} : (visitAll env (vs ++ ws) : Run φ Unit) =
    visitAll env vs >>= fun _ => visitAll env ws := List.forM_append

variable (h : g.Removable t c)
include h

/-! ## Beside the execution of the call -/

/-- A visit in which the call does not execute records no error of evaluation of it. -/
theorem stepAlone_adds (hrun : c.command ≠ .run) {v : Phase × Occurrence}
    (hv : v.2 ∈ g.walk ∧ v ≠ (.execute, c)) :
    Always (Adds fun x => ¬ c.Lacks x) (stepAlone env v.1 v.2 : Run φ Unit) := by
  obtain ⟨p, o⟩ := v
  obtain ⟨ho, hidle⟩ := hv
  have hordinary := h.ordinary ho
  rw [stepAlone_eq]
  refine .bind (.modify fun _ => .none rfl) fun _ => ?_
  by_cases hoc : o = c
  · subst hoc
    exact part_adds hordinary.builtIn hordinary.rowless hrun fun hp => hidle (Prod.ext hp rfl)
  · refine (part_always hordinary.builtIn hordinary.rowless).mono fun hdeeds =>
      (Adds.of_deeds hdeeds).mono ?_
    rintro _ hx ⟨error, rfl, -⟩
    exact (h.apart ho hoc).ne hx.symm

variable (hsteady : Fixture.Steady same) (hbus : env.bus.Accepts) (hnested : env.Oblivious)
include hsteady hbus hnested

/-- **Twins stay twins, while the call does not execute.** One of them comes to the call and the
other does not. -/
theorem visitAll_twins (hvs : ∀ v ∈ vs, v.2 ∈ g.walk ∧ v ≠ (.execute, c))
    (htwins : Twins t same c elementVariables xs s s') :
    ((visitAll env (vs.filter fun v => v.2 ≠ c)).result s').1 = ((visitAll env vs).result s).1 ∧
      Twins t same c elementVariables xs ((visitAll env vs).result s).2
        ((visitAll env (vs.filter fun v => v.2 ≠ c)).result s').2 := by
  induction vs generalizing s s' with
  | nil => exact ⟨rfl, htwins⟩
  | cons v vs ih =>
    obtain ⟨p, o⟩ := v
    obtain ⟨ho, hidle⟩ := hvs _ List.mem_cons_self
    have hordinary := h.ordinary ho
    have hrest := fun v hv => hvs v (List.mem_cons_of_mem _ hv)
    rw [List.filter_cons]
    by_cases hoc : o = c
    · -- the call is visited in one of the runs, and does nothing there
      subst hoc
      have hstep :
          (stepAlone env p o).result s = (.ok (), { s with visits := s.visits ++ [(p, o)] }) := by
        rw [stepAlone_eq]
        exact part_idle hordinary.builtIn hordinary.rowless
          (fun hp => hidle (Prod.ext hp rfl)) htwins.empty
      have hvisited : (visitAll env ((p, o) :: vs)).result s =
          (visitAll env vs).result { s with visits := s.visits ++ [(p, o)] } := result_bind_of hstep
      rw [if_neg (by simp), hvisited]
      exact ih hrest (htwins.undisturbed ⟨rfl, rfl, rfl, rfl, rfl⟩ ⟨rfl, rfl, rfl, rfl, rfl⟩)
    · rw [if_pos (by simpa using hoc)]
      obtain ⟨hanswer, hstep⟩ :=
        stepAlone_paired (p := p) (h.apart ho hoc) hsteady hbus hnested hordinary.builtIn
        hordinary.rowless htwins
      rw [visitAll_cons, visitAll_cons, result_bind, result_bind]
      rcases hresult : (stepAlone env p o).result s with ⟨a?, s₁⟩
      rcases hresult' : (stepAlone env p o).result s' with ⟨a?', s₁'⟩
      rw [hresult, hresult'] at hanswer hstep
      obtain rfl : a?' = a? := hanswer
      cases a?' with
      | error e => exact ⟨rfl, hstep⟩
      | ok a => exact ih hrest hstep

/-! ## The execution of the call -/

omit hnested in
/-- Where the call executes it fails, and one of the twins has the error of it, or it records no
error of evaluation. -/
theorem execution_twins (hrun : c.command ≠ .run)
    (htwins : Twins t same c elementVariables [] s s') :
    (∃ error s₁, (stepAlone env .execute c).result s = (.ok (), s₁) ∧
      Twins t same c elementVariables [c.excepted error] s₁ s') ∨
    Adds (fun x => ¬ c.Lacks x) s ((stepAlone env .execute c).result s).2 := by
  have hordinary := h.ordinary h.mem
  have hsame : same s.scope.fixture s.scope.fixture := hsteady.left htwins.scope.fixture
  rw [stepAlone_eq]
  rcases part_ventures (s := { s with visits := s.visits ++ [(.execute, c)] }) hsteady hsame hbus
    hordinary.builtIn
    hordinary.rowless hrun with ⟨error, s₁, hresult, hfailed⟩ | hadds
  · refine .inl ⟨error, s₁, hresult, ?_⟩
    exact htwins.failed hsteady ⟨hfailed.tree, hfailed.scope, hfailed.outcomes, hfailed.kept,
      hfailed.held⟩ rfl
  · exact .inr hadds

/-- Visits of which one is the execution of the call. If an error of evaluation is recorded there,
then it is the one difference between the twins. -/
theorem visitAll_isolated {before after : List (Phase × Occurrence)} {x : Recorded}
    (hrun : c.command ≠ .run) (hbefore : ∀ v ∈ before, v.2 ∈ g.walk ∧ v ≠ (.execute, c))
    (hafter : ∀ v ∈ after, v.2 ∈ g.walk ∧ v ≠ (.execute, c))
    (htwins : Twins t same c elementVariables [] s s') (hx : c.Lacks x)
    (hmem : x ∈ ((visitAll env (before ++ (.execute, c) :: after)).result s).2.record.outcomes) :
    ((visitAll env ((before ++ (.execute, c) :: after).filter fun v => v.2 ≠ c)).result s').1 =
        ((visitAll env (before ++ (.execute, c) :: after)).result s).1 ∧
      Twins t same c elementVariables [x]
      ((visitAll env (before ++ (.execute, c) :: after)).result s).2
        ((visitAll env ((before ++ (.execute, c) :: after).filter fun v => v.2 ≠
          c)).result s').2 := by
  have hown : x.element = c.element := by
    obtain ⟨error, rfl, -⟩ := hx
    rfl
  obtain ⟨hanswer, hstates⟩ := visitAll_twins h hsteady hbus hnested hbefore htwins
  have hfilter : (before ++ (.execute, c) :: after).filter (fun v => v.2 ≠ c) =
      before.filter (fun v => v.2 ≠ c) ++ after.filter fun v => v.2 ≠ c := by simp
  rw [visitAll_append, visitAll_cons, result_bind] at hmem
  rw [hfilter, visitAll_append, visitAll_append, visitAll_cons, result_bind, result_bind]
  rcases hresult : (visitAll env before).result s with ⟨a?, s₁⟩
  rcases hresult' : (visitAll env (before.filter fun v => v.2 ≠ c)).result s' with ⟨a?', s₁'⟩
  rw [hresult, hresult'] at hanswer hstates
  rw [hresult] at hmem
  obtain rfl : a?' = a? := hanswer
  cases a?' with
  | error e => exact absurd (hstates.own_of_mem hmem hown) List.not_mem_nil
  | ok a =>
    dsimp only at hmem ⊢
    rcases execution_twins h hsteady hbus hrun hstates with ⟨error, s₂, hfails, hstates⟩ | hadds
    · rw [result_bind_of hfails] at hmem ⊢
      obtain ⟨hanswer, hstates⟩ := visitAll_twins h hsteady hbus hnested hafter hstates
      obtain rfl := List.mem_singleton.mp (hstates.own_of_mem hmem hown)
      exact ⟨hanswer, hstates⟩
    · -- what is recorded from here on is no error of evaluation
      have hrest : Always (Adds fun x => ¬ c.Lacks x) (visitAll env after : Run φ Unit) :=
        .forM fun v hv => stepAlone_adds h hrun (hafter v hv)
      have hall : Adds (fun x => ¬ c.Lacks x) s₁
          ((stepAlone env .execute c >>= fun _ => visitAll env after).result s₁).2 := by
        dsimp only at hadds
        rw [result_bind]
        rcases hexecuted : (stepAlone env .execute c).result s₁ with ⟨e | a, s₂⟩
        · rw [hexecuted] at hadds
          exact hadds
        · rw [hexecuted] at hadds
          exact trans_of (Adds _) hadds (hrest s₂)
      obtain ⟨xs, houtcomes, hnone⟩ := hall
      rw [houtcomes] at hmem
      rcases List.mem_append.mp hmem with hmem | hmem
      · exact absurd (hstates.own_of_mem hmem hown) List.not_mem_nil
      · exact absurd hx (hnone x hmem)

/-- **A call that came upon an error can be deleted.** The run over the graph without it gives the
same answer, and the two runs end as twins. -/
theorem runGraph_isolated {x : Recorded} (hrun : c.command ≠ .run) (hs : s.tree = t)
    (hs' : s'.tree = t) (htwins : Twins t same c elementVariables [] s s') (hx : c.Lacks x)
    (hmem : x ∈ ((runGraph env g).result s).2.record.outcomes) :
    ((runGraph env (g.without c)).result s').1 = ((runGraph env g).result s).1 ∧
      Twins t same c elementVariables [x] ((runGraph env g).result s).2
        ((runGraph env (g.without c)).result s').2 := by
  have hplain : ∀ o ∈ g.walk, o.Plain s.tree := fun o ho => hs ▸ h.plain ho
  have hplain' : ∀ o ∈ (g.without c).walk, o.Plain s'.tree := by
    intro o ho
    rw [CallGraph.walk_without h.childless] at ho
    exact hs' ▸ h.plain (List.mem_of_mem_filter ho)
  obtain ⟨before, after, hsplit, hapart⟩ := CallGraph.exists_execution h.once h.mem
  have hvisits : ∀ v ∈ before ++ after, v.2 ∈ g.walk ∧ v ≠ (.execute, c) := by
    intro v hv
    refine ⟨CallGraph.mem_schedule ?_, fun heq => hapart (heq ▸ hv)⟩
    rw [hsplit]
    exact List.mem_append.mpr ((List.mem_append.mp hv).imp_right fun hv =>
      List.mem_cons_of_mem _ hv)
  rw [runGraph_eq hplain, hsplit] at hmem ⊢
  rw [runGraph_eq hplain', CallGraph.schedule_without h.childless, hsplit]
  exact visitAll_isolated h hsteady hbus hnested hrun
    (fun v hv => hvisits v (List.mem_append_left _ hv))
    (fun v hv => hvisits v (List.mem_append_right _ hv)) htwins hx hmem

end Run
end LiveSpec
