import LiveSpec.Proofs.Listening.Agreement
import LiveSpec.Proofs.Nesting.Refusing
import LiveSpec.Proofs.Outcome.Accounting
import LiveSpec.Proofs.Outcome.Repainting
import LiveSpec.Proofs.Table.Matching

/-!
# Runs at the greatest depth

In a run at the greatest depth every `run` that executes is refused, and nothing is read or run.
`Limited` carries the slots of the calls (`Booked`) and the account of the visits and the outcomes
(`Refused`) through all parts of a run at once, the rows of tables included. With the calls of a row
the list of known calls grows, and with the visit of a call, or with a row, the list of the elements
at which something else than a `run` can record outcomes.

With the account of nested runs this gives the theorem on all runs (`Engine.nested_runs_accounted`).
-/

namespace LiveSpec

open Markup (NodeId Tree TreeError)

variable {φ : Type} {s s' s'' : RunState φ}

/-- The state of a run in which each `run` that executed so far was refused. -/
def RunState.Refuses (s : RunState φ) (limit depth : Nat) : Prop :=
  Refused limit depth s.tree s.visits s.record.outcomes

/-- Elements are what they were, visits are only added, and the account of the visits and the
outcomes goes on. -/
structure Refusing (limit depth : Nat) (s s' : RunState φ) : Prop where
  elements : s.tree.SameElements s'.tree
  visits : s.visits <+: s'.visits
  refused : s.Refuses limit depth → s'.Refuses limit depth

instance {limit depth : Nat} : IsPreorder (RunState φ) (Refusing limit depth) where
  refl _ := ⟨.refl, List.prefix_rfl, id⟩
  trans _ _ _ h h' :=
    ⟨h.elements.trans h'.elements, h.visits.trans h'.visits, h'.refused ∘ h.refused⟩

namespace Run

variable {env : Surroundings} {o : Occurrence} {p : Phase} {ns : List Occurrence}
  {shared : List NodeId} {n : NodeId}

/-! ## Passing through a run -/

/-- From a state with some calls among those of the run, and some elements at which something else
than a `run` can record outcomes: more calls become known at most, and the account goes on. -/
def Limited (env : Surroundings) (ns : List Occurrence) (shared : List NodeId)
    (s s' : RunState φ) : Prop :=
  ∀ known, ns ⊆ known → Booked known s → (∀ n ∈ shared, Foreign s.tree s.visits n) →
    (∃ more, Booked (known ++ more) s') ∧ Refusing env.maxDepth env.context.depth s s'

instance : IsPreorder (RunState φ) (Limited env ns shared) where
  refl s known _ h _ := ⟨⟨[], by rwa [List.append_nil]⟩, refl_of (Refusing _ _) s⟩
  trans s s' s'' h h' known hsub hs hshared := by
    obtain ⟨⟨more, hmore⟩, hgo⟩ := h known hsub hs hshared
    obtain ⟨⟨more', hmore'⟩, hgo'⟩ := h' (known ++ more)
      (fun o ho => List.mem_append_left _ (hsub ho)) hmore
      fun n hn => (hshared n hn).mono hgo.elements hgo.visits
    exact ⟨⟨more ++ more', by rwa [← List.append_assoc]⟩, trans_of (Refusing _ _) hgo hgo'⟩

namespace Limited

/-- What holds from few calls and elements holds from more. -/
theorem mono {ns' : List Occurrence} {shared' : List NodeId} (h : Limited env ns shared s s')
    (hsub : ns ⊆ ns') (hsub' : shared ⊆ shared') :
    Limited env ns' shared' s s' := fun known hknown hs hshared =>
  h known (fun _ ho => hknown (hsub ho)) hs fun n hn => hshared n (hsub' hn)

/-- Elements count among the shared ones from the state on in which they can be told to be some. -/
theorem narrow {elements : List NodeId} (h : Limited env ns (elements ++ shared) s s')
    (helements : ∀ n ∈ elements, Foreign s.tree s.visits n) :
    Limited env ns shared s s' := fun known hknown hs hshared =>
  h known hknown hs fun n hn => (List.mem_append.mp hn).elim (helements n) (hshared n)

/-- Where calls keep what they keep, and outcomes are recorded at shared elements at most. -/
theorem of_adds (hbooked : ∀ known, ns ⊆ known → Booked known s → Booked known s')
    (htree : s.tree.SameElements s'.tree) (hvisits : s'.visits = s.visits)
    (hadds : Adds (fun x => x.element ∈ shared) s s') :
    Limited env ns shared s s' := by
  intro known hknown hs hshared
  refine ⟨⟨[], by rw [List.append_nil]; exact hbooked known hknown hs⟩, htree,
    hvisits ▸ List.prefix_rfl, fun h => ?_⟩
  obtain ⟨xs, houtcomes, hxs⟩ := hadds
  unfold RunState.Refuses
  rw [houtcomes, hvisits]
  exact (h.append fun x hx => hshared _ (hxs x hx)).mono htree

/-- Where a call other than `run` does something for a shared element. -/
theorem of_deeds (ho : o ∈ ns) (hne : o.command ≠ .run) (hn : n ∈ shared)
    (hkeeping : Keeping o.slot s s') (hdeeds : Deeds n s s') : Limited env ns shared s s' := by
  have htree : s.tree.SameElements s'.tree := .of_sameContents hdeeds.sameContents
  refine of_adds (fun known hknown hs => hs.keeping (hknown ho) hne hkeeping htree) htree
    hkeeping.visits ?_
  exact (Adds.of_deeds hdeeds).mono fun x hx => hx ▸ hn

/-- Where no value is kept, and outcomes are recorded at a shared element at most. -/
theorem of_mute (hn : n ∈ shared) (hmute : Mute s s') (htree : s.tree.SameElements s'.tree)
    (hadds : Adds (fun x => x.element = n) s s') : Limited env ns shared s s' :=
  of_adds (fun _ _ hs => hs.next hmute.kept hmute.nextSlot htree) htree hmute.visits
    (hadds.mono fun _ hx => hx ▸ hn)

/-- Where neither values nor outcomes are added. -/
theorem of_unrecorded (hmute : Mute s s') (htree : s.tree.SameElements s'.tree)
    (hrecord : s'.record = s.record) :
    Limited env ns shared s s' :=
  of_adds (fun _ _ hs => hs.next hmute.kept hmute.nextSlot htree) htree hmute.visits (.none hrecord)

end Limited

/-- Something is done beside the tree and the record. -/
theorem quiet_limited {α : Type} {part : Run φ α} (hmute : Always Mute part)
    (hquiet : Always Quiet part) :
    Always (Limited env ns shared) part := (hmute.and hquiet).mono fun {s s'} h =>
  .of_unrecorded h.1 (by rw [h.2.tree]; exact .refl) h.2.record

/-- The tree is changed, and elements stay what they are. -/
theorem change_limited {f : Tree → Tree} (hf : ∀ t : Tree, t.SameElements (f t)) :
    Always (Limited env ns shared) (change f : Run φ Unit) := fun s =>
  .of_unrecorded ⟨rfl, rfl, rfl⟩ (hf s.tree) rfl

/-- Something is told of later than in parsing. -/
theorem tell_limited {bus : Bus} {e : Event} (he : e.channel ≠ .parsing) :
    Always (Limited env ns shared) (tell bus e : Run φ Unit) :=
  quiet_limited tell_mute (tell_quiet he)

/-- An outcome is recorded at a shared element, and is told of. -/
theorem report_limited {f : Record → Record} {g : Spot → Event} {x : Outcome} (hn : n ∈ shared)
    (hg : ∀ shown, (g shown).channel ≠ .parsing)
    (hf : ∀ r, (f r).outcomes = r.outcomes ++ [⟨n, x⟩]) :
    Always (Limited env ns shared) (do note f; tell env.bus (g (← spot n)) : Run φ Unit) := by
  refine .bind (.modify fun s => .of_mute hn ⟨rfl, rfl, rfl⟩ .refl ⟨[⟨n, x⟩], hf s.record,
    ?_⟩) fun _ =>
    .bind .spot fun shown => tell_limited (hg shown)
  exact fun y hy => List.mem_singleton.mp hy ▸ rfl

/-- A value is looked up in the tree, and what is done with it is told from the tree that it comes
from. -/
theorem find_limited {α β : Type} {f : Tree → Except TreeError α} {g : α → Run φ β}
    (h : ∀ s a, f s.tree = .ok a → Limited env ns shared s ((g a).result s).2) :
    Always (Limited env ns shared) (find f >>= g) := fun s => by
  rw [result_bind, result_find]
  cases hfound : f s.tree with
  | error e => exact refl_of (Limited env ns shared) s
  | ok a => exact h s a hfound

/-- The visit of a call other than `run` comes first, and makes its element a shared one. -/
theorem visit_limited (hne : o.command ≠ .run) {part : Run φ Unit}
    (h : Always (Limited env ns (o.element :: shared)) part) :
    Always (Limited env ns shared) (visit p o part) := fun s => by
  let visited : RunState φ := { s with visits := s.visits ++ [(p, o)] }
  have hvisited : Limited env ns shared s visited := fun known _ hs _ =>
    ⟨⟨[], by rw [List.append_nil]; exact hs.next rfl rfl .refl⟩, .refl,
      List.prefix_append .., fun hr =>
      .visited hr fun hrun => absurd hrun hne⟩
  have hforeign : Foreign visited.tree visited.visits o.element :=
    .inr ⟨(p, o), List.mem_append_right _ List.mem_cons_self, hne, rfl⟩
  exact trans_of (Limited env ns shared) hvisited
    (.narrow (h visited) (List.forall_mem_singleton.mpr hforeign))

/-- **A `run` at the greatest depth** is refused when it executes, and else it does nothing. -/
theorem run_limited (hlimit : env.maxDepth ≤ env.context.depth) (ho : o ∈ ns)
    (hrun : o.command = .run) :
    Always (Limited env ns shared) (visit p o (runLinked env o p) : Run φ Unit) :=
  fun s known hsub hs _ => by
  have helement := hs.elements o (hsub ho)
  have hkept := hs.lookup (hsub ho) hrun
  by_cases hp : p = .execute
  · subst hp
    have hexcepted : Excepted o _ s ((visit .execute o (runLinked env o .execute)).result s).2 :=
      excepted_runLinked hlimit
    have htree :
        s.tree.SameElements ((visit .execute o (runLinked env o .execute)).result s).2.tree :=
      hexcepted.tree ▸ .refl
    refine ⟨⟨[], by rw [List.append_nil]; exact hs.next hexcepted.kept hexcepted.nextSlot htree⟩,
      htree,
      hexcepted.visits ▸ List.prefix_append .., fun hr => ?_⟩
    unfold RunState.Refuses
    rw [hexcepted.tree, hexcepted.visits, hexcepted.outcomes]
    exact .refused hr hrun helement
  · rw [result_visit_runLinked hp hkept]
    exact ⟨⟨[], by rw [List.append_nil]; exact hs.next rfl rfl .refl⟩, .refl,
      List.prefix_append .., fun hr =>
      .visited hr fun _ => hp⟩

/-! ## The rows of a table -/

/-- What is done with the calls that were moved to a row. -/
theorem retarget_limited {α : Type} {l : TableLayout} {columns : List Occurrence} {row : NodeId}
    {f : List Occurrence → Run φ α}
    (hf : ∀ calls, Always (Limited env (ns ++ calls) shared) (f calls)) :
    Always (Limited env ns shared) (retarget l columns row >>= f) := by
  intro s known hsub hs hshared
  unfold retarget
  rw [result_bind, result_bind, result_find]
  cases hplaced : l.inRow s.tree columns row with
  | error e => exact refl_of (Limited env ns shared) s known hsub hs hshared
  | ok placed =>
    obtain ⟨calls, helements, hslots, hresult⟩ := result_mapM_freshSlot placed s
    dsimp only
    rw [hresult]
    dsimp only
    have hcells : ∀ c ∈ calls, s.tree.isElement c.element = true := by
      intro c hc
      obtain ⟨⟨o, cell⟩, hmem, hcell⟩ := List.mem_map.mp (helements ▸ List.mem_map_of_mem hc)
      exact hcell ▸
        (TableLayout.mem_cellsOf.mp (Markup.Tree.mem_inRow hplaced |>.mp hmem).2.mem).2.1
    have hsub' : ns ++ calls ⊆ known ++ calls := by
      intro o ho
      rcases List.mem_append.mp ho with ho | ho
      · exact List.mem_append_left _ (hsub ho)
      · exact List.mem_append_right _ ho
    obtain ⟨⟨more, hmore⟩, hgo⟩ :=
      hf calls _ (known ++ calls) hsub' (hs.moved hcells hslots rfl) hshared
    exact ⟨⟨calls ++ more, by rwa [← List.append_assoc]⟩, hgo.elements, hgo.visits, hgo.refused⟩

section Rows

variable [Fixture φ] {columns : List Occurrence} {l : TableLayout}

omit [Fixture φ] in
/-- Holding elements does what the part does. -/
theorem holding_limited {α : Type} {held : List NodeId} {part : Run φ α}
    (h : Always (Limited env ns shared) part) :
    Always (Limited env ns shared) (holding held part) :=
  holding_always (fun hmute htree hrecord =>
    .of_unrecorded hmute (.of_sameContents htree) hrecord) h

/-- The key of an item is asked for at the table. -/
theorem itemKey_limited {key? : Option (Nat × Occurrence)} {item : Value} (hn : n ∈ shared) :
    Always (Limited env ns shared) (itemKey env n key? item : Run φ _) := by
  cases key? with
  | none => exact .pure
  | some key =>
    refine .bind ((evaluateAt_mute.and evaluateAt_reports).mono fun {s s'} h => ?_) fun _ => .pure
    have hdeeds : Deeds n s s' := .of_reports h.2
    exact .of_mute hn h.1 (.of_sameContents hdeeds.sameContents) (.of_deeds hdeeds)

omit [Fixture φ] in
/-- A missing row is recorded at the row that is added for it. -/
theorem addMissingRow_limited {column : Nat} {key : String} {last : NodeId} :
    Always (Limited env ns shared) (addMissingRow env l column key last : Run φ _) := by
  unfold addMissingRow
  simp only [pure_bind]
  refine find_limited fun s ⟨row, t⟩ hadded => ?_
  obtain ⟨htree, hrow⟩ := TableLayout.sameContents_appendRow hadded
  let grown : RunState φ := { s with tree := t }
  have hgrown : Limited env ns shared s grown :=
    .of_unrecorded ⟨rfl, rfl, rfl⟩ (.of_sameContents htree) rfl
  have hrecord :
      Always (Limited env ns (row :: shared)) (recordMissingRow env row key : Run φ Unit) :=
    report_limited List.mem_cons_self (fun _ => by simp [Event.channel]) fun _ => rfl
  rw [result_bind_of ((yields_change (u := ())).mpr rfl)]
  refine trans_of (Limited env ns shared) hgrown
    (.narrow ?_ (List.forall_mem_singleton.mpr (.inl hrow)))
  refine (show Always (Limited env ns (row :: shared)) _ from .bind .find fun _ => ?_) grown
  dsimp only
  split
  · exact .bind (change_limited fun t =>
      .of_sameContents (Tree.sameContents_setText key)) fun _ => .bind hrecord fun _ => .pure
  · exact .bind hrecord fun _ => .pure

omit [Fixture φ] in
/-- Surplus rows are recorded at themselves. -/
theorem recordSurplus_limited {column : Nat} {rows : List NodeId} (hrows : rows ⊆ shared) :
    Always (Limited env ns shared) (recordSurplus env column rows : Run φ Unit) := by
  induction rows with
  | nil => exact .pure
  | cons row rows ih =>
    have hrecord {key : String} :
        Always (Limited env ns shared) (recordSurplusRow env row key : Run φ Unit) :=
      report_limited (hrows List.mem_cons_self) (fun _ => by simp [Event.channel]) fun _ => rfl
    exact .bind .find fun _ => .bind hrecord fun _ => ih fun r hr =>
      hrows (List.mem_cons_of_mem row hr)

/-- The items of a comparison get their rows. -/
theorem matchItems_limited {runRow : List Occurrence → Run φ Unit} {name : String}
    {key? : Option (Nat × Occurrence)} (ho : o.element ∈ shared)
    (hrow : ∀ calls, Always (Limited env (ns ++ calls) shared) (runRow calls)) {items : List Value}
    {free : List NodeId} {last : NodeId} :
    Always (Limited env ns shared)
    (matchItems env runRow o columns name l key? items free last) := by
  induction items generalizing free last with
  | nil => exact .pure
  | cons item items ih =>
    refine .bind (quiet_limited bindVariable_mute bindVariable_quiet) fun _ =>
      .bind (itemKey_limited ho) fun key? => ?_
    cases key? with
    | none => exact .bind ih fun _ => .pure
    | some key =>
      refine .bind takeRow_always fun found => ?_
      split
      · apply retarget_limited
        intro calls
        have hmore (free : List NodeId) :
            Always (Limited env (ns ++ calls) shared)
              (matchItems env runRow o columns name l key? items free last) :=
          ih.mono fun h => h.mono (List.subset_append_left ns calls) (List.Subset.refl shared)
        exact .bind (holding_limited (hrow calls)) fun _ => .bind (hmore _) fun _ => .pure
      · exact .bind addMissingRow_limited fun _ => .bind ih fun _ => .pure

/-- The rows of a comparison and those that are left over are rows of the table. -/
theorem reconcile_limited {runRow : List Occurrence → Run φ Unit} {name : String}
    {items : List Value} (ho : o.element ∈ shared)
    (hrow : ∀ shared calls, Always (Limited env (ns ++ calls) shared) (runRow calls)) :
    Always (Limited env ns shared) (reconcile env runRow o columns name items) := by
  unfold reconcile
  refine find_limited fun s l hlayout => ?_
  refine .narrow ?_ fun r hr =>
    .inl (Markup.Tree.isNamed_of_mem_rows hlayout (List.mem_cons_of_mem _ hr))
  refine (show Always (Limited env ns (l.rows ++ shared)) _ from holding_limited
    (.bind .find fun key? => .bind_yields ?_ fun {s fates s'} hmatched => ?_)) s
  · exact matchItems_limited (List.mem_append_right _ ho) (hrow _)
  · have hfree : fates.2 ⊆ l.rows := (matching_of_yields hmatched).left_subset
    exact .bind (recordSurplus_limited (List.Subset.trans hfree (List.subset_append_left ..)))
      fun _ => .pure

/-- The phases of a `verifyRows`, once its visit is noted. -/
theorem verifyRows_limited {runRow : List Occurrence → Run φ Unit → Run φ Unit} (ho : o ∈ ns)
    (hne : o.command ≠ .run) (hn : o.element ∈ shared)
    (hrow : ∀ shared calls, Always (Limited env (ns ++ calls) shared) (runRow calls (pure ()))) :
    Always (Limited env ns shared) (verifyRows env runRow o columns p) := by
  cases p with
  | setup => exact .pure
  | execute =>
    exact own_always (.of_deeds ho hne hn) produceItems_keeping
      (produceItems_reports.mono .of_reports)
  | verify =>
    refine .bind .kept? fun v? => ?_
    split
    · exact .bind (reconcile_limited hn hrow) fun _ => .pure
    · exact .pure

/-- The rows of a table execute, and the expression of the table is evaluated for each of them. -/
theorem executeRows_limited {runRow : List Occurrence → Run φ Unit → Run φ Unit} (ho : o ∈ ns)
    (hne : o.command ≠ .run) (hrow : ∀ calls x, Always (Limited env (ns ++ calls) shared) x →
      Always (Limited env (ns ++ calls) shared) (runRow calls x)) {rows : List NodeId} (hrows :
      rows ⊆ shared) :
    Always (Limited env ns shared) (executeRows env runRow o columns l rows) := by
  induction rows with
  | nil => exact .pure
  | cons row rows ih =>
    apply retarget_limited
    intro calls
    have hsub : ns ⊆ ns ++ calls := List.subset_append_left ns calls
    have hown : Always (Limited env (ns ++ calls) shared) (executeAt env o row : Run φ Unit) :=
      (executeAt_keeping.and executeAt_reports).mono fun h =>
        .of_deeds (hsub ho) hne (hrows List.mem_cons_self) h.1 (.of_reports h.2)
    have hrest := ih fun r hr => hrows (List.mem_cons_of_mem row hr)
    exact .bind (holding_limited (hrow calls _ hown)) fun _ => hrest.mono fun h =>
      h.mono hsub (List.Subset.refl shared)

/-- An `execute` on a table, once its visit is noted. -/
theorem executeTable_limited {runRow : List Occurrence → Run φ Unit → Run φ Unit} (ho : o ∈ ns)
    (hne : o.command ≠ .run) (hrow : ∀ shared calls x, Always (Limited env (ns ++ calls) shared) x →
      Always (Limited env (ns ++ calls) shared) (runRow calls x)) :
    Always (Limited env ns shared) (executeTable env runRow o columns) := by
  unfold executeTable
  refine find_limited fun s l hlayout => ?_
  have hpart : Always (Limited env ns (l.rows ++ shared))
      (holding (l.header :: l.rows) (executeRows env runRow o columns l l.rows)) :=
    holding_limited (executeRows_limited ho hne (hrow _) (List.subset_append_left ..))
  exact (hpart s).narrow fun r hr =>
    .inl (Markup.Tree.isNamed_of_mem_rows hlayout (List.mem_cons_of_mem _ hr))

/-! ## Whole runs -/

/-- A phase of a call, given what the calls inside it do and what is done to rows. -/
theorem step_limited (hlimit : env.maxDepth ≤ env.context.depth) {inside : Inside φ}
    {runRow : List Occurrence → Run φ Unit → Run φ Unit} (ho : o ∈ ns)
    (hphase : ∀ p, Always (Limited env ns shared) (inside.phase p))
    (hbinding : ∀ b, Always (Limited env ns shared) (inside.binding b))
    (hrow : ∀ shared calls x, Always (Limited env (ns ++ calls) shared) x →
      Always (Limited env (ns ++ calls) shared) (runRow calls x)) :
    Always (Limited env ns shared) (step env runRow o columns inside p) := by
  have hself : o.element ∈ o.element :: shared := List.mem_cons_self
  have hsub {s s' : RunState φ} (h : Limited env ns shared s s') :
      Limited env ns (o.element :: shared) s s' :=
    h.mono (List.Subset.refl ns) (List.subset_cons_self ..)
  apply step_always hsub (fun hne _ _ => .of_deeds ho hne hself)
    (fun hne _ _ hpart => visit_limited hne hpart) hphase
    hbinding
  · exact run_limited hlimit ho
  · intro hc
    exact executeTable_limited ho (by simp [hc]) hrow
  · intro hc
    exact verifyRows_limited ho (by simp [hc]) hself fun shared calls => hrow shared calls _ .pure

/-- A phase of a call without calls inside it. -/
theorem stepAlone_limited (hlimit : env.maxDepth ≤ env.context.depth) (ho : o ∈ ns) :
    Always (Limited env ns shared) (stepAlone env p o : Run φ Unit) :=
  step_limited hlimit ho (fun _ => .pure) (fun _ => .pure) fun _ _ _ hx => hx

/-- All phases of the calls of a row. -/
theorem runRow_limited (hlimit : env.maxDepth ≤ env.context.depth) (shared : List NodeId)
    (calls : List Occurrence) (x : Run φ Unit) (hx : Always (Limited env (ns ++ calls) shared) x) :
    Always (Limited env (ns ++ calls) shared) (runRow env calls x) := by
  have hstep (p : Phase) (o : Occurrence) (ho : o ∈ calls) :
      Always (Limited env (ns ++ calls) shared) (stepAlone env p o : Run φ Unit) :=
    stepAlone_limited hlimit (List.mem_append_right ns ho)
  refine .bind (.forM (hstep .setup)) fun _ => .bind (.forM fun o ho => ?_) fun _ =>
    .bind hx fun _ =>
    .bind (.forM fun o ho => ?_) fun _ => .forM (hstep .verify)
  · exact hstep .execute o (List.mem_of_mem_filter ho)
  · exact hstep .execute o (List.mem_of_mem_filter ho)

end Rows

section Calls

variable [Fixture φ]

mutual
/-- A phase of a call with all calls inside it. -/
theorem runCall_limited (hlimit : env.maxDepth ≤ env.context.depth) :
    (p : Phase) → (c : Call) → c.walk ⊆ ns →
    Always (Limited env ns shared) (runCall env p c : Run φ Unit)
  | p, .mk o cs, h => by
    have ho : o ∈ ns := h (by simp [Call.walk])
    have hcs : Call.walkAll cs ⊆ ns := fun o' h' => h (by simp [Call.walk, h'])
    exact step_limited hlimit ho (fun p => runCalls_limited hlimit p cs hcs)
      (fun b => runBinding_limited hlimit b cs hcs) (runRow_limited hlimit)
theorem runCalls_limited (hlimit : env.maxDepth ≤ env.context.depth) :
    (p : Phase) → (cs : List Call) →
    Call.walkAll cs ⊆ ns → Always (Limited env ns shared) (runCalls env p cs : Run φ Unit)
  | p, [], h => .pure
  | p, c :: cs, h =>
    .bind (runCall_limited hlimit p c fun o h' => h (by simp [Call.walkAll, h'])) fun _ =>
      runCalls_limited hlimit p cs fun o h' => h (by simp [Call.walkAll, h'])
theorem runBinding_limited (hlimit : env.maxDepth ≤ env.context.depth) (b : Bool) :
    (cs : List Call) →
    Call.walkAll cs ⊆ ns → Always (Limited env ns shared) (runBinding env b cs : Run φ Unit)
  | [], h => .pure
  | c :: cs, h => by
    have hrest : Always (Limited env ns shared) (runBinding env b cs : Run φ Unit) :=
      runBinding_limited hlimit b cs fun o h' => h (by simp [Call.walkAll, h'])
    unfold runBinding
    split
    · exact .bind (runCall_limited hlimit .execute c fun o h' => h (by simp [Call.walkAll, h']))
        fun _ => hrest
    · exact hrest
end

/-- The three phases of a graph. -/
theorem runGraph_limited (hlimit : env.maxDepth ≤ env.context.depth) {g : CallGraph} :
    Always (Limited env g.walk shared) (runGraph env g : Run φ Unit) :=
  .bind (runCalls_limited hlimit .setup g.roots (List.Subset.refl _)) fun _ =>
    .bind (runCalls_limited hlimit .execute g.roots (List.Subset.refl _)) fun _ =>
      runCalls_limited hlimit .verify g.roots (List.Subset.refl _)

end Calls

/-! ## From the start of a run -/

/-- A state in which no call has done anything yet. -/
structure Unbegun (s : RunState φ) : Prop where
  kept : s.kept = []
  visits : s.visits = []
  outcomes : s.record.outcomes = []

/-- Two states between which no call does anything. -/
structure Waiting (s s' : RunState φ) : Prop where
  kept : s'.kept = s.kept
  visits : s'.visits = s.visits
  record : s'.record = s.record

instance : IsPreorder (RunState φ) Waiting where
  refl _ := ⟨rfl, rfl, rfl⟩
  trans _ _ _ h h' := ⟨h'.kept.trans h.kept, h'.visits.trans h.visits, h'.record.trans h.record⟩

theorem Waiting.unbegun (h : Waiting s s') (hs : Unbegun s) : Unbegun s' :=
  ⟨h.kept.trans hs.kept, h.visits.trans hs.visits, by rw [h.record]; exact hs.outcomes⟩

theorem Overheard.waiting {e : Event} (h : Overheard e s s') : Waiting s s' :=
  ⟨h.kept, h.visits, h.record⟩

/-- Before the first call does something there is nothing to account for. -/
theorem Unbegun.refuses {limit depth : Nat} (h : Unbegun s) : s.Refuses limit depth := by
  unfold RunState.Refuses
  rw [h.visits, h.outcomes]
  exact .start

end Run

namespace Engine

open Run

variable [Fixture φ] {e : Engine φ} {set : ExtensionSet} {env : Surroundings} {g : CallGraph}

omit [Fixture φ] in
/-- Before its calls are collected, a document is prepared without any of them doing something. -/
theorem prepare_waiting : Always Waiting (e.prepare set env : Run φ Unit) :=
  .bind (tell_overheard.mono (·.waiting)) fun _ => .bind .find fun _ => .modify fun _ =>
    ⟨rfl, rfl, rfl⟩

omit [Fixture φ] in
/-- Painting adds nodes and classes. -/
theorem paint_limited {ns : List Occurrence} {shared : List NodeId} :
    Always (Limited env ns shared) (paint : Run φ (List Diagnostic)) := fun s =>
  .of_unrecorded ⟨rfl, rfl, rfl⟩ (Painting.paint_grows s.record.outcomes s.tree).toSameElements rfl

/-- The calls of a document at the greatest depth are performed, and each `run` that executes is
refused. -/
theorem perform_refuses (hlimit : env.maxDepth ≤ env.context.depth) (hs : Unbegun s)
    (hgraph : CallGraph.ofTree s.tree set.registry = .ok g) :
    ((e.perform set env g).result s).2.Refuses env.maxDepth env.context.depth := by
  have htold : Overheard (.graphBuilt env.resource.path s.tree g) s
      ((tell env.bus (.graphBuilt env.resource.path s.tree g)).result s).2 := tell_overheard s
  unfold perform
  rw [result_bind_of (yields_get.mpr ⟨rfl, rfl⟩), result_bind]
  rcases htell :
    (tell env.bus (.graphBuilt env.resource.path s.tree g)).result s with ⟨cause | ⟨⟩, s₁⟩
  · rw [htell] at htold
    exact (htold.waiting.unbegun hs).refuses
  · rw [htell] at htold
    have hs₁ : Unbegun s₁ := htold.waiting.unbegun hs
    have htree : s₁.tree = s.tree :=
      htold.tree.resolve_left (by simp [Event.channel, Event.graphBuilt])
    let s₂ : RunState φ := { s₁ with held := g.walk.map Occurrence.element, nextSlot := g.size }
    have hs₂ : Unbegun s₂ := ⟨hs₁.kept, hs₁.visits, hs₁.outcomes⟩
    have hbooked : Booked g.walk s₂ := .start (htree ▸ hgraph) hs₁.kept rfl
    have hgo : Always (Limited env g.walk []) (do
        runGraph env g
        let summary : Summary := ⟨env.resource, (← get).record⟩
        let diagnostics ← paint
        Run.tell env.bus (.documentBuilt env.resource.path)
        let t := (← get).tree
        return ⟨env.resource, t.html, summary, t, set.assets, diagnostics, e.config.freshWindowMs⟩ :
          Run φ Output) :=
      .bind (runGraph_limited hlimit) fun _ => .bind .get fun _ => .bind paint_limited fun _ =>
        .bind (tell_limited (by simp [Event.channel])) fun _ => .bind .get fun _ => .pure
    exact (hgo s₂ g.walk (List.Subset.refl _) hbooked (List.forall_mem_nil _)).2.refused hs₂.refuses

/-- The run of a document at the greatest depth. -/
theorem pipeline_refuses (hlimit : env.maxDepth ≤ env.context.depth) (hs : Unbegun s) :
    ((e.pipeline set env : Run φ Output).result s).2.Refuses env.maxDepth env.context.depth := by
  have hwaiting : Waiting s ((e.prepare set env).result s).2 := prepare_waiting s
  rw [pipeline_eq, result_bind]
  rcases hprepare : (e.prepare set env).result s with ⟨cause | ⟨⟩, s₁⟩
  · rw [hprepare] at hwaiting
    exact (hwaiting.unbegun hs).refuses
  · rw [hprepare] at hwaiting
    have hs₁ : Unbegun s₁ := hwaiting.unbegun hs
    dsimp only
    rw [result_bind_of (yields_get.mpr ⟨rfl, rfl⟩)]
    cases hgraph : CallGraph.ofTree s₁.tree set.registry with
    | error cause => exact hs₁.refuses
    | ok g => exact perform_refuses hlimit hs₁ hgraph

/-- **Nested runs are bounded and accounted for.** A document is run, at any depth.

What would answer the requests of runs below the greatest depth does not matter, so the run ends
after that many levels, whatever the documents link to.

There are nested runs that account for all of it: each stands one level below the run that asked for
it and not below the greatest depth; their requests are those that the log got; the outputs that the
world got are those that they finished with, in this order, the ones inside a run before it. If the
run has an output then so has each nested run, and there is one output for each that was processed.

At the greatest depth no document is read and nothing is run. The visits and the outcomes of the
run, told together from its start, are such that each `run` that executes is refused. So at an
element at which nothing but `run` calls did their part, and which is no row, exactly one exception
is recorded for each of them that executed, and nothing else: that it goes too deep if it has a
link, and that it needs one if it has none. -/
theorem nested_runs_accounted (e : Engine φ) (context : Context) (fixture : φ) (html : String)
    (resource : Resource) (w : World) :
    let limit := e.config.maxNestingDepth
    let r := e.processIn context fixture html resource w
    (∀ stop levels, limit - context.depth ≤ levels →
      e.cutOff stop levels context fixture html resource w = r) ∧
    (∃ runs : List NestedRun, (∀ n ∈ runs, n.Stands e context.depth (Fixture.name fixture)) ∧
      r.2.2.requests = w.requests ++ NestedRun.requestsAll runs ∧
      r.2.2.outputs = w.outputs ++ (NestedRun.finishedAll runs).filterMap
        (fun f => f.answer.toOption) ∧
      (r.1.isOk = true → ∀ f ∈ NestedRun.finishedAll runs, f.answer.isOk = true)) ∧
    (limit ≤ context.depth →
      (∀ nested, e.processUsing nested context fixture html resource w = r) ∧
      r.2.2.requests = w.requests ∧ r.2.2.outputs = w.outputs ∧
      ∀ set, ExtensionSet.of (e.extensions ++ Fixture.extensions fixture) = .ok set →
        let env := e.surroundings set (e.answering e.processIn) context fixture resource
        let last := ((e.pipeline set env).result (start fixture html w)).2
        r.2 = (last.scope.fixture, last.world) ∧
        (∀ output, r.1 = .ok output → output.summary = ⟨resource, last.record⟩) ∧
        last.Refuses limit context.depth ∧
        ∀ n, last.tree.isNamed n "tr" = false →
          (∀ v ∈ last.visits, v.2.element = n → v.2.command = .run) →
          last.record.outcomesAt n =
            (last.visits.filter fun v => v.1 = .execute ∧ v.2.element = n).map fun v =>
              .exception v.2.expression (refusal limit context.depth last.tree v.2)) := by
  intro limit r
  obtain ⟨runs, hstands, haccounted, hgood⟩ :=
    processIn_accounts e context.depth context fixture html resource w rfl
  refine ⟨fun stop levels hlevels => ?_, ⟨runs, hstands, haccounted.requests, haccounted.outputs,
    hgood⟩, fun hlimit => ?_⟩
  · rw [cutOff_eq stop levels context hlevels]
  · have hnone : runs = [] := by
      apply List.eq_nil_iff_forall_not_mem.mpr
      intro n hn
      exact absurd (hstands n hn).depth_lt (Nat.not_lt.mpr hlimit)
    subst hnone
    refine ⟨fun nested => ?_, haccounted.requests.trans (List.append_nil _),
      haccounted.outputs.trans (List.append_nil _), fun set hset => ?_⟩
    · show _ = e.processIn context fixture html resource w
      rw [processIn_eq, processUsing_of_le hlimit]
    · intro env last
      have hr : r = (((e.pipeline set env).result (start fixture html w)).1, last.scope.fixture,
          last.world) := by
        show e.processIn context fixture html resource w = _
        rw [processIn_eq, processUsing_eq, hset]
      have hdeepest : env.maxDepth ≤ env.context.depth := hlimit
      have hrefuses : last.Refuses limit context.depth := pipeline_refuses hdeepest ⟨rfl, rfl, rfl⟩
      refine ⟨by rw [hr], fun output houtput => ?_, hrefuses, fun n => Refused.outcomesAt hrefuses⟩
      rw [hr] at houtput
      exact pipeline_summary _ _ _ (yields_result houtput)

end Engine

namespace Sample

/-- A document that links to another one, which is itself if all links lead to it. -/
def circular : String :=
  "<html xmlns:c=\"" ++ builtInNamespace ++ "\"><a c:run=\"inner\" href=\"x\">x</a></html>"

/-- An engine that allows two levels, and runs the same document for every link. -/
def looping : Engine StockFixture where
  config := { Config.standard with embedDefaultCss := false, maxNestingDepth := 2 }
  extensions := []
  runners := [("inner", ⟨fun _ => .ok circular, fun _ => .ok (.bare "Inner")⟩)]

/-- The run of the document that links to itself. -/
def loop : Engine.Result StockFixture :=
  looping.processIn .outermost (.bare "Outer") circular ⟨["outer"]⟩ .empty

/-- The same at the greatest depth. -/
def lastOfLoop : Engine.Result StockFixture :=
  looping.processIn ⟨2, some "Inner"⟩ (.bare "Inner") circular ⟨["x"]⟩ .empty

/-- The last state of that run, if extensions can be registered. -/
def lastState : RunState StockFixture :=
  match ExtensionSet.of (looping.extensions ++ Fixture.extensions (StockFixture.bare "Inner")) with
  | .ok set =>
    ((looping.pipeline set (looping.surroundings set (looping.answering looping.processIn)
      ⟨2, some "Inner"⟩ (.bare "Inner") ⟨["x"]⟩)).result
      (Engine.start (.bare "Inner") circular .empty)).2
  | .error _ => Engine.start (.bare "Inner") circular .empty

theorem loop_ends : loop.1.isOk = true ∧ loop.2.2.requests.map RunRequest.depth = [1, 2] := by
  decide +kernel

/-- At the greatest depth the call at the link is the only one, and it goes too deep. -/
theorem last_refuses : lastOfLoop.1.isOk = true ∧
    lastState.tree.attribute? 4 "href" = some "x" ∧ lastState.tree.isNamed 4 "tr" = false ∧
    (∀ v ∈ lastState.visits, v.2.element = 4 → v.2.command = .run) ∧
    ((lastState.visits.filter fun v => v.1 = .execute ∧ v.2.element = 4).map fun v =>
        Outcome.exception v.2.expression (refusal 2 2 lastState.tree v.2)) =
      [.exception "inner" (.thrown "inner" "nesting depth 3 exceeds the maximum of 2" [])] := by
  decide +kernel

end Sample

/-- The document asks for itself, and is run three times in all. The innermost run does not ask
again, and has one exception at the element of its `run`. -/
theorem Engine.nested_runs_accounted_loop : Sample.loop.1.isOk = true ∧
    (∃ runs : List NestedRun, (∀ n ∈ runs, n.Stands Sample.looping 0 "Outer") ∧
      (NestedRun.requestsAll runs).map RunRequest.depth = [1, 2] ∧
      ∀ f ∈ NestedRun.finishedAll runs, f.answer.isOk = true) ∧
    Sample.lastOfLoop.2.2.requests = [] ∧
    ∃ output : Output, Sample.lastOfLoop.1 = .ok output ∧
      output.summary = ⟨⟨["x"]⟩, Sample.lastState.record⟩ ∧
      Sample.lastState.tree.attribute? 4 "href" = some "x" ∧
      Sample.lastState.record.outcomesAt 4 =
        [.exception "inner" (.thrown "inner" "nesting depth 3 exceeds the maximum of 2" [])] := by
  obtain ⟨hok, hrequests⟩ := Sample.loop_ends
  obtain ⟨hlastOk, hhref, hrow, hruns, hrefusals⟩ := Sample.last_refuses
  have hset : (ExtensionSet.of (Sample.looping.extensions ++
      Fixture.extensions (StockFixture.bare "Inner"))).isOk = true := by decide +kernel
  unfold Sample.loop at hok hrequests ⊢
  unfold Sample.lastOfLoop at hlastOk ⊢
  obtain ⟨-, ⟨runs, hstands, hlog, -, hgood⟩, -⟩ :=
    Engine.nested_runs_accounted Sample.looping .outermost (.bare "Outer")
    Sample.circular ⟨["outer"]⟩ .empty
  obtain ⟨-, -, hlast⟩ :=
    Engine.nested_runs_accounted Sample.looping ⟨2, some "Inner"⟩ (.bare "Inner") Sample.circular
    ⟨["x"]⟩ .empty
  obtain ⟨-, hnone, -, hlast⟩ := hlast (Nat.le_refl 2)
  obtain ⟨set, hset⟩ := Except.exists_of_isOk hset
  obtain ⟨output, houtput⟩ := Except.exists_of_isOk hlastOk
  obtain ⟨-, hsummary, -, hexceptions⟩ := hlast set hset
  -- the last state is that of the theorem
  have hstate : Sample.lastState = ((Sample.looping.pipeline set (Sample.looping.surroundings set
      (Sample.looping.answering Sample.looping.processIn) ⟨2, some "Inner"⟩ (.bare "Inner")
      ⟨["x"]⟩)).result (Engine.start (.bare "Inner") Sample.circular .empty)).2 := by
    unfold Sample.lastState
    rw [hset]
  rw [← hstate] at hsummary hexceptions
  refine ⟨hok, ⟨runs, hstands, ?_, hgood hok⟩, hnone, output, houtput,
    hsummary output houtput, hhref, ?_⟩
  · rw [hlog] at hrequests
    exact hrequests
  · exact (hexceptions 4 hrow hruns).trans hrefusals

end LiveSpec
