import LiveSpec.Proofs.Run.Slots
import LiveSpec.Proofs.Table.Columns
import LiveSpec.Proofs.Table.Covering

/-!
# A table is executed row by row

An `execute` on a table does the same for each of its rows, one after the other: the cells of the
row are told, the calls of the header that have one are prepared there, those that bind variables
are executed, the expression of the table is evaluated for the row, the other calls are executed,
and all of them are verified (`Act.ofRow`). `Performs` says that a run does just that, until one of
these acts fails: between two acts elements are held or let go and slots are given out, and nothing
else happens. An error of evaluation is no failure, so that no act depends on how the one before it
came out.
-/

namespace LiveSpec

open Markup (NodeId Tree)
open TableLayout (cellsOf)

/-- One thing that is done for a row of a table: its cells are told, or a phase of a call of the row
is run, or the expression of the table is evaluated. -/
inductive Act where
  | cells (row : NodeId)
  | call (p : Phase) (c : Occurrence)
  | expression (row : NodeId)
deriving DecidableEq, Repr

namespace Act

/-- What is done with the calls of a row, in order. -/
def ofCalls (row : NodeId) (calls : List Occurrence) : List Act :=
  calls.map (.call .setup) ++ ((calls.filter fun c => c.command.binds).map (.call .execute) ++
    (.expression row ::
    ((calls.filter fun c => !c.command.binds).map (.call .execute) ++ calls.map (.call .verify))))

/-- All that is done for a row, in order. -/
def ofRow (row : NodeId) (calls : List Occurrence) : List Act := .cells row :: ofCalls row calls

/-- All that is done for the rows of a table, one row after the other. -/
def ofTable (l : TableLayout) (calls : NodeId → List Occurrence) : List Act :=
  l.rows.flatMap fun row => ofRow row (calls row)

theorem mem_ofRow {a : Act} {row : NodeId} {calls : List Occurrence} (h : a ∈ ofRow row calls) :
    a = .cells row ∨ a = .expression row ∨ ∃ p, ∃ c ∈ calls, a = .call p c := by
  have hcall : ∀ {p : Phase} {cs : List Occurrence}, (∀ c ∈ cs, c ∈ calls) → a ∈ cs.map (.call p) →
      ∃ p, ∃ c ∈ calls, a = .call p c := by
    intro p cs hsub hmem
    obtain ⟨c, hc, rfl⟩ := List.mem_map.mp hmem
    exact ⟨p, c, hsub c hc, rfl⟩
  rcases List.mem_cons.mp h with rfl | h
  · exact .inl rfl
  rcases List.mem_append.mp h with h | h
  · exact .inr (.inr (hcall (fun _ => id) h))
  rcases List.mem_append.mp h with h | h
  · exact .inr (.inr (hcall (fun _ => List.mem_of_mem_filter) h))
  rcases List.mem_cons.mp h with rfl | h
  · exact .inr (.inl rfl)
  rcases List.mem_append.mp h with h | h
  · exact .inr (.inr (hcall (fun _ => List.mem_of_mem_filter) h))
  · exact .inr (.inr (hcall (fun _ => id) h))

end Act

variable {φ : Type} {s s' s'' : RunState φ}

/-- Elements are held or no longer held, what nobody holds is let go, or a slot is given out. -/
inductive Pause (s s' : RunState φ) : Prop
  | hold (held : List NodeId) (h : s' = { s with held := held })
  | release (held : NodeId → Bool) (h : s' = { s with tree := s.tree.release held })
  | slot (h : s' = { s with nextSlot := s.nextSlot + 1 })

/-- Nothing else was done. -/
abbrev Idle : RunState φ → RunState φ → Prop := Relation.ReflTransGen Pause

instance : IsPreorder (RunState φ) Idle where

namespace Run

variable [Fixture φ]

/-- The thing that is done. -/
def perform (env : Surroundings) (o : Occurrence) (columns : List Occurrence) (l : TableLayout) :
    Act → Run φ Unit
  | .cells row => do let _ ← find fun t => l.inRow t columns row
  | .call p c => stepAlone env p c
  | .expression row => executeAt env o row

/-- A run that does some acts, in order and with nothing else between them, and ends there or where
one of them fails. -/
inductive Performs (env : Surroundings) (o : Occurrence) (columns : List Occurrence)
    (l : TableLayout) :
    List Act → RunState φ → Except Error Unit × RunState φ → Prop
  | done {s s' : RunState φ} (idle : Idle s s') : Performs env o columns l [] s (.ok (), s')
  | act {a : Act} {as : List Act} {s s₁ s₂ : RunState φ} {r : Except Error Unit × RunState φ}
    (idle : Idle s s₁)
    (acts : (perform env o columns l a).Yields s₁ () s₂) (rest : Performs env o columns l as s₂ r) :
    Performs env o columns l (a :: as) s r
  | failed {a : Act} {as : List Act} {s s₁ s' : RunState φ} {cause : Error} (idle : Idle s s₁)
    (fails : (perform env o columns l a).result s₁ = (.error cause, s')) :
      Performs env o columns l (a :: as) s (.error cause, s')

variable {env : Surroundings} {o : Occurrence} {columns calls : List Occurrence} {as bs : List Act}
  {l : TableLayout} {row : NodeId} {p : Phase} {r : Except Error Unit × RunState φ} {cause : Error}

namespace Performs

theorem after (h : Performs env o columns l as s' r) (hidle : Idle s s') :
    Performs env o columns l as s r := by
  cases h with
  | done h => exact .done (trans_of Idle hidle h)
  | act h hacts hrest => exact .act (trans_of Idle hidle h) hacts hrest
  | failed h hfails => exact .failed (trans_of Idle hidle h) hfails

/-- What comes after acts that all went well. -/
theorem append (h : Performs env o columns l as s (.ok (), s'))
    (h' : Performs env o columns l bs s' r) :
    Performs env o columns l (as ++ bs) s r := by
  generalize hr : (Except.ok (), s') = ended at h
  induction h with
  | done h =>
    cases hr
    exact h'.after h
  | act h hacts _ ih => exact .act h hacts (ih hr)
  | failed => cases hr

/-- What would come after an act that fails is not done. -/
theorem stopped (h : Performs env o columns l as s (.error cause, s')) :
    Performs env o columns l (as ++ bs) s (.error cause, s') := by
  generalize hr : (Except.error cause, s') = ended at h ⊢
  induction h with
  | done => cases hr
  | act h hacts _ ih => exact .act h hacts (ih hr)
  | failed h hfails => exact .failed h hfails

theorem bind {x : Run φ Unit} {f : Unit → Run φ Unit}
    (hx : Performs env o columns l as s (x.result s))
    (hf : ∀ s', x.Yields s () s' → Performs env o columns l bs s' ((f ()).result s')) :
    Performs env o columns l (as ++ bs) s ((x >>= f).result s) := by
  rw [result_bind]
  rcases hresult : x.result s with ⟨cause | ⟨⟩, s'⟩
  · rw [hresult] at hx
    exact hx.stopped
  · rw [hresult] at hx
    exact hx.append (hf s' hresult)

theorem single (a : Act) (s : RunState φ) :
    Performs env o columns l [a] s ((perform env o columns l a).result s) := by
  rcases hresult : (perform env o columns l a).result s with ⟨cause | ⟨⟩, s'⟩
  · exact .failed (refl_of Idle s) hresult
  · exact .act (refl_of Idle s) hresult (.done (refl_of Idle s'))

/-- A phase of several calls, one after the other. -/
theorem forM (calls : List Occurrence) (s : RunState φ) :
    Performs env o columns l (calls.map (.call p)) s ((calls.forM (stepAlone env p)).result s) := by
  induction calls generalizing s with
  | nil => exact .done (refl_of Idle s)
  | cons c calls ih =>
    have hfirst : Performs env o columns l [.call p c] s _ := single (.call p c) s
    exact hfirst.bind fun s' _ => ih s'

/-- **A row**, with the expression of the table between the calls that bind variables and the
others. -/
theorem runRow (calls : List Occurrence) (s : RunState φ) :
    Performs env o columns l (Act.ofCalls row calls) s
      ((runRow env calls (executeAt env o row)).result s) := by
  refine bind (forM calls s) fun s₁ _ => bind (forM _ s₁) fun s₂ _ => ?_
  have hexpression : Performs env o columns l [.expression row] s₂ _ := single (.expression row) s₂
  exact hexpression.bind fun s₃ _ => bind (forM _ s₃) fun s₄ _ => forM calls s₄

/-- To hold elements while acts are done is to do nothing else. -/
theorem holding {ns : List NodeId} {part : Run φ Unit}
    (h : Performs env o columns l as { s with held := ns ++ s.held }
      (part.result { s with held := ns ++ s.held })) :
    Performs env o columns l as s ((holding ns part).result s) := by
  have hpart := h.after (.single (.hold _ rfl))
  rcases hresult : part.result { s with held := ns ++ s.held } with ⟨cause | ⟨⟩, s'⟩
  · have hheld : (Run.holding ns part).result s = (.error cause, s') := by
      unfold Run.holding
      rw [result_bind]
      show Run.result (do modify _; let a ← part; _ : Run φ Unit) s = _
      rw [result_bind]
      show Run.result (do let a ← part; _ : Run φ Unit) _ = _
      rw [result_bind, hresult]
    rw [hheld, ← hresult]
    exact hpart
  · obtain ⟨s₁, htidy⟩ : ∃ s₁, tidy.Yields { s' with held := s.held } () s₁ := ⟨_, rfl⟩
    have hheld : (Run.holding ns part).Yields s () s₁ := yields_holding.mpr ⟨s', hresult, htidy⟩
    unfold Yields at hheld
    rw [hheld, ← List.append_nil as]
    rw [hresult] at hpart
    cases yields_modify.mp htidy
    exact hpart.append (.done (.tail (.single (.hold s.held rfl)) (.release _ rfl)))

/-- What each act leads to, the acts before one that fails lead to. -/
theorem fails {R : RunState φ → RunState φ → Prop} [IsPreorder (RunState φ) R]
    (hidle : ∀ {s s'}, Idle s s' → R s s') (h : Performs env o columns l as s (.error cause, s'))
    (hacts : ∀ a ∈ as, Keeps R (perform env o columns l a : Run φ Unit)) :
    ∃ a ∈ as, ∃ s₁, R s s₁ ∧ (perform env o columns l a).result s₁ = (.error cause, s') := by
  generalize hr : (Except.error cause, s') = ended at h
  induction h with
  | done => cases hr
  | @act a _ _ _ _ _ h hyields _ ih =>
    obtain ⟨b, hb, s₁, hled, hfails⟩ := ih (fun b hb => hacts b (List.mem_cons_of_mem a hb)) hr
    refine ⟨b, List.mem_cons_of_mem a hb, s₁, ?_, hfails⟩
    exact trans_of R (trans_of R (hidle h) (hacts a List.mem_cons_self hyields)) hled
  | @failed a as _ s₁ _ _ h hfails =>
    cases hr
    exact ⟨a, List.mem_cons_self, s₁, hidle h, hfails⟩

end Performs

/-! ## The rows -/

/-- Calls of a row: those of the header that have a cell in it, in their order, each moved to its
cell. -/
def Retargeted (t : Tree) (columns : List Occurrence) (l : TableLayout) (row : NodeId)
    (calls : List Occurrence) : Prop :=
  List.Forall₂ (fun x c => Moved x.1 x.2 c) (l.placed t columns row) calls

omit [Fixture φ] in
theorem exists_retargeted (t : Tree) (columns : List Occurrence) (l : TableLayout) :
    ∃ calls : NodeId → List Occurrence, ∀ row, Retargeted t columns l row (calls row) := by
  refine ⟨fun row => (l.placed t columns row).map fun x => { x.1 with element := x.2 },
    fun row => ?_⟩
  unfold Retargeted
  rw [List.forall₂_map_right_iff]
  exact List.forall₂_same.mpr fun _ _ => rfl

omit [Fixture φ] in
theorem retarget_idle : Keeps Idle (retarget l columns row : Run φ _) := by
  have hslot : Keeps Idle (freshSlot : Run φ Nat) := fun s a s' hy => by
    exact .single (.slot (yields_freshSlot.mp hy).2)
  exact .bind .find fun _ => .mapM fun _ _ => .bind hslot fun _ => .pure

omit [Fixture φ] in
/-- The commands of the header can be moved to the cells of a row if those can be told. -/
theorem result_retarget (l : TableLayout) (columns : List Occurrence) (row : NodeId)
    (s : RunState φ) : (∃ placed calls s', l.inRow s.tree columns row = .ok placed ∧
      (retarget l columns row).Yields s calls s') ∨
    ∃ e, l.inRow s.tree columns row = .error e ∧
      (retarget l columns row).result s = (.error (.element e), s) := by
  cases hplaced : l.inRow s.tree columns row with
  | ok placed =>
    obtain ⟨calls, -, -, hcalls⟩ := result_mapM_freshSlot placed s
    exact .inl ⟨placed, calls, _, rfl, yields_bind.mpr ⟨placed, s,
      yields_find.mpr ⟨hplaced, rfl⟩, hcalls⟩⟩
  | error e =>
    refine .inr ⟨e, rfl, ?_⟩
    unfold retarget
    rw [result_bind, result_find, hplaced]

/-- What is run for a row. -/
def executeRow (env : Surroundings) (o : Occurrence) (columns : List Occurrence) (l : TableLayout)
    (row : NodeId) :
    Run φ Unit := do
  let calls ← retarget l columns row
  holding (calls.map Occurrence.element) (Run.runRow env calls (executeAt env o row))

theorem executeRows_cons {rows : List NodeId} :
    (executeRows env (Run.runRow env) o columns l (row :: rows) : Run φ Unit) =
    executeRow env o columns l row >>= fun _ => executeRows env (Run.runRow env) o columns l rows :=
  (bind_assoc ..).symm

section Passage

variable {t₀ : Tree} {table : NodeId} {spared spared' rows : List NodeId}

/-- **A row is executed** with the calls that it has at the start, and after that the other rows are
as they were. -/
theorem executeRow_performs (env : Surroundings) (o : Occurrence) (ht : t₀.Sound)
    (hfound : ∀ x ∈ spared, t₀.Found table "tr" x) (hheader : l.header ∈ spared)
    (hrow : row ∈ spared) (hcolumns : ∀ o ∈ columns, o.element < t₀.nodes.size)
    (hsub : ∀ x ∈ spared', x ∈ spared) (hnot : row ∉ spared') (hpass : Passing spared t₀ s.tree) :
    ∃ calls, Retargeted t₀ columns l row calls ∧
      Performs env o columns l (Act.ofRow row calls) s ((executeRow env o columns l row).result s) ∧
      ∀ s', (executeRow env o columns l row).Yields s () s' → Passing spared' t₀ s'.tree := by
  rcases result_retarget l columns row s with ⟨placed, calls, s₁, hplaced, hmoved⟩ | ⟨e,
    hplaced, hmoved⟩
  · -- the calls are those that the tree at the start says
    obtain ⟨-, placed', hplaced', hmove⟩ := retarget_spec hmoved
    cases Except.ok.inj (hplaced.symm.trans hplaced')
    have hplaced₀ := hpass.inRow ht (fun x hx => (hfound x hx).standing) hheader hrow
      hcolumns hplaced
    rw [Markup.Tree.inRow_eq_placed hplaced₀] at hmove
    have hcells : (perform env o columns l (.cells row)).Yields s () s :=
      yields_bind.mpr ⟨placed, s, yields_find.mpr ⟨hplaced, rfl⟩, yields_pure.mpr ⟨rfl, rfl⟩⟩
    refine ⟨calls, hmove, ?_, fun s' hy => ?_⟩
    · unfold executeRow
      rw [result_bind, show (retarget l columns row).result s = (.ok calls, s₁) from hmoved]
      exact .act (refl_of Idle s) hcells ((Performs.holding (Performs.runRow calls _)).after
        (retarget_idle hmoved))
    · obtain ⟨calls', s₁', hmoved', hran⟩ := yields_bind.mp hy
      exact (passing_row hpass ht hfound hheader hrow hcolumns hsub hnot
        (executeAt_reports.keeps.mono .of_reports)
        hmoved' hran).2.1
  · obtain ⟨spare, hspare⟩ := exists_retargeted t₀ columns l
    have hfails : (executeRow env o columns l row).result s = (.error (.element e), s) := by
      unfold executeRow
      rw [result_bind, hmoved]
    refine ⟨spare row, hspare row, ?_, fun s' hy => ?_⟩
    · rw [hfails]
      refine .failed (refl_of Idle s) ?_
      show Run.result (do let _ ← find fun t => l.inRow t columns row) s = _
      rw [result_bind, result_find, hplaced]
    · cases hfails.symm.trans hy

/-- **The rows are executed one after the other**, in their order, each with the calls that it has
at the start. -/
theorem executeRows_performs (env : Surroundings) (o : Occurrence) (ht : t₀.Sound)
    (hfound : ∀ x ∈ l.header :: rows, t₀.Found table "tr" x) (hnodup : (l.header :: rows).Nodup)
    (hcolumns : ∀ o ∈ columns, o.element < t₀.nodes.size)
    (hpass : Passing (l.header :: rows) t₀ s.tree) :
    ∃ calls : NodeId → List Occurrence, (∀ row ∈ rows, Retargeted t₀ columns l row (calls row)) ∧
      Performs env o columns l (rows.flatMap fun row => Act.ofRow row (calls row)) s
        ((executeRows env (Run.runRow env) o columns l rows).result s) := by
  induction rows generalizing s with
  | nil => exact ⟨fun _ => [], nofun, .done (refl_of Idle s)⟩
  | cons row rows ih =>
    have hsub : ∀ x ∈ l.header :: rows, x ∈ l.header :: row :: rows :=
      ((List.sublist_cons_self row rows).cons_cons l.header).subset
    have hnodup' : (row :: l.header :: rows).Nodup := (List.Perm.swap ..).nodup_iff.mp hnodup
    obtain ⟨calls, hmoved, hrow, hnext⟩ := executeRow_performs env o ht hfound List.mem_cons_self
      (List.mem_cons_of_mem _ List.mem_cons_self) hcolumns hsub (List.nodup_cons.mp hnodup').1 hpass
    -- the other rows have calls as well, and these are run if the first row comes to an end
    obtain ⟨others, hothers, hrest⟩ : ∃ others : NodeId → List Occurrence,
        (∀ r ∈ rows, Retargeted t₀ columns l r (others r)) ∧
        ∀ s', (executeRow env o columns l row).Yields s () s' →
          Performs env o columns l (rows.flatMap fun r => Act.ofRow r (others r)) s'
            ((executeRows env (Run.runRow env) o columns l rows).result s') := by
      rcases hran : (executeRow env o columns l row).result s with ⟨cause | ⟨⟩, s₁⟩
      · obtain ⟨spare, hspare⟩ := exists_retargeted t₀ columns l
        exact ⟨spare, fun r _ => hspare r, fun s' hy => nomatch hran.symm.trans hy⟩
      · obtain ⟨others, hothers, hperforms⟩ := ih (fun x hx => hfound x (hsub x hx))
          (List.nodup_cons.mp hnodup').2
          (hnext s₁ hran)
        refine ⟨others, hothers, fun s' hy => ?_⟩
        cases hran.symm.trans hy
        exact hperforms
    have hne : ∀ r ∈ rows, r ≠ row := by
      rintro r hr rfl
      exact (List.nodup_cons.mp (List.nodup_cons.mp hnodup).2).1 hr
    refine ⟨Function.update others row calls, fun r hr => ?_, ?_⟩
    · rcases List.mem_cons.mp hr with rfl | hr
      · rw [Function.update_self]
        exact hmoved
      · rw [Function.update_of_ne (hne r hr)]
        exact hothers r hr
    · rw [List.flatMap_cons, Function.update_self, executeRows_cons,
        List.flatMap_congr fun r hr => by rw [Function.update_of_ne (hne r hr)]]
      exact hrow.bind hrest

end Passage

end Run
end LiveSpec
