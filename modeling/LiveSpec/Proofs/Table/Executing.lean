import LiveSpec.Proofs.Outcome.Booking
import LiveSpec.Proofs.Phases.Driven
import LiveSpec.Proofs.Run.Confined
import LiveSpec.Proofs.Table.Exact
import LiveSpec.Proofs.Table.RowByRow

/-!
# An `execute` on a table

The executing phase of an `execute` on a table goes through the rows after the header, in document
order, and does the same for each of them; the other phases do nothing (`table_rows_executed`). It
is the act that fails which ends the phase early: the calls of a row cannot be told because the
element of a call was cut off, a `verifyRows` was moved to a cell, where there are no rows, a
listener refuses, or a nested run is aborted. Errors of evaluation are recorded, and so the whole
table is gone through if none of these comes up.

The elements of calls are cut off by an `echo` alone, since all else that is built in leaves the
tree as it is. A plan is `Feasible` if no `echo` is moved to a cell that a call lies in, and no
`verifyRows` to any cell. What an act can do to the tree is limited to the cells that an `echo` is
moved to (`perform_confined`), and no row lies in these: so the calls of each row can be told when
its turn comes (`inRow_of_confined`).
-/

namespace LiveSpec

open Markup (NodeId Tree)
open TableLayout (cellsOf)

/-- What is to be done on a table: the header is the first row that the first call is reached from,
or else the first row of all; the rows are those after it, in document order; a call belongs to the
column of the cell of the header that it is reached from; and each row has the calls that have a
cell in it, in their order. -/
structure RowPlan (t : Tree) (table : NodeId) (columns : List Occurrence) (l : TableLayout)
    (calls : NodeId → List Occurrence) : Prop where
  rows : ∃ before, (before ++ l.header :: l.rows).Pairwise t.Precedes ∧
    (∀ x, x ∈ before ++ l.header :: l.rows ↔ t.Found table "tr" x) ∧
    ∀ first, columns.head? = some first →
      (t.Reaches l.header first.element ∧ (∀ r ∈ before, ¬ t.Reaches r first.element) ∨
        before = [] ∧ ∀ r ∈ l.header :: l.rows, ¬ t.Reaches r first.element)
  column {c : Occurrence} : c ∈ columns → ∀ i, l.columnOf t c.element = some i ↔
    ∃ cell, (cellsOf t l.header)[i]? = some cell ∧ t.Reaches cell c.element
  calls {row : NodeId} : row ∈ l.rows → Run.Retargeted t columns l row (calls row)

/-- The calls of the header stand in the document, none that is moved to a cell compares rows, and
none lies in a cell that an `echo` is moved to. -/
structure Feasible (t : Tree) (columns : List Occurrence) (l : TableLayout) : Prop where
  standing {c : Occurrence} : c ∈ columns → t.Standing c.element
  rowless {row cell : NodeId} {c : Occurrence} : row ∈ l.rows → (c, cell) ∈ l.placed t columns row →
    c.command ≠ .verifyRows
  spared {row cell : NodeId} {c d : Occurrence} :
    row ∈ l.rows → (c, cell) ∈ l.placed t columns row → c.command = .echo →
    d ∈ columns → ¬ t.Under cell d.element

/-- An error that ends a part of a run: it is halted, or an element is missing. -/
def Interrupted {φ : Type} (env : Surroundings) (s : RunState φ) (cause : Error) : Prop :=
  Halted env s cause ∨ ∃ e, cause = .element e

variable {φ : Type} {s s' : RunState φ} {t : Tree} {ns es : List NodeId} {n row : NodeId}
  {l : TableLayout} {columns : List Occurrence} {calls : NodeId → List Occurrence}

/-- A pause at one of the elements is confined to them. -/
theorem Pause.confined (hn : n ∈ ns) (h : Pause s s') : Confined ns es s s' := by
  cases h with
  | hold held h => exact .of_tree (.of_deeds hn (.of_quiet (h ▸ ⟨rfl, rfl, rfl⟩))) (h ▸ rfl)
  | slot h => exact .of_tree (.of_deeds hn (.of_quiet (h ▸ ⟨rfl, rfl, rfl⟩))) (h ▸ rfl)
  | release held h =>
    intro hs
    refine ⟨.of_deeds hn (.single (.tidy held h)), fun x hx _ => ?_⟩
    rw [h]
    exact hs.sound.released.stays hx

/-- So is doing nothing there. -/
theorem Idle.confined (hn : n ∈ ns) (h : Idle s s') : Confined ns es s s' := by
  induction h with
  | refl => exact refl_of (Confined ns es) s
  | tail _ hpause ih => exact trans_of (Confined ns es) ih (hpause.confined hn)

/-! ## The elements that are worked at -/

/-- The rows, and the cells that calls are moved to. -/
def workplaces (l : TableLayout) (calls : NodeId → List Occurrence) : List NodeId :=
  l.rows ++ l.rows.flatMap fun row => (calls row).map Occurrence.element

/-- The cells that an `echo` is moved to. -/
def filledCells (l : TableLayout) (calls : NodeId → List Occurrence) : List NodeId :=
  l.rows.flatMap fun row => ((calls row).filter fun c => c.command == .echo).map Occurrence.element

namespace RowPlan

variable {table : NodeId} {c : Occurrence}

/-- A row of the plan is a row of the table. -/
theorem found (h : RowPlan t table columns l calls) (hrow : row ∈ l.rows) :
    t.Found table "tr" row := by
  obtain ⟨before, -, hall, -⟩ := h.rows
  exact (hall row).mp (List.mem_append_right _ (List.mem_cons_of_mem _ hrow))

/-- A call of a row is a call of the header that was moved to a cell of the row. -/
theorem origin (h : RowPlan t table columns l calls) (hrow : row ∈ l.rows) (hc : c ∈ calls row) :
    ∃ d ∈ columns, (d, c.element) ∈ l.placed t columns row ∧ c.command = d.command ∧
      c.element ∈ cellsOf t row := by
  obtain ⟨⟨d, cell⟩, hx, hmoved⟩ := exists_left_of_mem (h.calls hrow) hc
  have hmoved : c = { d with element := cell, slot := c.slot } := hmoved
  have helement : c.element = cell := by rw [hmoved]
  have hcommand : c.command = d.command := by rw [hmoved]
  obtain ⟨hd, i, -, hi⟩ := Markup.Tree.mem_placed.mp hx
  exact ⟨d, hd, helement ▸ hx, hcommand, helement ▸ List.mem_of_getElem? hi⟩

/-- Work is done at the calls of the rows. -/
theorem mem_workplaces (hrow : row ∈ l.rows) (hc : c ∈ calls row) :
    c.element ∈ workplaces l calls :=
  List.mem_append_right _ (List.mem_flatMap.mpr ⟨row, hrow, List.mem_map_of_mem hc⟩)

/-- The cells that are filled are those of an `echo`. -/
theorem mem_filledCells : n ∈ filledCells l calls ↔
    ∃ row ∈ l.rows, ∃ c ∈ calls row, c.command = .echo ∧ c.element = n := by
  unfold filledCells
  simp only [List.mem_flatMap, List.mem_map, List.mem_filter, beq_iff_eq, and_assoc]

/-- In a flat table no row stands below a row or below a cell of one. -/
theorem bare (h : RowPlan s.tree table columns l calls) (hs : s.tree.Sound)
    (hflat : s.tree.Flat table) :
    Bare (workplaces l calls) s := by
  have hcases : ∀ {n}, n ∈ workplaces l calls → ∃ row ∈ l.rows, n = row ∨
      n ∈ cellsOf s.tree row := by
    intro n hn
    rcases List.mem_append.mp hn with hn | hn
    · exact ⟨n, hn, .inl rfl⟩
    · obtain ⟨row, hrow, hn⟩ := List.mem_flatMap.mp hn
      obtain ⟨c, hc, rfl⟩ := List.mem_map.mp hn
      obtain ⟨-, -, -, -, hcell⟩ := h.origin hrow hc
      exact ⟨row, hrow, .inr hcell⟩
  refine ⟨hs, fun hn => ?_, fun {n x} hn hx => ?_⟩
  · obtain ⟨row, hrow, rfl | hcell⟩ := hcases hn
    · exact (h.found hrow).element
    · exact (TableLayout.mem_cellsOf.mp hcell).2.1
  · obtain ⟨row, hrow, rfl | hcell⟩ := hcases hn
    · exact hflat _ x (h.found hrow) hx
    · exact hflat row x (h.found hrow)
        ⟨hx.standing, hx.element, ⟨n, (TableLayout.mem_cellsOf.mp hcell).1, hx.under⟩, hx.named⟩

/-- No row lies in a cell. -/
theorem not_under_filled (h : RowPlan s.tree table columns l calls)
    (hbare : Bare (workplaces l calls) s) (hrow : row ∈ l.rows) (hn : n ∈ filledCells l calls) :
    ¬ s.tree.Under n row := by
  obtain ⟨row', hrow', c, hc, -, rfl⟩ := mem_filledCells.mp hn
  obtain ⟨-, -, -, -, hcell⟩ := h.origin hrow' hc
  intro hu
  rcases hu.eq_or_below with rfl | hbelow
  · have hnot := TableLayout.not_row_of_isCell (TableLayout.mem_cellsOf.mp hcell).2.2
    rw [(h.found hrow).isRow] at hnot
    cases hnot
  · exact hbare.bare (mem_workplaces hrow' hc) ⟨(h.found hrow).standing, (h.found hrow).element,
      hbelow, (h.found hrow).named⟩

end RowPlan

namespace Run

variable [Fixture φ] {env : Surroundings} {o c : Occurrence} {p : Phase} {a : Act} {cause : Error}

/-! ## How acts end -/

omit [Fixture φ] in
/-- What gives something, but did not, was halted. -/
theorem Gives.halted {α : Type} {x : Run φ α} {Q : α → RunState φ → Prop} (h : Gives env s x Q)
    (hresult : x.result s = (.error cause, s')) : Halted env s' cause := by
  unfold Gives at h
  rwa [hresult] at h

/-- Executing at a row is halted by listeners only. -/
theorem executeAt_gives : Gives env s (executeAt env o row) fun _ _ => True := by
  have hacted : Gives env s (executeAt env o row) _ :=
    execute_acted (o := { o with element := row, command := .execute }) (p := .execute) rfl
  exact hacted.mono fun _ _ _ => trivial

/-- So is a built-in call that compares no rows. -/
theorem stepAlone_gives (hbuiltIn : c.command.isBuiltIn = true) (hrows : c.command ≠ .verifyRows) :
    Gives env s (stepAlone env p c) fun _ _ => True := by
  rw [stepAlone_eq]
  exact .after rfl ((part_acted hbuiltIn hrows).mono fun _ _ _ => trivial)

/-- So is producing the items. -/
theorem produceItems_gives : Gives env s (produceItems env o) fun _ _ => True := by
  unfold produceItems
  split
  · exact (report_enters ⟨o.element, .exception _ _⟩).mono fun _ _ _ => trivial
  · refine .bind evaluateAt_enters fun v? s₁ _ => ?_
    split
    · refine .after result_look (.bind (tell_enters nofun) fun _ s₂ _ => .keep trivial)
    · exact (report_enters ⟨o.element, .exception _ _⟩).mono fun _ _ _ => trivial
    · exact .pure trivial

/-- A `verifyRows` at an element without rows fails for want of them, if at all. -/
theorem verifyRows_ends {runRow : List Occurrence → Run φ Unit → Run φ Unit} (hs : Bare ns s)
    (ho : o.element ∈ ns) (h : (verifyRows env runRow o columns p).result s = (.error cause, s')) :
    Interrupted env s' cause := by
  cases p with
  | setup => cases h
  | execute => exact .inl (produceItems_gives.halted h)
  | verify =>
    unfold verifyRows compareRows at h
    dsimp only at h
    rw [result_bind, result_kept?] at h
    dsimp only at h
    split at h
    · rw [result_bind] at h
      unfold reconcile at h
      rw [result_bind, result_find] at h
      cases hl : TableLayout.of s.tree o.element (columns.head?.map Occurrence.element) with
      | ok l =>
        obtain ⟨-, -, hfound⟩ := hs.sound.layout_spec (Tree.lt_size_of_isElement (hs.element ho)) hl
        exact absurd (hfound l.header List.mem_cons_self) (hs.bare ho)
      | error e =>
        rw [hl] at h
        cases h
        exact .inr ⟨e, rfl⟩
    · cases h

/-- A call of a row ends with an error only if it is halted, or if it wants rows to compare. -/
theorem stepAlone_ends (hs : Bare ns s) (hc : c.element ∈ ns)
    (hbuiltIn : c.command.isBuiltIn = true)
    (h : (stepAlone env p c).result s = (.error cause, s')) : Interrupted env s' cause := by
  by_cases hrows : c.command = .verifyRows
  · have hpart :
      (part env c p : Run φ Unit) = verifyRows env (fun _ between => between) c [] p := by
      unfold part
      rw [hrows]
    rw [stepAlone_eq, hpart] at h
    have hvisited : Bare ns { s with visits := s.visits ++ [(p, c)] } :=
      hs.works (.single (.visit p c rfl))
    have hcompared : (verifyRows env (fun _ between => between) c [] p).result
        { s with visits := s.visits ++ [(p, c)] } =
        (.error cause, s') := h
    exact verifyRows_ends hvisited hc hcompared
  · exact .inl ((stepAlone_gives hbuiltIn hrows).halted h)

/-- The calls of a row can be told, or an element is missing. -/
theorem cells_fail (h : (perform env o columns l (.cells row) : Run φ Unit).result s =
    (.error cause, s')) :
    ∃ e, l.inRow s.tree columns row = .error e ∧ cause = .element e := by
  unfold perform at h
  rw [result_bind, result_find] at h
  cases hplaced : l.inRow s.tree columns row with
  | ok placed =>
    rw [hplaced] at h
    cases h
  | error e =>
    rw [hplaced] at h
    cases h
    exact ⟨e, rfl, rfl⟩

/-! ## What acts do to the tree -/

/-- An act of a table changes nothing but in the cells that an `echo` is moved to. -/
theorem perform_confined {table : NodeId} (h : RowPlan t table columns l calls)
    (hbuiltIn : ∀ c ∈ columns, c.command.isBuiltIn = true) (ha : a ∈ Act.ofTable l calls) :
    Keeps (Confined (workplaces l calls) (filledCells l calls))
    (perform env o columns l a : Run φ Unit) := by
  obtain ⟨row, hrow, ha⟩ := List.mem_flatMap.mp ha
  rcases Act.mem_ofRow ha with rfl | rfl | ⟨p, c, hc, rfl⟩
  · exact .bind .find fun _ => .pure
  · exact executeAt_reports.keeps.mono (.of_reports (List.mem_append_left _ hrow))
  · obtain ⟨d, hd, -, hcommand, -⟩ := h.origin hrow hc
    show Keeps _ (stepAlone env p c)
    rw [stepAlone_eq]
    refine visit_keeps (fun s p => Confined.visited s p c)
      (part_confined (hcommand ▸ hbuiltIn d hd) (RowPlan.mem_workplaces hrow hc) fun hecho => ?_)
    exact RowPlan.mem_filledCells.mpr ⟨row, hrow, c, hc, hecho, rfl⟩

omit [Fixture φ] in
/-- While only those cells change, the calls of each row can be told. -/
theorem inRow_of_confined {table : NodeId} (h : RowPlan s.tree table columns l calls)
    (hbare : Bare (workplaces l calls) s) (hfeasible : Feasible s.tree columns l)
    (hrow : row ∈ l.rows) (hled : Confined (workplaces l calls) (filledCells l calls) s s') :
    ∃ placed, l.inRow s'.tree columns row = .ok placed := by
  obtain ⟨hworks, hstays⟩ := hled hbare
  refine (hbare.works hworks).sound.exists_inRow (hstays row (h.found hrow).standing fun n hn =>
    h.not_under_filled hbare hrow hn).standing fun d hd =>
      (hstays _ (hfeasible.standing hd) fun n hn => ?_).standing
  obtain ⟨row', hrow', c, hc, hecho, rfl⟩ := RowPlan.mem_filledCells.mp hn
  obtain ⟨d', -, hplaced, hcommand, -⟩ := h.origin hrow' hc
  exact hfeasible.spared hrow' hplaced (hcommand ▸ hecho) hd

/-! ## The table -/

/-- Applying a header performs the acts of the table row by row, with the calls moved to each row.
-/
theorem executeTable_performs (env : Surroundings) (hs : s.tree.Sound)
    (ho : s.tree.isElement o.element = true)
    (hcolumns : ∀ c ∈ columns, s.tree.isElement c.element = true)
    (hl : TableLayout.of s.tree o.element (columns.head?.map Occurrence.element) = .ok l) :
    ∃ calls : NodeId → List Occurrence,
      (∀ row ∈ l.rows, Retargeted s.tree columns l row (calls row)) ∧
      Performs env o columns l (Act.ofTable l calls) s
        ((executeTable env (runRow env) o columns).result s) := by
  obtain ⟨-, hnodup, hfound⟩ := hs.layout_spec (Tree.lt_size_of_isElement ho) hl
  obtain ⟨calls, hcalls, hperforms⟩ := executeRows_performs env o
    (s := { s with held := (l.header :: l.rows) ++ s.held }) hs hfound hnodup
    (fun d hd => Tree.lt_size_of_isElement (hcolumns d hd)) (.start hs)
  refine ⟨calls, hcalls, ?_⟩
  unfold executeTable
  rw [result_bind, result_find, hl]
  exact .holding hperforms

/-- The plan for a table with a layout. -/
theorem rowPlan_of_layout (hs : t.Sound) (ho : t.isElement n = true) (hne : columns ≠ [])
    (hcolumns : ∀ c ∈ columns, t.isElement c.element = true)
    (hl : TableLayout.of t n (columns.head?.map Occurrence.element) = .ok l)
    (hcalls : ∀ row ∈ l.rows, Retargeted t columns l row (calls row)) :
    RowPlan t n columns l calls := by
  have hlt := Tree.lt_size_of_isElement ho
  obtain ⟨-, -, hfound⟩ := hs.layout_spec hlt hl
  have hheader := hfound l.header List.mem_cons_self
  obtain ⟨first, rest, rfl⟩ := List.exists_cons_of_ne_nil hne
  obtain ⟨before, hrows, hplace⟩ := hs.layout_header hlt (hcolumns first List.mem_cons_self) hl
  obtain ⟨-, hsorted, hall⟩ := (hs.descendants_iff hlt).mp hrows
  refine ⟨⟨before, hsorted, hall, fun c hc => ?_⟩, fun hc i => ?_, fun hrow => hcalls _ hrow⟩
  · cases hc
    exact hplace
  · exact hs.columnOf_eq_some_iff hheader.standing hheader.element (hcolumns _ hc)

/-- What the executing phase of a table comes to, when the tree is `t` at first: all that is planned
is done, in order, up to an act that fails; an act that fails is halted or misses an element, and
the latter does not happen if the plan is feasible. -/
structure TableExecuted (env : Surroundings) (o : Occurrence) (columns : List Occurrence)
    (l : TableLayout) (calls : NodeId → List Occurrence) (s : RunState φ)
    (r : Except Error Unit × RunState φ) : Prop where
  plan : RowPlan s.tree o.element columns l calls
  performs : Performs env o columns l (Act.ofTable l calls) s r
  ends {cause : Error} : r.1 = .error cause → Interrupted env r.2 cause
  completes {cause : Error} : Feasible s.tree columns l → r.1 = .error cause → Halted env r.2 cause

/-- What performs the acts of a plan executes the table as it is laid out. -/
theorem tableExecuted_of_plan {r : Except Error Unit × RunState φ}
    (h : RowPlan s.tree o.element columns l calls) (hs : s.tree.Sound)
    (hflat : s.tree.Flat o.element) (hbuiltIn : ∀ c ∈ columns, c.command.isBuiltIn = true)
    (hperforms : Performs env o columns l (Act.ofTable l calls) s r) :
    TableExecuted env o columns l calls s r := by
  have hbare := h.bare hs hflat
  -- the act that fails, and what became of the tree before
  have hfails : ∀ {cause}, r.1 = .error cause → ∃ row ∈ l.rows,
      ∃ a ∈ Act.ofRow row (calls row), ∃ s₁,
      Confined (workplaces l calls) (filledCells l calls) s s₁ ∧
      (perform env o columns l a).result s₁ = (.error cause, r.2) := by
    intro cause hr
    have hended : Performs env o columns l (Act.ofTable l calls) s (.error cause, r.2) :=
      hr ▸ hperforms
    by_cases hrows : l.rows = []
    · unfold Act.ofTable at hended
      rw [hrows] at hended
      cases hended
    · obtain ⟨n, rest, hcons⟩ := List.exists_cons_of_ne_nil hrows
      have hn : n ∈ workplaces l calls := List.mem_append_left _ (hcons ▸ List.mem_cons_self)
      obtain ⟨a, ha, s₁, hled, hfails⟩ := hended.fails (fun hidle => hidle.confined hn)
        fun a ha => perform_confined h hbuiltIn ha
      obtain ⟨row, hrow, ha⟩ := List.mem_flatMap.mp ha
      exact ⟨row, hrow, a, ha, s₁, hled, hfails⟩
  refine ⟨h, hperforms, fun hr => ?_, fun hfeasible hr => ?_⟩
  · obtain ⟨row, hrow, a, ha, s₁, hled, hfails⟩ := hfails hr
    rcases Act.mem_ofRow ha with rfl | rfl | ⟨p, c, hc, rfl⟩
    · obtain ⟨e, -, rfl⟩ := cells_fail hfails
      exact .inr ⟨e, rfl⟩
    · exact .inl (executeAt_gives.halted hfails)
    · obtain ⟨d, hd, -, hcommand, -⟩ := h.origin hrow hc
      exact stepAlone_ends (hbare.works (hled hbare).1) (RowPlan.mem_workplaces hrow hc)
        (hcommand ▸ hbuiltIn d hd) hfails
  · obtain ⟨row, hrow, a, ha, s₁, hled, hfails⟩ := hfails hr
    rcases Act.mem_ofRow ha with rfl | rfl | ⟨p, c, hc, rfl⟩
    · obtain ⟨e, hplaced, -⟩ := cells_fail hfails
      obtain ⟨placed, hok⟩ := inRow_of_confined h hbare hfeasible hrow hled
      cases hplaced.symm.trans hok
    · exact executeAt_gives.halted hfails
    · obtain ⟨d, hd, hplaced, hcommand, -⟩ := h.origin hrow hc
      exact (stepAlone_gives (hcommand ▸ hbuiltIn d hd) (hcommand ▸
        hfeasible.rowless hrow hplaced)).halted hfails

/-- A phase of an `execute` on a table, with the calls inside it. -/
theorem result_runCall_table {inside : List Call} (hcommand : o.command = .execute)
    (htable : s.tree.isNamed o.element "table" = true) (hne : inside ≠ []) :
    (runCall env p (.mk o inside)).result s =
      (if p = .execute then executeTable env (runRow env) o (inside.map Call.head) else
        pure () : Run φ Unit).result
        { s with visits := s.visits ++ [(p, o)] } := by
  have hdriven : isTableDriven s.tree o (inside.map Call.head) = true := by
    unfold isTableDriven
    rw [htable]
    simpa using hne
  unfold runCall
  exact result_step_table hcommand hdriven

/-- Without rows nothing is done. -/
theorem executeTable_without_rows (hs : s.tree.Sound) (ho : s.tree.isElement o.element = true)
    (hnone : ∀ row, ¬ s.tree.Found o.element "tr" row) :
    ∃ e, (executeTable env (runRow env) o columns).result s = (.error (.element e), s) := by
  unfold executeTable
  rw [result_bind, result_find]
  cases hl : TableLayout.of s.tree o.element (columns.head?.map Occurrence.element) with
  | ok l =>
    obtain ⟨-, -, hfound⟩ := hs.layout_spec (Tree.lt_size_of_isElement ho) hl
    exact absurd (hfound l.header List.mem_cons_self) (hnone l.header)
  | error e => exact ⟨e, rfl⟩

/-- **An `execute` on a table goes through its rows.** Take a table without tables in it, with calls
of built-in commands inside. In the executing phase the rows after the header are gone through in
document order, and for each of them all is done that is planned, in order, whatever errors of
evaluation come up, until an act fails for want of an element or because it is halted. If the plan
is feasible, then only the latter happens. Where there is no row, nothing is done at all. In the
other phases nothing happens. -/
theorem table_rows_executed {inside : List Call} (hs : s.tree.Sound)
    (hcommand : o.command = .execute) (ho : s.tree.isElement o.element = true)
    (htable : s.tree.isNamed o.element "table" = true) (hne : inside ≠ [])
    (helements : ∀ c ∈ inside, s.tree.isElement c.head.element = true)
    (hflat : s.tree.Flat o.element) (hbuiltIn : ∀ c ∈ inside, c.head.command.isBuiltIn = true) :
    (∀ p, p ≠ .execute → (runCall env p (.mk o inside)).result s =
      (.ok (), { s with visits := s.visits ++ [(p, o)] })) ∧
    ((∃ row, s.tree.Found o.element "tr" row) → ∃ l calls,
      TableExecuted env o (inside.map Call.head) l calls
      { s with visits := s.visits ++ [(.execute, o)] }
        ((runCall env .execute (.mk o inside)).result s)) ∧
    ((∀ row, ¬ s.tree.Found o.element "tr" row) → ∃ e,
      (runCall env .execute (.mk o inside)).result s =
      (.error (.element e), { s with visits := s.visits ++ [(.execute, o)] })) := by
  have hcolumns : ∀ c ∈ inside.map Call.head, s.tree.isElement c.element = true := fun c hc => by
    obtain ⟨d, hd, rfl⟩ := List.mem_map.mp hc
    exact helements d hd
  have hbuiltIn' : ∀ c ∈ inside.map Call.head, c.command.isBuiltIn = true := fun c hc => by
    obtain ⟨d, hd, rfl⟩ := List.mem_map.mp hc
    exact hbuiltIn d hd
  have hne' : inside.map Call.head ≠ [] := by simpa using hne
  refine ⟨fun p hp => ?_, fun hrow => ?_, fun hnone => ?_⟩
  · rw [result_runCall_table hcommand htable hne, if_neg hp]
    rfl
  · obtain ⟨row, hrow⟩ := hrow
    obtain ⟨l, hl⟩ : ∃ l, TableLayout.of s.tree o.element
      ((inside.map Call.head).head?.map Occurrence.element) = .ok l :=
      hs.exists_layout hrow
    obtain ⟨calls, hcalls, hperforms⟩ := executeTable_performs env
      (s := { s with visits := s.visits ++ [(.execute, o)] }) hs ho hcolumns hl
    rw [result_runCall_table hcommand htable hne, if_pos rfl]
    exact ⟨l, calls, tableExecuted_of_plan (rowPlan_of_layout hs ho hne' hcolumns hl hcalls) hs
      hflat hbuiltIn' hperforms⟩
  · rw [result_runCall_table hcommand htable hne, if_pos rfl]
    exact executeTable_without_rows
      (s := { s with visits := s.visits ++ [(.execute, o)] }) hs ho hnone

end Run

namespace Sample

theorem captioned_flat : captioned.Flat 1 :=
  captioned_sound.toCoherent.flat_of_all (p := 1) (by cbv)

/-- A table that executes `1`, with an `echo` in the header and two rows. In the first one a
variable is bound to a part of the cell. -/
def echoed : Tree :=
  ⟨#[⟨.document, [1], .top, false⟩, ⟨.element "table" [], [2, 4, 7], .below 0, false⟩,
  ⟨.element "tr" [], [3], .below 1, false⟩, ⟨.element "th" [], [], .below 2, false⟩,
  ⟨.element "tr" [], [5], .below 1, false⟩, ⟨.element "td" [], [6], .below 4, false⟩,
  ⟨.element "i" [], [], .below 5, false⟩, ⟨.element "tr" [], [8], .below 1, false⟩,
  ⟨.element "td" [], [], .below 7, false⟩]⟩

theorem echoed_sound : echoed.Sound := Tree.sound_of_agrees rfl ⟨by decide, rfl⟩ (by decide)

theorem echoed_flat : echoed.Flat 1 := echoed_sound.toCoherent.flat_of_all (p := 1) (by cbv)

/-- The call of the table. -/
def repeating : Occurrence := ⟨0, 0, 1, .execute, ⟨builtInNamespace, "execute"⟩, "1"⟩

/-- The `echo` in the header. -/
def headingEcho : Occurrence := ⟨1, 1, 3, .echo, ⟨builtInNamespace, "echo"⟩, "2"⟩

/-- The call in the first row. -/
def settingPart : Occurrence := ⟨2, 2, 6, .set, ⟨builtInNamespace, "set"⟩, "#y"⟩

/-- The calls of the table. -/
def echoedCalls : Call := .mk repeating [.mk headingEcho [], .mk settingPart []]

end Sample

namespace Run

/-- The one row of the table is gone through to its end. -/
theorem table_rows_executed_captioned : Sample.captioned.Sound ∧ Sample.captioned.Flat 1 ∧
    ∃ l calls s',
    TableExecuted Sample.surroundings Sample.tabling [Sample.captioning, Sample.heading] l calls
      { Sample.start Sample.captioned with visits := [(.execute, Sample.tabling)] }
      (.ok (), s') := by
  have hinside : ∀ c ∈ [Call.mk Sample.captioning [], .mk Sample.heading []],
      Sample.captioned.isElement c.head.element = true ∧ c.head.command.isBuiltIn = true := by
    simp only [List.forall_mem_cons, List.not_mem_nil]
    exact ⟨⟨rfl, rfl⟩, ⟨rfl, rfl⟩, nofun⟩
  have hrow : Sample.captioned.Found 1 "tr" 7 := by
    have hsearch : Sample.captioned.descendants 1 "tr" = .ok [4, 7] := by cbv
    obtain ⟨-, -, hall⟩ :=
      (Sample.captioned_sound.toCoherent.descendants_iff (by decide)).mp hsearch
    exact (hall 7).mp (by simp)
  have htable : Sample.captioned.isNamed 1 "table" = true := by cbv
  have hends :
      ((runCall Sample.surroundings .execute (.mk Sample.tabling [.mk Sample.captioning [],
        .mk Sample.heading []])).result
      (Sample.start Sample.captioned)).1 = .ok () := by decide +kernel
  obtain ⟨l, calls, hexecuted⟩ : ∃ l calls, TableExecuted Sample.surroundings Sample.tabling
    [Sample.captioning, Sample.heading]
      l calls { Sample.start Sample.captioned with visits := [(.execute, Sample.tabling)] }
      ((runCall Sample.surroundings .execute (.mk Sample.tabling [.mk Sample.captioning [],
        .mk Sample.heading []])).result
        (Sample.start Sample.captioned)) :=
    (table_rows_executed (s := Sample.start Sample.captioned) (o := Sample.tabling)
      Sample.captioned_sound rfl rfl htable
      (List.cons_ne_nil _ _) (fun c hc => (hinside c hc).1) Sample.captioned_flat fun c hc =>
        (hinside c hc).2).2.1 ⟨7, hrow⟩
  rw [yields_result hends] at hexecuted
  exact ⟨Sample.captioned_sound, Sample.captioned_flat, l, calls, _, hexecuted⟩

/-- The `echo` in the first row cuts off the element of another call of the table, and so the calls
of the second row, where the `echo` has a cell as well, can not be told: the run ends there. -/
theorem table_rows_cut_short : Sample.echoed.Sound ∧ Sample.echoed.Flat 1 ∧
    Sample.surroundings.bus = [] ∧
    (∃ l, TableLayout.of Sample.echoed 1 (some 3) = .ok l ∧ 7 ∈ l.rows ∧
      (Sample.headingEcho, 8) ∈ l.placed Sample.echoed [Sample.headingEcho, Sample.settingPart] 7) ∧
    ∃ s', (runCall Sample.surroundings .execute Sample.echoedCalls).result
      (Sample.start Sample.echoed) =
      (.error (.element (.stale "i")), s') ∧ ∀ v ∈ s'.visits, v.2.element ≠ 8 := by
  have hlayout : TableLayout.of Sample.echoed 1 (some 3) = .ok ⟨2, [4, 7]⟩ := by cbv
  have hplaced :
      TableLayout.placed ⟨2, [4, 7]⟩ Sample.echoed [Sample.headingEcho, Sample.settingPart] 7 =
      [(Sample.headingEcho, 8)] := by cbv
  have hrun : (fun r => (r.1, r.2.visits.map fun v => v.2.element))
      ((runCall Sample.surroundings .execute Sample.echoedCalls).result
        (Sample.start Sample.echoed)) =
        (.error (.element (.stale "i")), [1, 5, 5, 5]) := by decide +kernel
  have hfails :
      ((runCall Sample.surroundings .execute Sample.echoedCalls).result
        (Sample.start Sample.echoed)).1 =
      .error (.element (.stale "i")) := congrArg Prod.fst hrun
  have hvisits :
      ((runCall Sample.surroundings .execute Sample.echoedCalls).result
        (Sample.start Sample.echoed)).2.visits.map
      (fun v => v.2.element) = [1, 5, 5, 5] := congrArg Prod.snd hrun
  refine ⟨Sample.echoed_sound, Sample.echoed_flat, rfl, ⟨_, hlayout, by simp, by simp [hplaced]⟩, _,
    Prod.ext hfails rfl, fun v hv hcell => ?_⟩
  have hmem := List.mem_map_of_mem (f := fun v : Phase × Occurrence => v.2.element) hv
  rw [hvisits, hcell] at hmem
  revert hmem
  decide

end Run
end LiveSpec
