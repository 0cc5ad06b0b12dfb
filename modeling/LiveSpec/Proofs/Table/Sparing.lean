import LiveSpec.Proofs.Table.Matching

/-!
# Rows that are not touched

A call that runs on a cell leaves the cells of the other rows in place, whatever it does and however
tables are nested (`runRow_spares`): what it does at the cell spares the rows, and a comparison of
rows in the cell adds rows, but cells only to the rows it adds. So a row whose calls have run spares
the header and the rows that are still to come (`row_spares`), and each of them is met with the
cells that it had at the start.
-/

namespace LiveSpec

open Markup (NodeId Tree)
open TableLayout (cellsOf)

/-- Putting in what is filtered out makes no difference. -/
theorem Markup.Tree.filter_putAfter {f : NodeId → Bool} {a x : NodeId} (hx : f x = false)
    (l : List NodeId) :
    (Tree.putAfter a x l).filter f = l.filter f := by
  induction l with
  | nil => simp [Tree.putAfter, hx]
  | cons b l ih =>
    unfold Tree.putAfter
    split
    · simp [List.filter_cons, hx]
    · simp only [List.filter_cons, ih]

/-- A new row is no cell, so that the rows there were keep their cells. -/
theorem TableLayout.RowAdded.cellsOf_eq {t t' : Tree} {last row x : NodeId} (ht : t.Coherent)
    (h : RowAdded last row t t') (hx : x < t.nodes.size) : cellsOf t' x = cellsOf t x := by
  obtain ⟨p, -, -, hchildren⟩ := h.placed
  by_cases hp : x = p
  · subst hp
    have hrow : isCell t' row = false := by
      cases hc : isCell t' row with
      | false => rfl
      | true =>
        have := not_row_of_isCell hc
        rw [h.named] at this
        cases this
    have hboth : ∀ {t : Tree} {n : NodeId}, cellsOf t n = (t.node n).children.filter fun c =>
        t.isElement c && isCell t c := by
      intro t n
      unfold cellsOf Tree.elementsOf
      rw [List.filter_filter]
      exact List.filter_congr fun c _ => Bool.and_comm ..
    rw [hboth, hboth, hchildren x hx, if_pos rfl, Tree.filter_putAfter (by simp [hrow])]
    refine List.filter_congr fun c hc => ?_
    have hlt := ht.child_lt hc
    unfold isCell
    rw [h.onward.isElement hlt, h.onward.isNamed hlt, h.onward.isNamed hlt]
  · refine cellsOf_of_onward ht h.onward ?_
    rw [hchildren x hx, if_neg hp]

variable {φ : Type} {s s' : RunState φ} {ns : List NodeId}

theorem Spares.of_tidied (h : Tidied s s') : Spares ns s s' := fun hs _ => by
  have hr := h.released hs
  refine ⟨h.onward hs, fun x _ _ hsx _ => cellsOf_of_onward hs.toCoherent hr.onward ?_⟩
  rw [hr.node (hr.standing_iff.mp hsx)]

namespace Run

variable {l : TableLayout} {key : String} {row last : NodeId} {columns calls : List Occurrence}
  {o : Occurrence} {name : String} {key? : Option (Nat × Occurrence)} {items : List Value}
  {a : Reconciliation}

theorem MissingAdded.onward (h : MissingAdded last row key s s') : s.Onward s' :=
  ⟨h.tree.onward, h.tree.sound, h.visits ▸ List.prefix_rfl, h.outcomes ▸ List.prefix_append ..⟩

theorem MissingAdded.spares (h : MissingAdded last row key s s') : Spares ns s s' := fun hs _ =>
  ⟨h.onward, fun _ hx _ _ _ => h.tree.cellsOf_eq hs.toCoherent hx⟩

theorem MissingAdded.row_lt (h : MissingAdded last row key s s') : row < s'.tree.nodes.size := by
  obtain ⟨p, hp, hmem, hchildren⟩ := h.tree.placed
  have hplt := Tree.lt_size_of_mem_children hmem
  refine h.tree.sound.child_lt (p := p) ?_
  rw [hchildren p hplt, if_pos rfl]
  exact (Markup.Tree.perm_putAfter ..).mem_iff.mpr List.mem_cons_self

theorem Evaluated.notes {α : Type} {n : NodeId} {v? : Option α} (h : Evaluated n v? s s') :
    Notes s s' := by
  obtain ⟨xs, hxs, -⟩ := h.outcomes
  exact ⟨h.tree, h.visits ▸ List.prefix_rfl, hxs ▸ List.prefix_append ..⟩

/-! ## A comparison within a cell -/

/-- A tree as the calls of a row need it: sound, and none of their elements is a row. -/
def Ready (ns : List NodeId) (s : RunState φ) : Prop := s.tree.Sound ∧ Rowless s.tree ns

theorem Ready.spares (hs : Ready ns s) (h : Spares ns s s') : Ready ns s' ∧ s.Onward s' := by
  obtain ⟨hgo, -⟩ := h hs.1 hs.2
  exact ⟨⟨hgo.sound, hs.2.mono hgo.tree⟩, hgo⟩

section Within

variable [Fixture φ] {env : Surroundings} {p : Phase}

/-- Items are given their rows, and nothing runs on these: keys are asked for, what nobody holds is
let go, and rows are added, each after a place that is known to be good. -/
theorem Matching.keeps {R : RunState φ → RunState φ → Prop} [IsPreorder (RunState φ) R]
    {P : NodeId → RunState φ → Prop}
    (hsound : ∀ {last s}, P last s → s.tree.Sound ∧ last < s.tree.nodes.size)
    (hkeep : ∀ {last s s'}, P last s → R s s' → P last s')
    (hasks : ∀ {v? : Option String} {s s'}, Evaluated o.element v? s s' → R s s')
    (htidies : ∀ {s s'}, Tidied s s' → R s s')
    (hadds : ∀ {last row key s s'}, P last s → MissingAdded last row key s s' → R s s' ∧ P row s')
    {free left : List NodeId} {fates : List Fate}
    (h : Matching env (fun _ => pure ()) o columns name l key? items s free last fates left s')
    (hp : P last s) : R s s' := by
  induction h with
  | done => exact refl_of R _
  | keyless hasked _ ih =>
    have hask := hasks (askKey_spec hasked)
    exact trans_of R hask (ih (hkeep hp hask))
  | @shown _ _ s s₁ s₂ s₃ _ _ _ _ _ _ _ _ _ hasked _ hmoved hran _ ih =>
    obtain ⟨s₄, s₅, hq, hrun, htidied⟩ := holding_spec hran
    obtain ⟨-, rfl⟩ := yields_pure.mp hrun
    have hask : R s s₁ := hasks (askKey_spec hasked)
    have hquiet : R s₁ s₅ := hasks (.of_quiet (v := "") (trans_of Quiet (retarget_quiet hmoved) hq))
    have hrow : R s s₃ := trans_of R hask (trans_of R hquiet (htidies htidied))
    exact trans_of R hrow (ih (hkeep hp hrow))
  | missing hasked _ hadded _ ih =>
    have hask := hasks (askKey_spec hasked)
    have hp₁ := hkeep hp hask
    obtain ⟨hsound₁, hlast⟩ := hsound hp₁
    obtain ⟨hmissing, hp₂⟩ := hadds hp₁ (addMissingRow_spec hsound₁ hlast hadded)
    exact trans_of R hask (trans_of R hmissing (ih hp₂))

theorem Matching.spares {free left : List NodeId} {fates : List Fate}
    (h : Matching env (fun _ => pure ()) o columns name l key? items s free last fates left s')
    (hs : Ready ns s) (hlast : last < s.tree.nodes.size) : Spares ns s s' := by
  refine h.keeps (P := fun last s => Ready ns s ∧ last < s.tree.nodes.size)
    (fun hp => ⟨hp.1.1, hp.2⟩) (fun hp h => ?_)
    (fun h => .of_notes h.notes) .of_tidied
      (fun hp h => ⟨h.spares, (hp.1.spares h.spares).1, h.row_lt⟩) ⟨hs, hlast⟩
  obtain ⟨hready, hgo⟩ := hp.1.spares h
  exact ⟨hready, Nat.lt_of_lt_of_le hp.2 hgo.tree.size_le⟩

omit [Fixture φ] in
theorem recordSurplus_notes {column : Nat} {rows : List NodeId} :
    Keeps Notes (recordSurplus env column rows : Run φ Unit) :=
  fun _ _ _ h => by
    obtain ⟨htree, hvisits, _, -, houtcomes⟩ := recordSurplus_spec h
    exact ⟨htree, hvisits ▸ List.prefix_rfl, houtcomes ▸ List.prefix_append ..⟩

theorem reconcile_spares (ho : o.element ∈ ns) :
    Keeps (Spares ns) (reconcile env (fun _ => pure ()) o columns name items : Run φ _) :=
  fun s a s' h hs hns => by
  obtain ⟨key?, s₁, s₂, s₃, hlayout, -, -, hquiet, hmatching, hsurplus, htidied⟩ := reconcile_spec h
  obtain ⟨-, -, hfound⟩ := hs.layout_spec (Tree.lt_size_of_isElement (hns _ ho).1) hlayout
  have hlast := hs.standing_lt (hfound _ List.getLastD_mem_cons).standing
  have h₁ : Spares ns s s₁ := .of_notes (.of_quiet hquiet)
  have hs₁ : Ready ns s₁ := ⟨hquiet.tree ▸ hs, hquiet.tree ▸ hns⟩
  have h₂ : Spares ns s₁ s₂ := hmatching.spares hs₁ (hquiet.tree ▸ hlast)
  have h₃ : Spares ns s₂ s₃ := .of_notes (recordSurplus_notes hsurplus)
  exact trans_of (Spares ns) h₁
    (trans_of (Spares ns) h₂ (trans_of (Spares ns) h₃ (.of_tidied htidied))) hs hns

/-- A comparison of rows within a cell spares the rows: those it adds have new cells only. -/
theorem verifyRows_spares (ho : o.element ∈ ns) :
    Keeps (Spares ns) (verifyRows env (fun _ between => between) o [] p : Run φ Unit) := by
  cases p with
  | setup => exact .pure
  | execute => exact produceItems_reports.keeps.mono fun r => .of_notes (.of_reports r)
  | verify =>
    intro s _ s' hy
    rcases compareRows_spec hy with ⟨rfl, -⟩ | ⟨items, name, sequence, a, -, -, hreconcile⟩
    · exact refl_of (Spares ns) s'
    · exact reconcile_spares ho hreconcile

end Within

/-! ## The calls of a row -/

section Sparing

variable [Fixture φ] {env : Surroundings} {p : Phase} {between : Run φ Unit}

theorem part_spares (ho : o.element ∈ ns) : Keeps (Spares ns) (part env o p : Run φ Unit) :=
  part_keeps (.of_deeds ho) fun _ => verifyRows_spares ho

omit [Fixture φ] in
theorem visit_spares (s : RunState φ) (p : Phase) (o : Occurrence) :
    Spares ns s { s with visits := s.visits ++ [(p, o)] } :=
  .of_notes ⟨rfl, List.prefix_append .., List.prefix_rfl⟩

/-- **The calls of a row spare the rows** that none of their elements is a cell of, and all of them
are visited in each phase. -/
theorem runRow_spares (hcalls : ∀ c ∈ calls, c.element ∈ ns) (hbetween : Keeps (Spares ns) between)
    (hs : Ready ns s) {u : Unit} (h : (runRow env calls between).Yields s u s') :
    Spares ns s s' ∧ ∀ c ∈ calls, ∀ p, (p, c) ∈ s'.visits := by
  have hpart : ∀ c ∈ calls, ∀ p, Keeps (Spares ns) (part env c p : Run φ Unit) :=
    fun c hc p => part_spares (hcalls c hc)
  exact ⟨runRow_keeps visit_spares hpart hbetween h, visited_runRow
    (fun hs h => (hs.spares h).imp_right fun hgo => hgo.visits) visit_spares hpart hbetween hs h⟩

/-- What running a row of a table comes to. -/
structure RowRun (l : TableLayout) (columns : List Occurrence) (row : NodeId)
    (calls : List Occurrence) (s s' : RunState φ) : Prop where
  moved : ∃ placed, l.inRow s.tree columns row = .ok placed ∧
    List.Forall₂ (fun x c => Moved x.1 x.2 c) placed calls
  onward : s.Onward s'
  spares : ∀ x, x < s.tree.nodes.size → x ≠ row → s.tree.isNamed x "tr" = true →
    s'.tree.Standing x →
    cellsOf s'.tree x = cellsOf s.tree x
  visited : ∀ c ∈ calls, ∀ p, (p, c) ∈ s'.visits

/-- The commands of the header run on a row: the others keep their cells. -/
theorem row_spares {s₁ : RunState φ} (hs : s.tree.Sound) (hbetween : Keeps Notes between)
    (hmoved : (retarget l columns row).Yields s calls s₁)
    (hran : (holding (calls.map Occurrence.element) (runRow env calls between)).Yields s₁ () s') :
    RowRun l columns row calls s s' := by
  obtain ⟨hq, placed, hplaced, hmove⟩ := retarget_spec hmoved
  obtain ⟨s₂, s₃, hq', hrun, htidied⟩ := holding_spec hran
  have hquiet : Quiet s s₂ := trans_of Quiet hq hq'
  have hcell : ∀ n ∈ calls.map Occurrence.element, n ∈ cellsOf s.tree row := fun n hn => by
    obtain ⟨c, hc, rfl⟩ := List.mem_map.mp hn
    exact cell_of_moved hplaced hmove hc
  have hrowless : Rowless s.tree (calls.map Occurrence.element) := fun n hn => by
    obtain ⟨-, helement, hkind⟩ := TableLayout.mem_cellsOf.mp (hcell n hn)
    exact ⟨helement, TableLayout.not_row_of_isCell hkind⟩
  have hready : Ready (calls.map Occurrence.element) s₂ :=
    ⟨hquiet.tree ▸ hs, hquiet.tree ▸ hrowless⟩
  obtain ⟨hspares, hvisited⟩ := runRow_spares (fun c hc => List.mem_map_of_mem hc)
    (hbetween.mono .of_notes) hready hrun
  have hall : Spares (calls.map Occurrence.element) s s' :=
    trans_of (Spares _) (.of_notes (.of_quiet hquiet))
      (trans_of (Spares _) hspares (.of_tidied htidied))
  obtain ⟨hgo, hsp⟩ := hall hs hrowless
  refine ⟨⟨placed, hplaced, hmove⟩, hgo, fun x hx hne hrow hsx => hsp x hx hrow hsx fun n hn hmem =>
    hne ?_, fun c hc p => ?_⟩
  · exact hs.parent_unique hmem (TableLayout.mem_cellsOf.mp (hcell n hn)).1
  · rw [htidied.visits]
    exact hvisited c hc p

end Sparing

end Run
end LiveSpec
