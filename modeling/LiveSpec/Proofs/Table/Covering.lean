import LiveSpec.Proofs.Table.Sparing

/-!
# Every row gets its calls

A table is driven row by row, while the calls of one row may change the table. `Passing` says that
the header and the rows that are still to come have the cells that they had at the start, as far as
they stand. So each command of the header is moved to the cell that it had in a row at the start,
and goes through all phases there: for every row of a table-driven `execute`
(`executeTable_covers`), and for every row that `verifyRows` gives to an item (`reconcile_covers`).
-/

namespace LiveSpec

open Markup (NodeId Tree)
open TableLayout (cellsOf)

/-- The tree while a table is gone through: what became of the tree at the start. -/
structure Passing (spared : List NodeId) (t₀ t : Tree) : Prop where
  onward : t₀.Onward t
  sound : t.Sound
  cells {x : NodeId} : x ∈ spared → t.Standing x → cellsOf t x = cellsOf t₀ x

variable {t₀ t t' : Tree} {table row : NodeId} {spared spared' : List NodeId} {l : TableLayout}

namespace Passing

theorem start (ht : t₀.Sound) : Passing spared t₀ t₀ := ⟨.refl, ht, fun _ _ => rfl⟩

theorem next (h : Passing spared t₀ t) (hsub : ∀ x ∈ spared', x ∈ spared)
    (hlt : ∀ x ∈ spared, x < t₀.nodes.size) (hgo : t.Onward t') (ht' : t'.Sound)
    (hcells : ∀ x ∈ spared', t'.Standing x → cellsOf t' x = cellsOf t x) :
    Passing spared' t₀ t' := by
  refine ⟨h.onward.trans hgo, ht', fun {x} hx hstanding =>
    (hcells x hx hstanding).trans (h.cells (hsub x hx) ?_)⟩
  have hxt := Nat.lt_of_lt_of_le (hlt x (hsub x hx)) h.onward.size_le
  exact hgo.standing h.sound.toCoherent ht'.toCoherent hxt hstanding

/-- The commands of a row are those that it had at the start. -/
theorem inRow (h : Passing spared t₀ t) (ht : t₀.Sound) (hstanding : ∀ x ∈ spared, t₀.Standing x)
    (hheader : l.header ∈ spared) (hrow : row ∈ spared) {columns : List Occurrence}
    (hcolumns : ∀ o ∈ columns, o.element < t₀.nodes.size) {placed : List (Occurrence × NodeId)}
    (hplaced : l.inRow t columns row = .ok placed) : l.inRow t₀ columns row = .ok placed := by
  have hcells : ∀ x ∈ spared, ∀ cs, TableLayout.cells t x = .ok cs →
      TableLayout.cells t₀ x = .ok cs := by
    intro x hx cs hcs
    obtain ⟨hlive, rfl⟩ := TableLayout.cells_eq_ok.mp hcs
    have hlt := Nat.lt_of_lt_of_le (ht.standing_lt (hstanding x hx)) h.onward.size_le
    have hnow := (h.sound.isLive_iff hlt).mp hlive
    exact TableLayout.cells_eq_ok.mpr ⟨ht.isLive_of_standing (hstanding x hx), h.cells hx hnow⟩
  exact ht.inRow_of_onward h.sound.toCoherent h.onward (hcells _ hheader)
    (hcells _ hrow) hcolumns hplaced

end Passing

namespace Run

variable {φ : Type} [Fixture φ] {env : Surroundings} {o : Occurrence}
  {columns calls : List Occurrence} {s s₁ s' : RunState φ}

/-- Every command of the header that has a cell in a row is moved there and goes through all phases.
-/
def Covers (t : Tree) (l : TableLayout) (columns : List Occurrence) (row : NodeId)
    (visits : List (Phase × Occurrence)) :
    Prop :=
  ∀ d ∈ columns, ∀ cell, t.HasCell l row d cell → ∀ p, ∃ slot,
    (p, { d with element := cell, slot := slot }) ∈ visits

theorem Covers.mono {visits visits' : List (Phase × Occurrence)} (h : Covers t l columns row visits)
    (hv : visits <+: visits') : Covers t l columns row visits' := fun d hd cell hcell p => by
  obtain ⟨slot, hmem⟩ := h d hd cell hcell p
  exact ⟨slot, hv.subset hmem⟩

omit [Fixture φ] in
theorem RowRun.covers (h : RowRun l columns row calls s s')
    (hinRow : ∀ placed, l.inRow s.tree columns row = .ok placed →
      l.inRow t₀ columns row = .ok placed) :
    Covers t₀ l columns row s'.visits := by
  intro d hd cell hcell p
  obtain ⟨placed, hplaced, hmoved⟩ := h.moved
  obtain ⟨c, hc, hmove⟩ := moved_of_hasCell (hinRow placed hplaced) hmoved hd hcell
  exact ⟨c.slot, hmove ▸ h.visited c hc p⟩

/-- What carries the passage over a row: the other rows are spared, and this one is covered. -/
theorem passing_row {between : Run φ Unit} (hpass : Passing spared t₀ s.tree) (ht : t₀.Sound)
    (hfound : ∀ x ∈ spared, t₀.Found table "tr" x) (hheader : l.header ∈ spared)
    (hrow : row ∈ spared) (hcolumns : ∀ o ∈ columns, o.element < t₀.nodes.size)
    (hsub : ∀ x ∈ spared', x ∈ spared) (hnot : row ∉ spared') (hbetween : Keeps Notes between)
    (hmoved : (retarget l columns row).Yields s calls s₁)
    (hran : (holding (calls.map Occurrence.element) (runRow env calls between)).Yields s₁ () s') :
    s.Onward s' ∧ Passing spared' t₀ s'.tree ∧ Covers t₀ l columns row s'.visits := by
  have hrun := row_spares hpass.sound hbetween hmoved hran
  have hlt : ∀ x ∈ spared, x < t₀.nodes.size := fun x hx => ht.standing_lt (hfound x hx).standing
  refine ⟨hrun.onward, hpass.next hsub hlt hrun.onward.tree hrun.onward.sound
    fun x hx hstanding => ?_,
    hrun.covers fun placed hplaced => ?_⟩
  · have hx₀ := hlt x (hsub x hx)
    refine hrun.spares x (Nat.lt_of_lt_of_le hx₀ hpass.onward.size_le)
      (fun he => hnot (he ▸ hx)) ?_ hstanding
    rw [hpass.onward.isNamed hx₀]
    exact (hfound x (hsub x hx)).isRow
  · exact hpass.inRow ht (fun x hx => (hfound x hx).standing) hheader hrow hcolumns hplaced

/-! ## An `execute` on a table -/

theorem executeRows_covers {rows : List NodeId} {u : Unit}
    (h : (executeRows env (runRow env) o columns l rows).Yields s u s') (ht : t₀.Sound)
    (hfound : ∀ x ∈ l.header :: rows, t₀.Found table "tr" x) (hnodup : (l.header :: rows).Nodup)
    (hcolumns : ∀ o ∈ columns, o.element < t₀.nodes.size)
    (hpass : Passing (l.header :: rows) t₀ s.tree) :
    s.Onward s' ∧ ∀ row ∈ rows, Covers t₀ l columns row s'.visits := by
  induction rows generalizing s with
  | nil =>
    obtain ⟨-, rfl⟩ := yields_pure.mp h
    exact ⟨(refl_of Notes s').onward hpass.sound, fun row hrow => by cases hrow⟩
  | cons row rows ih =>
    obtain ⟨calls, s₁, hmoved, h₁⟩ := yields_bind.mp h
    obtain ⟨_, s₂, hran, hrest⟩ := yields_bind.mp h₁
    have hsub : ∀ x ∈ l.header :: rows, x ∈ l.header :: row :: rows :=
      ((List.sublist_cons_self row rows).cons_cons l.header).subset
    have hnodup' : (row :: l.header :: rows).Nodup := (List.Perm.swap ..).nodup_iff.mp hnodup
    obtain ⟨hgo, hnext, hcovers⟩ := passing_row hpass ht hfound List.mem_cons_self
      (List.mem_cons_of_mem _ List.mem_cons_self) hcolumns hsub (List.nodup_cons.mp hnodup').1
      (executeAt_reports.keeps.mono .of_reports) hmoved hran
    obtain ⟨hgo', hall⟩ := ih hrest (fun x hx => hfound x (hsub x hx))
      (List.nodup_cons.mp hnodup').2 hnext
    refine ⟨hgo.trans hgo', fun r hr => ?_⟩
    rcases List.mem_cons.mp hr with rfl | hr
    · exact hcovers.mono hgo'.visits
    · exact hall r hr

theorem executeTable_covers {u : Unit} (h : (executeTable env (runRow env) o columns).Yields s u s')
    (hs : s.tree.Sound) (ho : s.tree.isElement o.element = true)
    (hcolumns : ∀ o ∈ columns, s.tree.isElement o.element = true) :
    s.Onward s' ∧ ∃ l, TableLayout.of s.tree o.element
      (columns.head?.map Occurrence.element) = .ok l ∧
      ∀ row ∈ l.rows, Covers s.tree l columns row s'.visits := by
  obtain ⟨l, s₀, hlayout, h₁⟩ := yields_bind.mp h
  obtain ⟨hl, rfl⟩ := yields_find.mp hlayout
  obtain ⟨s₁, s₂, hquiet, hrows, htidied⟩ := holding_spec h₁
  obtain ⟨-, hnodup, hfound⟩ := hs.layout_spec (Tree.lt_size_of_isElement ho) hl
  have hstart : Passing (l.header :: l.rows) s₀.tree s₁.tree := by
    rw [hquiet.tree]
    exact .start hs
  obtain ⟨hgo, hall⟩ := executeRows_covers hrows hs hfound hnodup
    (fun d hd => Tree.lt_size_of_isElement (hcolumns d hd)) hstart
  have hgo₂ := htidied.onward hgo.sound
  exact ⟨((Notes.of_quiet hquiet).onward hs).trans (hgo.trans hgo₂), l, hl,
    fun row hrow => (hall row hrow).mono hgo₂.visits⟩

/-! ## A comparison of rows -/

/-- A table that a comparison has passed over: the rows that are left can be passed over next, the
rows that were added are there, and those that were taken are covered. -/
structure PassedOver (t₀ : Tree) (l : TableLayout) (columns : List Occurrence) (fates : List Fate)
    (left : List NodeId) (s s' : RunState φ) : Prop where
  onward : s.Onward s'
  passing : Passing (l.header :: left) t₀ s'.tree
  added {key : String} {row : NodeId} : .missing key row ∈ fates → row < s'.tree.nodes.size
  covers {key : String} {row : NodeId} {calls : List Occurrence} : .shown key row calls ∈ fates →
    Covers t₀ l columns row s'.visits

/-- **A comparison passes over its table**, with one step for each fate of an item. -/
theorem Matching.passedOver {name : String} {key? : Option (Nat × Occurrence)} {items : List Value}
    {free left : List NodeId} {last : NodeId} {fates : List Fate}
    (h : Matching env (fun calls => runRow env calls (pure ())) o columns name l key? items s free
      last fates left s')
    (ht : t₀.Sound) (hfound : ∀ x ∈ l.header :: free, t₀.Found table "tr" x)
    (hnodup : (l.header :: free).Nodup) (hcolumns : ∀ o ∈ columns, o.element < t₀.nodes.size)
    (hlast : last < s.tree.nodes.size) (hpass : Passing (l.header :: free) t₀ s.tree) :
    PassedOver t₀ l columns fates left s s' := by
  induction h with
  | done => exact ⟨(refl_of Notes _).onward hpass.sound, hpass, nofun, nofun⟩
  | keyless hasked _ ih =>
    have hask := (askKey_spec hasked).notes
    have hgo := hask.onward hpass.sound
    rw [← hask.tree] at hpass
    have hrest := ih hfound hnodup (Nat.lt_of_lt_of_le hlast hgo.tree.size_le) hpass
    exact ⟨hgo.trans hrest.onward, hrest.passing,
      fun hmem => hrest.added ((List.mem_cons.mp hmem).resolve_left (by simp)),
      fun hmem => hrest.covers ((List.mem_cons.mp hmem).resolve_left (by simp))⟩
  | @shown _ _ s s₁ s₂ s₃ s' free others _ _ row _ _ _ hasked htaken hmoved hran _ ih =>
    have hask := (askKey_spec hasked).notes
    have hgo := hask.onward hpass.sound
    rw [← hask.tree] at hpass
    obtain ⟨hperm, hsublist, -⟩ := htaken.some
    have hnodup' : (row :: l.header :: others).Nodup :=
      ((hperm.cons l.header).trans (.swap ..)).nodup_iff.mp hnodup
    have hsub : ∀ x ∈ l.header :: others, x ∈ l.header :: free :=
      (hsublist.cons_cons l.header).subset
    obtain ⟨hgo₁, hnext, hcovers⟩ := passing_row hpass ht hfound List.mem_cons_self
      (List.mem_cons_of_mem _ (hperm.mem_iff.mpr List.mem_cons_self)) hcolumns hsub
        (List.nodup_cons.mp hnodup').1
      .pure hmoved hran
    have hboth := hgo.trans hgo₁
    have hrest := ih (fun x hx => hfound x (hsub x hx)) (List.nodup_cons.mp hnodup').2
      (Nat.lt_of_lt_of_le hlast hboth.tree.size_le) hnext
    refine ⟨hboth.trans hrest.onward, hrest.passing,
      fun hmem => hrest.added ((List.mem_cons.mp hmem).resolve_left (by simp)), fun hmem => ?_⟩
    rcases List.mem_cons.mp hmem with he | hmem
    · cases he
      exact hcovers.mono hrest.onward.visits
    · exact hrest.covers hmem
  | missing hasked _ hadded _ ih =>
    have hask := (askKey_spec hasked).notes
    have hgo := hask.onward hpass.sound
    rw [← hask.tree] at hpass
    have hmissing :=
      addMissingRow_spec hpass.sound (Nat.lt_of_lt_of_le hlast hgo.tree.size_le) hadded
    have hlt : ∀ x ∈ l.header :: _, x < t₀.nodes.size :=
      fun x hx => ht.standing_lt (hfound x hx).standing
    have hnext := hpass.next (fun _ => id) hlt hmissing.tree.onward hmissing.tree.sound
      fun x hx _ =>
      hmissing.tree.cellsOf_eq hpass.sound.toCoherent
        (Nat.lt_of_lt_of_le (hlt x hx) hpass.onward.size_le)
    have hrest := ih hfound hnodup hmissing.row_lt hnext
    refine ⟨hgo.trans (hmissing.onward.trans hrest.onward), hrest.passing, fun hmem => ?_,
      fun hmem => hrest.covers ((List.mem_cons.mp hmem).resolve_left (by simp))⟩
    rcases List.mem_cons.mp hmem with he | hmem
    · cases he
      exact Nat.lt_of_lt_of_le hmissing.row_lt hrest.onward.tree.size_le
    · exact hrest.added hmem

theorem reconcile_covers {name : String} {items : List Value} {a : Reconciliation}
    (h : (reconcile env (fun calls => runRow env calls (pure ())) o columns name
      items).Yields s a s')
    (hs : s.tree.Sound) (ho : s.tree.isElement o.element = true)
    (hcolumns : ∀ o ∈ columns, s.tree.isElement o.element = true) :
    s.Onward s' ∧ ∀ key row calls, .shown key row calls ∈ a.fates →
      Covers s.tree a.layout columns row s'.visits := by
  obtain ⟨key?, s₁, s₂, s₃, hlayout, -, -, hquiet, hmatching, hsurplus, htidied⟩ := reconcile_spec h
  obtain ⟨-, hnodup, hfound⟩ := hs.layout_spec (Tree.lt_size_of_isElement ho) hlayout
  have hlast := hs.standing_lt (hfound _ List.getLastD_mem_cons).standing
  have hstart : Passing (a.layout.header :: a.layout.rows) s.tree s₁.tree := by
    rw [hquiet.tree]
    exact .start hs
  have hpassed := hmatching.passedOver hs hfound hnodup
    (fun d hd => Tree.lt_size_of_isElement (hcolumns d hd))
    (hquiet.tree ▸ hlast) hstart
  have hgo := hpassed.onward
  have hgo₁ := (recordSurplus_notes hsurplus).onward hgo.sound
  have hgo₂ := hgo₁.trans (htidied.onward hgo₁.sound)
  refine ⟨((Notes.of_quiet hquiet).onward hs).trans (hgo.trans hgo₂), fun key row calls hmem => ?_⟩
  exact (hpassed.covers hmem).mono hgo₂.visits

end Run
end LiveSpec
