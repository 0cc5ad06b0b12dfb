import LiveSpec.Proofs.Table.Layout
import LiveSpec.Proofs.Tree.Search

/-!
# The header and its columns

The header of a table is found by going up from the first call of the table, and the column of a
call by going up from its element to the header. Read downwards: the header is the first row that
the first call is reached from, or the first row of all if it is reached from none
(`Coherent.layout_header`), and a call belongs to the column of the cell of the header that it is
reached from (`Coherent.columnOf_eq_some_iff`). To go up from what stands in the document never
fails (`Coherent.exists_column?`).
-/

namespace LiveSpec

open Markup Markup.Tree TableLayout

variable {t : Tree} {n p a c table first : NodeId} {l : TableLayout} {d f : Nat}
  {columns : List Occurrence}

/-- The column of the header that an element belongs to, if there is one. -/
def TableLayout.columnOf (l : TableLayout) (t : Tree) (n : NodeId) : Option Nat :=
  (l.column? t n).toOption.join

/-- The commands of the header that have a cell in a row, each with the cell in its column. -/
def TableLayout.placed (l : TableLayout) (t : Tree) (columns : List Occurrence) (row : NodeId) :
    List (Occurrence × NodeId) :=
  columns.filterMap fun o => ((l.columnOf t o.element).bind fun i => (cellsOf t row)[i]?).map
    fun cell => (o, cell)

namespace Markup.Tree

section Upward

variable (ht : t.Coherent)
include ht

/-! ## The way up -/

/-- The element above a standing node is the one that it is a child of. -/
theorem Coherent.parent?_eq_some_iff (hn : t.Standing n) :
    t.parent? n = .ok (some p) ↔ n ∈ (t.node p).children ∧ t.isElement p = true := by
  unfold parent? ensureLive
  rw [if_pos (ht.isLive_of_standing hn)]
  constructor
  · intro h
    cases hup : t.above n with
    | parent q =>
      rw [hup] at h
      have hmem := (ht.listed_of_above hn hup).2
      dsimp only at h
      split at h
      · next hq =>
        cases h
        exact ⟨hmem, hq⟩
      · cases h
    | top => rw [hup] at h; cases h
    | lost => rw [hup] at h; cases h
  · rintro ⟨hmem, hp⟩
    rw [ht.above_of_mem (ht.standing_parent hn hmem) hmem]
    dsimp only
    rw [if_pos hp]
    rfl

/-- The way up from a standing node can be taken. -/
theorem Coherent.exists_parent? (hn : t.Standing n) : ∃ r, t.parent? n = .ok r := by
  unfold parent? ensureLive
  rw [if_pos (ht.isLive_of_standing hn)]
  cases t.above n <;> exact ⟨_, rfl⟩

/-- From what is cut off there is no way up. -/
theorem Coherent.parent?_eq_error (hlt : n < t.nodes.size) (hn : ¬ t.Standing n) :
    ∃ e, t.parent? n = .error e := by
  unfold parent? ensureLive
  rw [if_neg fun hlive => hn ((ht.isLive_iff hlt).mp hlive)]
  exact ⟨_, rfl⟩

/-- An element lies in another one if it is reached from it. -/
theorem Coherent.isWithin_iff (hd : t.Depth n d) (hf : d < f) (ha : t.isElement a = true)
    (hn : t.isElement n = true) :
    isWithin t a f n = true ↔ t.Reaches a n := by
  induction f generalizing n d with
  | zero => omega
  | succ f ih =>
    unfold isWithin
    rw [Bool.or_eq_true, beq_iff_eq]
    constructor
    · rintro (rfl | h)
      · exact .self
      · split at h
        · next p hp =>
          obtain ⟨k, rfl, hk⟩ := ht.depth_parent? hd hp
          obtain ⟨hmem, hpel⟩ := (ht.parent?_eq_some_iff hd.standing).mp hp
          exact .child ((ih hk (by omega) hpel).mp h) (mem_elementsOf.mpr ⟨hmem, hn⟩)
        · cases h
    · intro h
      cases h with
      | self => exact .inl rfl
      | @child p _ hap hc =>
        refine .inr ?_
        have hpel : t.isElement p = true := by
          cases hap with
          | self => exact ha
          | child _ hc' => exact (mem_elementsOf.mp hc').2
        have hp := (ht.parent?_eq_some_iff hd.standing).mpr ⟨(mem_elementsOf.mp hc).1, hpel⟩
        obtain ⟨k, rfl, hk⟩ := ht.depth_parent? hd hp
        rw [hp]
        exact (ih hk (by omega) hpel).mpr hap

/-- The search for the header goes up far enough. -/
theorem Coherent.isWithin_search (hs : t.Standing a) (ha : t.isElement a = true)
    (hn : t.isElement n = true) :
    isWithin t a (t.nodes.size + 1) n = true ↔ t.Reaches a n := by
  by_cases hstanding : t.Standing n
  · obtain ⟨d, hd⟩ := hstanding.depth
    exact ht.isWithin_iff hd (Nat.lt_succ_of_lt (ht.depth_lt hd)) ha hn
  · obtain ⟨e, he⟩ := ht.parent?_eq_error (lt_size_of_isElement hn) hstanding
    refine iff_of_false (fun h => ?_) fun hreach => hstanding (hs.under hreach.under)
    unfold isWithin at h
    rw [he, Bool.or_false, beq_iff_eq] at h
    exact hstanding (h ▸ hs)

/-! ## Columns -/

/-- The column of what stands in the document can be told. -/
theorem Coherent.exists_columnWithin {header : NodeId} (hn : t.Standing n) :
    ∃ r, columnWithin t header f n = .ok r := by
  induction f generalizing n with
  | zero => exact ⟨none, rfl⟩
  | succ f ih =>
    unfold columnWithin
    obtain ⟨r, hr⟩ := ht.exists_parent? hn
    rw [hr]
    cases r with
    | none => exact ⟨none, rfl⟩
    | some p =>
      have hp := ht.standing_parent hn ((ht.parent?_eq_some_iff hn).mp hr).1
      show ∃ r, (if p = header then _ else columnWithin t header f p) = Except.ok r
      split
      · next he =>
        subst he
        exact ⟨_, Except.bind_eq_ok.mpr ⟨_, cells_eq_ok.mpr ⟨ht.isLive_of_standing hp, rfl⟩, rfl⟩⟩
      · exact ih hp

theorem Coherent.exists_column? (hn : t.Standing n) : ∃ r, l.column? t n = .ok r :=
  ht.exists_columnWithin hn

/-- A cell of the header is at one place among the cells. -/
theorem Coherent.findIdx?_cells {header : NodeId} {i : Nat} :
    (cellsOf t header).findIdx? (· == n) = some i ↔ (cellsOf t header)[i]? = some n := by
  have hnodup : (cellsOf t header).Nodup := ((ht.nodup header).filter _).filter _
  rw [List.findIdx?_eq_some_iff_getElem, List.getElem?_eq_some_iff]
  constructor
  · rintro ⟨hi, heq, -⟩
    exact ⟨hi, beq_iff_eq.mp heq⟩
  · rintro ⟨hi, heq⟩
    refine ⟨hi, beq_iff_eq.mpr heq, fun j hj hjn => ?_⟩
    have := hnodup.getElem_inj_iff.mp ((beq_iff_eq.mp hjn).trans heq.symm)
    omega

/-- What is reached from a cell of the header has the header or another element above it. -/
theorem Coherent.exists_parent?_of_cell {header cell : NodeId} (hn : t.Standing n)
    (hheader : t.isElement header = true) (hcell : cell ∈ cellsOf t header)
    (hreach : t.Reaches cell n) : ∃ p, t.parent? n = .ok (some p) := by
  cases hreach with
  | self => exact ⟨header, (ht.parent?_eq_some_iff hn).mpr ⟨(mem_cellsOf.mp hcell).1, hheader⟩⟩
  | @child p _ hp hc =>
    refine ⟨p, (ht.parent?_eq_some_iff hn).mpr ⟨(mem_elementsOf.mp hc).1, ?_⟩⟩
    cases hp with
    | self => exact (mem_cellsOf.mp hcell).2.1
    | child _ hc' => exact (mem_elementsOf.mp hc').2

theorem Coherent.columnWithin_eq_some_iff {header : NodeId} (hd : t.Depth n d) (hf : d < f)
    (hheader : t.isElement header = true) (hn : t.isElement n = true) {i : Nat} :
    columnWithin t header f n = .ok (some i) ↔ ∃ cell, (cellsOf t header)[i]? = some cell ∧
      t.Reaches cell n := by
  induction f generalizing n d with
  | zero => omega
  | succ f ih =>
    unfold columnWithin
    obtain ⟨r, hr⟩ := ht.exists_parent? hd.standing
    rw [hr]
    cases r with
    | none =>
      refine iff_of_false (fun h => Option.some_ne_none i (Except.ok.inj h).symm) ?_
      rintro ⟨cell, hi, hreach⟩
      obtain ⟨p, hp⟩ :=
        ht.exists_parent?_of_cell hd.standing hheader (List.mem_of_getElem? hi) hreach
      cases hr.symm.trans hp
    | some p =>
      obtain ⟨hmem, hpel⟩ := (ht.parent?_eq_some_iff hd.standing).mp hr
      obtain ⟨k, rfl, hk⟩ := ht.depth_parent? hd hr
      show (if p = header then (do return (← cells t header).findIdx? (· == n)) else
          columnWithin t header f p) = _ ↔ _
      split
      · next he =>
        subst he
        rw [show cells t p = .ok (cellsOf t p) from cells_eq_ok.mpr
          ⟨ht.isLive_of_standing hk.standing, rfl⟩]
        show Except.ok ((cellsOf t p).findIdx? (· == n)) = .ok (some i) ↔ _
        rw [Except.ok.injEq, ht.findIdx?_cells]
        constructor
        · exact fun hi => ⟨n, hi, .self⟩
        · rintro ⟨cell, hi, hreach⟩
          have hcell := (mem_cellsOf.mp (List.mem_of_getElem? hi)).1
          rcases ht.under_child hreach.under hmem with rfl | hu
          · exact hi
          · exact absurd hu (ht.not_under_child hk.standing hcell)
      · next hne =>
        rw [ih hk (by omega) hpel]
        refine exists_congr fun cell => and_congr_right fun hi =>
          ⟨fun h => .child h (mem_elementsOf.mpr ⟨hmem, hn⟩), ?_⟩
        intro hreach
        cases hreach with
        | self =>
          exact absurd (ht.parent_unique hmem (mem_cellsOf.mp (List.mem_of_getElem? hi)).1) hne
        | child hq hc => exact ht.parent_unique (mem_elementsOf.mp hc).1 hmem ▸ hq

/-- **The column of a call** is that of the cell of the header that it is reached from. -/
theorem Coherent.columnOf_eq_some_iff (hstanding : t.Standing l.header)
    (hheader : t.isElement l.header = true) (hn : t.isElement n = true) {i : Nat} :
    l.columnOf t n = some i ↔ ∃ cell, (cellsOf t l.header)[i]? = some cell ∧ t.Reaches cell n := by
  unfold columnOf
  by_cases hs : t.Standing n
  · obtain ⟨d, hd⟩ := hs.depth
    rw [← ht.columnWithin_eq_some_iff hd (Nat.lt_succ_of_lt (ht.depth_lt hd)) hheader hn]
    obtain ⟨r, hr⟩ := ht.exists_column? (l := l) hs
    rw [hr]
    unfold column? at hr
    rw [hr]
    cases r with
    | none =>
      exact iff_of_false (Option.some_ne_none i).symm fun h =>
        Option.some_ne_none i (Except.ok.inj h).symm
    | some j => exact ⟨fun h => congrArg Except.ok h, fun h => Except.ok.inj h⟩
  · -- what is cut off has no column, and nothing that stands reaches it
    refine iff_of_false ?_ ?_
    · obtain ⟨e, he⟩ := ht.parent?_eq_error (lt_size_of_isElement hn) hs
      unfold column? columnWithin
      rw [he]
      exact (Option.some_ne_none i).symm
    · rintro ⟨cell, hi, hreach⟩
      exact hs ((hstanding.child (mem_cellsOf.mp (List.mem_of_getElem? hi)).1).under hreach.under)

/-! ## The header -/

/-- **The header of a table** is the first row that the first call is reached from, or the first row
of all if it is reached from none. The rows are those that come after it. -/
theorem Coherent.layout_header (htable : table < t.nodes.size) (hfirst : t.isElement first = true)
    (h : TableLayout.of t table (some first) = .ok l) :
    ∃ before, t.descendants table "tr" = .ok (before ++ l.header :: l.rows) ∧
      (t.Reaches l.header first ∧ (∀ r ∈ before, ¬ t.Reaches r first) ∨
        before = [] ∧ ∀ r ∈ l.header :: l.rows, ¬ t.Reaches r first) := by
  unfold TableLayout.of at h
  obtain ⟨all, hall, h⟩ := Except.bind_eq_ok.mp h
  obtain ⟨-, -, hfound⟩ := (ht.descendants_iff htable).mp hall
  have hwithin :
      ∀ r ∈ all, (isWithin t r (t.nodes.size + 1) first = true ↔ t.Reaches r first) := fun r hr =>
    ht.isWithin_search ((hfound r).mp hr).standing ((hfound r).mp hr).element hfirst
  dsimp only at h
  cases hindex : all.findIdx? fun row => isWithin t row (t.nodes.size + 1) first with
  | none =>
    rw [hindex, Option.getD_none, List.drop_zero] at h
    have hnone := List.findIdx?_eq_none_iff.mp hindex
    split at h
    · cases h
      refine ⟨[], hall, .inr ⟨rfl, fun r hr hreach => ?_⟩⟩
      have := hnone r hr
      rw [(hwithin r hr).mpr hreach] at this
      cases this
    · cases h
  | some k =>
    rw [hindex, Option.getD_some] at h
    obtain ⟨hk, hat, hbefore⟩ := List.findIdx?_eq_some_iff_getElem.mp hindex
    rw [List.drop_eq_getElem_cons hk] at h
    cases h
    refine ⟨all.take k, ?_, .inl ⟨(hwithin _ (List.getElem_mem hk)).mp hat, fun r hr hreach => ?_⟩⟩
    · rw [hall, ← List.drop_eq_getElem_cons hk, List.take_append_drop]
    · obtain ⟨j, hj, rfl⟩ := List.mem_take_iff_getElem.mp hr
      exact hbefore j (by omega) ((hwithin _ (List.getElem_mem _)).mpr hreach)

/-- A table with a row has a layout. -/
theorem Coherent.exists_layout {row : NodeId} {first? : Option NodeId}
    (hrow : t.Found table "tr" row) :
    ∃ l, TableLayout.of t table first? = .ok l := by
  have hs := ht.standing_of_under hrow.under hrow.standing
  obtain ⟨all, hall⟩ : ∃ all, t.descendants table "tr" = .ok all := by
    unfold descendants walk ensureLive
    rw [if_pos (ht.isLive_of_standing hs)]
    exact ⟨_, rfl⟩
  obtain ⟨-, -, hfound⟩ := (ht.descendants_iff (ht.standing_lt hs)).mp hall
  have hpos : 0 < all.length := List.length_pos_of_mem ((hfound row).mpr hrow)
  cases hl : TableLayout.of t table first? with
  | ok l => exact ⟨l, rfl⟩
  | error e =>
    -- the header is one of the rows, so that something is left when those before it are dropped
    unfold TableLayout.of at hl
    rw [hall] at hl
    dsimp only [bind, Except.bind] at hl
    split at hl
    · cases hl
    · next hdrop =>
      have hle := List.drop_eq_nil_iff.mp hdrop
      cases first? with
      | none => exact absurd hle (Nat.not_le.mpr hpos)
      | some n =>
        dsimp only at hle
        cases hindex : all.findIdx? fun row => isWithin t row (t.nodes.size + 1) n with
        | none =>
          rw [hindex] at hle
          exact absurd hle (Nat.not_le.mpr hpos)
        | some k =>
          rw [hindex] at hle
          exact absurd hle (Nat.not_le.mpr (List.findIdx?_eq_some_iff_getElem.mp hindex).1)

end Upward

theorem mem_placed {row cell : NodeId} {o : Occurrence} : (o, cell) ∈ l.placed t columns row ↔
    o ∈ columns ∧ ∃ i, l.columnOf t o.element = some i ∧ (cellsOf t row)[i]? = some cell := by
  unfold placed
  rw [List.mem_filterMap]
  constructor
  · rintro ⟨o', ho', h⟩
    obtain ⟨cell', hcell, heq⟩ := Option.map_eq_some_iff.mp h
    cases heq
    exact ⟨ho', Option.bind_eq_some_iff.mp hcell⟩
  · rintro ⟨ho, hcell⟩
    exact ⟨o, ho, Option.map_eq_some_iff.mpr ⟨cell, Option.bind_eq_some_iff.mpr hcell, rfl⟩⟩

/-- The calls of a standing row can be told if the calls of the header stand in the document. -/
theorem Coherent.exists_inRow (ht : t.Coherent) {row : NodeId} (hrow : t.Standing row)
    (hcolumns : ∀ o ∈ columns, t.Standing o.element) :
    ∃ placed, l.inRow t columns row = .ok placed := by
  refine ⟨_, inRow_eq_ok.mpr ⟨ht.isLive_of_standing hrow, columns.map fun o =>
    ((l.columnOf t o.element).bind fun i => (cellsOf t row)[i]?).map fun cell => (o, cell), rfl,
    Except.mapM_eq_ok.mpr (List.forall₂_map_right_iff.mpr (List.forall₂_same.mpr fun o ho => ?_))⟩⟩
  obtain ⟨i?, hi⟩ := ht.exists_column? (l := l) (hcolumns o ho)
  refine placed_eq_ok.mpr ⟨i?, hi, ?_⟩
  unfold columnOf
  rw [hi]
  rfl

/-- The calls of a row are those of the header with the cells in their columns. -/
theorem inRow_eq_placed {row : NodeId} {placed : List (Occurrence × NodeId)}
    (h : l.inRow t columns row = .ok placed) :
    placed = l.placed t columns row := by
  obtain ⟨-, found, rfl, hfound⟩ := inRow_eq_ok.mp h
  have hmap : found = columns.map fun o =>
      ((l.columnOf t o.element).bind fun i => (cellsOf t row)[i]?).map fun cell => (o, cell) := by
    refine List.forall₂_eq_eq_eq ▸ List.forall₂_map_right_iff.mpr
      ((Except.mapM_eq_ok.mp hfound).flip.imp fun o y hy => ?_)
    obtain ⟨i?, hi, rfl⟩ := placed_eq_ok.mp hy
    unfold columnOf
    rw [hi]
    rfl
  unfold placed
  rw [hmap, List.filterMap_map]
  rfl

end Markup.Tree
end LiveSpec
