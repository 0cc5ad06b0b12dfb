import LiveSpec.Proofs.Tree.Reading
import LiveSpec.Run.Table

/-!
# Where the commands of a header belong

The rows of a layout stand below the table, each is there once, and all are named `tr`
(`Coherent.layout_spec`). What a later tree says of the column of a command, or of the commands that
have a cell in a row, is what the earlier tree said, as long as header and row keep their cells
(`Coherent.column?_of_onward`, `Coherent.inRow_of_onward`): the way up from a node is either as it
was or cut, and then nothing is said at all.
-/

namespace LiveSpec

open Markup Markup.Tree

variable {t t' : Tree} {n p c row table : NodeId} {l : TableLayout} {column d f g : Nat}

/-! ## Cells -/

namespace TableLayout

/-- Says whether an element is a cell. -/
def isCell (t : Tree) (c : NodeId) : Bool := t.isNamed c "th" || t.isNamed c "td"

/-- The cells of a row, whether or not the row is live. -/
def cellsOf (t : Tree) (row : NodeId) : List NodeId := (t.elementsOf row).filter (isCell t)

theorem cells_eq_ok {cs : List NodeId} : cells t row = .ok cs ↔
    t.isLive row = true ∧ cs = cellsOf t row := by
  unfold cells childElements ensureLive
  by_cases hlive : t.isLive row = true
  · rw [if_pos hlive]
    exact ⟨fun h => ⟨hlive, (Except.ok.inj h).symm⟩, fun h => h.2 ▸ rfl⟩
  · rw [if_neg hlive]
    refine ⟨fun h => ?_, fun h => absurd h.1 hlive⟩
    cases h

theorem mem_cellsOf : c ∈ cellsOf t row ↔ c ∈ (t.node row).children ∧ t.isElement c = true ∧
    isCell t c = true := by
  unfold cellsOf elementsOf
  rw [List.mem_filter, List.mem_filter, and_assoc]

/-- No cell is a row. -/
theorem not_row_of_isCell (h : isCell t c = true) : t.isNamed c "tr" = false := by
  have hth : Text.asciiLower "th" = "th" := by cbv
  have htd : Text.asciiLower "td" = "td" := by cbv
  have htr : Text.asciiLower "tr" = "tr" := by cbv
  unfold isCell at h
  unfold isNamed Text.sameName at h ⊢
  rw [hth, htd] at h
  rw [htr]
  rcases Bool.or_eq_true_iff.mp h with h | h
  · rw [eq_of_beq h]; decide
  · rw [eq_of_beq h]; decide

/-- A row that keeps its children keeps its cells. -/
theorem cellsOf_congr (hchildren : (t'.node row).children = (t.node row).children)
    (hcontent : ∀ c ∈ (t.node row).children, (t'.node c).content = (t.node c).content) :
    cellsOf t' row = cellsOf t row := by
  have helement : t'.elementsOf row = t.elementsOf row := by
    unfold elementsOf
    rw [hchildren]
    exact List.filter_congr fun c hc => isElement_congr (hcontent c hc)
  unfold cellsOf
  rw [helement]
  refine List.filter_congr fun c hc => ?_
  have := hcontent c (List.mem_of_mem_filter hc)
  unfold isCell
  rw [isNamed_congr this, isNamed_congr this]

/-- The text that a row is known by, whether or not the row is live. -/
def keyOf (t : Tree) (column : Nat) (row : NodeId) : String :=
  ((cellsOf t row)[column]?.map fun c => Text.normal (t.text c)).getD ""

theorem keyText_eq_ok {k : String} :
    keyText t column row = .ok k ↔ t.isLive row = true ∧ k = keyOf t column row := by
  unfold keyText
  rw [Except.bind_eq_ok]
  constructor
  · rintro ⟨cs, hcs, h⟩
    obtain ⟨hlive, rfl⟩ := cells_eq_ok.mp hcs
    exact ⟨hlive, (Except.pure_eq_ok.mp h).symm⟩
  · rintro ⟨hlive, rfl⟩
    exact ⟨_, cells_eq_ok.mpr ⟨hlive, rfl⟩, rfl⟩

end TableLayout

open TableLayout

namespace Markup.Tree

/-- A standing row whose branch is as it was shows the text that it showed. -/
theorem Coherent.keyOf_eq (ht : t.Coherent) (hsize : t.nodes.size ≤ t'.nodes.size)
    (hrow : t.Standing row) (h : t.Untouched t' row) :
    keyOf t' column row = keyOf t column row := by
  have hcells : cellsOf t' row = cellsOf t row :=
    cellsOf_congr (h.children .self) fun c hc => h.content (.of_mem_children hc)
  unfold keyOf
  rw [hcells]
  cases hc : (cellsOf t row)[column]? with
  | none => rw [Option.map_none, Option.map_none]
  | some c =>
    have hmem := (mem_cellsOf.mp (List.mem_of_getElem? hc)).1
    rw [Option.map_some, Option.map_some,
      ht.text_eq hsize (hrow.child hmem) (h.mono (.of_mem_children hmem))]

/-! ## The rows of a layout -/

/-- The rows of a layout are rows, whatever the shape of the tree. -/
theorem isNamed_of_mem_rows {first : Option NodeId} (h : TableLayout.of t table first = .ok l)
    (hrow : row ∈ l.header :: l.rows) : t.isNamed row "tr" = true := by
  unfold TableLayout.of at h
  obtain ⟨all, hall, h⟩ := Except.bind_eq_ok.mp h
  dsimp only at h
  split at h
  · next header rows hdrop =>
    cases h
    have hmem : row ∈ all := (List.drop_sublist _ all).subset (hdrop ▸ hrow)
    have htr : Text.asciiLower "tr" = "tr" := by cbv
    exact htr ▸ isNamed_of_mem_descendants hall hmem (by decide)
  · cases h

/-- **The rows of a table** stand below it, header included, and each is there once. -/
theorem Coherent.layout_spec (ht : t.Coherent) (htable : table < t.nodes.size)
    {first : Option NodeId} (h : TableLayout.of t table first = .ok l) :
    t.Standing table ∧ (l.header :: l.rows).Nodup ∧ ∀ r ∈ l.header :: l.rows,
      t.Found table "tr" r := by
  unfold TableLayout.of at h
  obtain ⟨all, hall, h⟩ := Except.bind_eq_ok.mp h
  obtain ⟨hstanding, hnodup, hfound⟩ := ht.descendants_spec htable hall
  dsimp only at h
  split at h
  · next header rows hdrop =>
    cases h
    have hsub : (header :: rows).Sublist all := hdrop ▸ List.drop_sublist ..
    exact ⟨hstanding, hsub.nodup hnodup, fun r hr => hfound r (hsub.subset hr)⟩
  · cases h

theorem Found.isRow (h : t.Found table "tr" row) : t.isNamed row "tr" = true := by
  have htr : Text.asciiLower "tr" = "tr" := by cbv
  exact htr ▸ h.named (by decide)

/-! ## The column of a command -/

/-- What a later tree says of the element above a node, the earlier one said. -/
theorem Coherent.parent?_of_onward (ht : t.Coherent) (ht' : t'.Coherent) (hgo : t.Onward t')
    (hn : n < t.nodes.size) {r : Option NodeId} (h : t'.parent? n = .ok r) :
    t.parent? n = .ok r := by
  unfold parent? ensureLive at h ⊢
  by_cases hlive' : t'.isLive n = true
  · have hs' := (ht'.isLive_iff (Nat.lt_of_lt_of_le hn hgo.size_le)).mp hlive'
    have hs := hgo.standing ht ht' hn hs'
    rw [if_pos hlive'] at h
    rw [if_pos (ht.isLive_of_standing hs)]
    have hup : t'.above n = t.above n := by
      rcases hs'.isTop_or_listed with htop | ⟨q, hq, hmem⟩
      · have hlink : (t.node n).link = .top := by
          rcases hgo.link hn with he | he
          · exact he ▸ htop.link
          · exact absurd (he.symm.trans htop.link) (by simp)
        rw [Coherent.above_top htop, Coherent.above_top ⟨hn, hlink⟩]
      · obtain ⟨-, hmem₀⟩ := hgo.listed ht ht' hn hmem
        rw [ht'.above_of_mem hq hmem, ht.above_of_mem (ht.standing_parent hs hmem₀) hmem₀]
    rw [hup] at h
    cases hp : t.above n with
    | parent q =>
      rw [hp] at h
      have hq := ht.standing_lt (ht.listed_of_above hs hp).1
      dsimp only at h ⊢
      rwa [hgo.isElement hq] at h
    | top => rw [hp] at h; exact h
    | lost => rw [hp] at h; exact h
  · rw [if_neg hlive'] at h
    cases h

/-- The element above a node stands one step less deep. -/
theorem Coherent.depth_parent? (ht : t.Coherent) (hd : t.Depth n d)
    (h : t.parent? n = .ok (some p)) :
    ∃ k, d = k + 1 ∧ t.Depth p k := by
  unfold parent? ensureLive at h
  rw [if_pos (ht.isLive_of_standing hd.standing)] at h
  cases hd with
  | top hr =>
    rw [Coherent.above_top hr] at h
    cases h
  | @child q _ k hq hc =>
    rw [ht.above_of_mem hq.standing hc] at h
    dsimp only at h
    split at h
    · cases h; exact ⟨k, rfl, hq⟩
    · cases h

theorem Coherent.columnWithin_fuel (ht : t.Coherent) {header : NodeId} (hd : t.Depth n d)
    (hf : d < f) (hg : d < g) :
    columnWithin t header f n = columnWithin t header g n := by
  induction f generalizing n d g with
  | zero => omega
  | succ f ih =>
    obtain ⟨g, rfl⟩ := Nat.exists_eq_succ_of_ne_zero (show g ≠ 0 by omega)
    unfold columnWithin
    cases hp : t.parent? n with
    | error e => rfl
    | ok parent =>
      cases parent with
      | none => rfl
      | some p =>
        obtain ⟨k, rfl, hk⟩ := ht.depth_parent? hd hp
        have hstep := ih hk (by omega) (show k < g by omega)
        show (if p = header then _ else columnWithin t header f p) =
            (if p = header then _ else columnWithin t header g p)
        rw [hstep]

theorem Coherent.columnWithin_of_onward (ht : t.Coherent) (ht' : t'.Coherent) (hgo : t.Onward t')
    {header : NodeId} (hcells : ∀ cs, cells t' header = .ok cs → cells t header = .ok cs)
    (hn : t.Standing n) {r : Option Nat} (h : columnWithin t' header f n = .ok r) :
    columnWithin t header f n = .ok r := by
  induction f generalizing n with
  | zero => exact h
  | succ f ih =>
    unfold columnWithin at h ⊢
    obtain ⟨parent, hp, h⟩ := Except.bind_eq_ok.mp h
    have hp₀ := ht.parent?_of_onward ht' hgo (ht.standing_lt hn) hp
    refine Except.bind_eq_ok.mpr ⟨parent, hp₀, ?_⟩
    cases parent with
    | none => exact h
    | some p =>
      dsimp only at h ⊢
      split at h
      · next heq =>
        obtain ⟨cs, hcs, h⟩ := Except.bind_eq_ok.mp h
        rw [if_pos heq]
        exact Except.bind_eq_ok.mpr ⟨cs, hcells cs hcs, h⟩
      · next hne =>
        obtain ⟨d, hd⟩ := hn.depth
        obtain ⟨k, -, hk⟩ := ht.depth_parent? hd hp₀
        rw [if_neg hne]
        exact ih hk.standing h

/-- What a later tree says of the column of a command, the earlier one said. -/
theorem Coherent.column?_of_onward (ht : t.Coherent) (ht' : t'.Coherent) (hgo : t.Onward t')
    (hcells : ∀ cs, cells t' l.header = .ok cs → cells t l.header = .ok cs) (hn : n < t.nodes.size)
    {r : Option Nat} (h : l.column? t' n = .ok r) : l.column? t n = .ok r := by
  -- the way up can be read, so the node stands, and then the size of either table is fuel enough
  have hlive : t'.isLive n = true := by
    unfold column? columnWithin at h
    obtain ⟨parent, hp, -⟩ := Except.bind_eq_ok.mp h
    unfold parent? ensureLive at hp
    by_cases hlive : t'.isLive n = true
    · exact hlive
    · rw [if_neg hlive] at hp; cases hp
  have hs := hgo.standing ht ht' hn ((ht'.isLive_iff (Nat.lt_of_lt_of_le hn hgo.size_le)).mp hlive)
  obtain ⟨d, hd⟩ := hs.depth
  have hlt := ht.depth_lt hd
  have hsize := hgo.size_le
  unfold column? at h ⊢
  rw [ht.columnWithin_fuel hd (show d < t.nodes.size + 1 by omega) (show d < t'.nodes.size +
    1 by omega)]
  exact ht.columnWithin_of_onward ht' hgo hcells hs h

/-! ## The commands of a row -/

/-- A command of the header with the cell that it has in a row. -/
structure HasCell (t : Tree) (l : TableLayout) (row : NodeId) (o : Occurrence)
    (cell : NodeId) : Prop where
  cell : ∃ i, l.column? t o.element = .ok (some i) ∧ (cellsOf t row)[i]? = some cell

theorem HasCell.mem {o : Occurrence} (h : HasCell t l row o c) : c ∈ cellsOf t row := by
  obtain ⟨i, -, hi⟩ := h.cell
  exact List.mem_of_getElem? hi

/-- Where a command of the header belongs in a row, if its column can be found. -/
theorem placed_eq_ok {o : Occurrence} {y : Option (Occurrence × NodeId)} {cs : List NodeId} :
    (do return ((← l.column? t o.element).bind fun i => cs[i]?).map fun cell => (o,
      cell) : Except TreeError _) = .ok y ↔
      ∃ i?, l.column? t o.element = .ok i? ∧ y = (i?.bind fun i => cs[i]?).map fun cell =>
        (o, cell) := by
  constructor
  · intro h
    obtain ⟨i?, hi, h⟩ := Except.bind_eq_ok.mp h
    exact ⟨i?, hi, (Except.pure_eq_ok.mp h).symm⟩
  · rintro ⟨i?, hi, rfl⟩
    exact Except.bind_eq_ok.mpr ⟨i?, hi, rfl⟩

theorem inRow_eq_ok {columns : List Occurrence} {placed : List (Occurrence × NodeId)} :
    l.inRow t columns row = .ok placed ↔ t.isLive row = true ∧
      ∃ found, placed = found.filterMap id ∧
      columns.mapM (fun o => do
        return ((← l.column? t o.element).bind fun i => (cellsOf t row)[i]?).map
          fun cell => (o, cell) :
          Occurrence → Except TreeError _) = .ok found := by
  constructor
  · intro h
    obtain ⟨cs, hcs, h⟩ := Except.bind_eq_ok.mp h
    obtain ⟨hlive, rfl⟩ := cells_eq_ok.mp hcs
    obtain ⟨found, hfound, h⟩ := Except.bind_eq_ok.mp h
    exact ⟨hlive, found, (Except.pure_eq_ok.mp h).symm, hfound⟩
  · rintro ⟨hlive, found, rfl, hfound⟩
    exact Except.bind_eq_ok.mpr ⟨_, cells_eq_ok.mpr ⟨hlive, rfl⟩,
      Except.bind_eq_ok.mpr ⟨found, hfound, rfl⟩⟩

/-- The commands of a row are those of the header that have a cell in it. -/
theorem mem_inRow {columns : List Occurrence} {placed : List (Occurrence × NodeId)}
    (h : l.inRow t columns row = .ok placed) {o : Occurrence} :
    (o, c) ∈ placed ↔ o ∈ columns ∧ HasCell t l row o c := by
  obtain ⟨-, found, rfl, hfound⟩ := inRow_eq_ok.mp h
  rw [List.mem_filterMap]
  constructor
  · rintro ⟨y, hy, heq⟩
    obtain ⟨o', ho', hy'⟩ := Except.exists_of_mapM hfound hy
    obtain ⟨i?, hi, rfl⟩ := placed_eq_ok.mp hy'
    obtain ⟨cell, hcell, hpair⟩ := Option.map_eq_some_iff.mp heq
    obtain ⟨i, rfl, hget⟩ := Option.bind_eq_some_iff.mp hcell
    cases hpair
    exact ⟨ho', i, hi, hget⟩
  · rintro ⟨ho, i, hi, hget⟩
    obtain ⟨y, hy, hy'⟩ := Except.mem_of_mapM hfound ho
    obtain ⟨i?, hi', rfl⟩ := placed_eq_ok.mp hy'
    cases Except.ok.inj (hi.symm.trans hi')
    exact ⟨_, hy, by simp [hget]⟩

/-- What a later tree says of the commands of a row, the earlier one said. -/
theorem Coherent.inRow_of_onward (ht : t.Coherent) (ht' : t'.Coherent) (hgo : t.Onward t')
    (hheader : ∀ cs, cells t' l.header = .ok cs → cells t l.header = .ok cs)
    (hrow : ∀ cs, cells t' row = .ok cs → cells t row = .ok cs) {columns : List Occurrence}
    (hcolumns : ∀ o ∈ columns, o.element < t.nodes.size) {placed : List (Occurrence × NodeId)}
    (h : l.inRow t' columns row = .ok placed) : l.inRow t columns row = .ok placed := by
  obtain ⟨hlive', found, rfl, hfound⟩ := inRow_eq_ok.mp h
  obtain ⟨hlive, hcells⟩ := cells_eq_ok.mp (hrow _ (cells_eq_ok.mpr ⟨hlive', rfl⟩))
  refine inRow_eq_ok.mpr ⟨hlive, found, rfl, Except.mapM_eq_ok.mpr ?_⟩
  have hall := Except.mapM_eq_ok.mp hfound
  rw [hcells] at hall
  clear hfound h
  induction hall with
  | nil => exact .nil
  | cons hab _ ih =>
    obtain ⟨i?, hi, hy⟩ := placed_eq_ok.mp hab
    refine .cons (placed_eq_ok.mpr ⟨i?, ?_, hy⟩)
      (ih fun o ho => hcolumns o (List.mem_cons_of_mem _ ho))
    exact ht.column?_of_onward ht' hgo hheader (hcolumns _ List.mem_cons_self) hi

end Markup.Tree
end LiveSpec
