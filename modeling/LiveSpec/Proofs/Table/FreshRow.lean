import LiveSpec.Proofs.Run.Work
import LiveSpec.Proofs.Table.Matching
import LiveSpec.Proofs.Tree.Filled

/-!
# What is in a row that is added

A row that is added for an item has as many cells as the header and nothing else: the cell in the
column of the keys shows the key of the item, and all others are empty (`addMissingRow_fresh`).
Apart from the row itself no row comes to be. Since nothing but the row makes a row fresh, it stays
fresh as long as its branch is not touched (`FreshRow.of_untouched`).
-/

namespace LiveSpec

open Markup Markup.Tree
open TableLayout (cellsOf isCell cells)

variable {t t' : Tree} {n : NodeId} {row last x p count column : Nat} {key : String}

/-- A row with as many cells as there are columns. The cell of the keys shows a key, and the others
are empty. -/
structure FreshRow (t : Tree) (count column : Nat) (key : String) (row : NodeId) : Prop where
  named : t.isNamed row "tr" = true
  count : (t.node row).children.length = count
  cell {c : NodeId} : c ∈ (t.node row).children → t.isNamed c "td" = true
  keyed {c : NodeId} : (t.node row).children[column]? = some c → t.text c = key
  empty {i : Nat} {c : NodeId} : (t.node row).children[i]? = some c → i ≠ column →
    (t.node c).children = []

/-- A fresh row that is not touched stays one. -/
theorem FreshRow.of_untouched (h : FreshRow t count column key row) (ht : t.Coherent)
    (hsize : t.nodes.size ≤ t'.nodes.size) (hrow : t.Standing row) (hsame : t.Untouched t' row) :
    FreshRow t' count column key row := by
  have hchildren : (t'.node row).children = (t.node row).children := hsame.children .self
  refine ⟨?_, by rw [hchildren]; exact h.count, fun {c} hc => ?_, fun {c} hc => ?_,
    fun {i c} hc hi => ?_⟩
  · rw [isNamed_congr (hsame.content .self)]
    exact h.named
  · rw [hchildren] at hc
    rw [isNamed_congr (hsame.content (.of_mem_children hc))]
    exact h.cell hc
  · rw [hchildren] at hc
    have hmem := List.mem_of_getElem? hc
    rw [ht.text_eq hsize (hrow.child hmem) (hsame.mono (.of_mem_children hmem))]
    exact h.keyed hc
  · rw [hchildren] at hc
    rw [hsame.children (.of_mem_children (List.mem_of_getElem? hc))]
    exact h.empty hc hi

namespace TableLayout

/-! ## The row before its key is filled in -/

variable {l : TableLayout} {t₁ : Tree}

namespace RowPlaced

variable (h : RowPlaced l last row p count t t₁ t')
include h

theorem children_row (ht : t.Coherent) : (t'.node row).children = List.range' (row + 1) count := by
  have hp : p < row := h.row_eq ▸ ht.standing_lt h.standing
  have hnew : ((t.add (.element "tr" [])).2.node row).children = [] := by
    rw [h.row_eq, node_add, if_pos rfl]
    rfl
  rw [h.children_eq ht, if_neg (Nat.ne_of_gt hp), h.made.node, if_pos rfl]
  dsimp only
  rw [hnew, List.nil_append, size_add, ← h.row_eq]

theorem node_cell {c : Nat} (ht : t.Coherent) (hc : c ∈ List.range' (row + 1) count) :
    (t'.node c).children = [] ∧ (t'.node c).content = .element "td" [] := by
  obtain ⟨hle, hlt⟩ := List.mem_range'_1.mp hc
  have hnode : t₁.node c = newCell row := by
    rw [h.made.node, if_neg (by omega), if_pos (by rw [size_add, ← h.row_eq]; exact ⟨hle, hlt⟩)]
  have hp : p < row := h.row_eq ▸ ht.standing_lt h.standing
  rw [h.children_eq ht, if_neg (by omega), h.content, hnode]
  exact ⟨rfl, rfl⟩

/-- The cells that are added are all cells of the row. -/
theorem cellsOf_row (ht : t.Coherent) : cellsOf t' row = List.range' (row + 1) count := by
  unfold cellsOf elementsOf
  rw [h.children_row ht, List.filter_filter]
  refine List.filter_eq_self.mpr fun c hc => ?_
  have hcontent := (h.node_cell ht hc).2
  unfold isCell isElement isNamed localName name
  rw [hcontent]
  cbv

/-- No row comes to be but the one that is put in place. -/
theorem new_row (ht : t.Coherent) (hx : t'.isNamed x "tr" = true) : x < t.nodes.size ∨ x = row := by
  have hlt : x < row + 1 + count := by
    have hsize := lt_size_of_isElement (isElement_of_isNamed hx (by cbv))
    rwa [h.tree_eq, size_hang, h.size_eq] at hsize
  by_cases hcell : row + 1 ≤ x
  · -- the other new nodes are cells
    have hcontent := (h.node_cell ht (List.mem_range'_1.mpr ⟨hcell, hlt⟩)).2
    have hno : t'.isNamed x "tr" = false := by
      unfold isNamed localName name
      rw [hcontent]
      cbv
    rw [hno] at hx
    cases hx
  · have := h.row_eq
    omega

/-- It has as many cells as the header. -/
theorem count_eq (ht : t.Coherent) (hheader : l.header < t.nodes.size) :
    count = (cellsOf t l.header).length := by
  obtain ⟨hs, hcells, rfl⟩ := h.header
  have hgo : t.Onward (t.add (.element "tr" [])).2 :=
    .of_node_eq (by rw [size_add]; exact Nat.le_succ _) (node_add_of_lt _)
  rw [(cells_eq_ok.mp hcells).2, cellsOf_of_onward ht hgo (by rw [node_add_of_lt _ hheader])]

end RowPlaced

end TableLayout

namespace Run

variable {φ : Type} {s s' : RunState φ} {l : TableLayout}

/-- With the key filled in, the row is fresh. -/
theorem fresh_fillKey {t₁ : Tree} (ht : t.Sound) (h : l.RowPlaced last row p count t t₁ t') :
    FreshRow (fillKey column key row t') count column key row := by
  have hadded := h.rowAdded ht
  have hchildren := h.children_row ht.toCoherent
  have hrow : row < t'.nodes.size := lt_size_of_isElement hadded.isElement
  have hcell : ∀ {c : NodeId}, c ∈ (t'.node row).children → (t'.node c).children = [] ∧
      t'.isNamed c "td" = true := by
    intro c hc
    obtain ⟨hempty, hcontent⟩ := h.node_cell ht.toCoherent (hchildren ▸ hc)
    refine ⟨hempty, ?_⟩
    unfold isNamed localName name
    rw [hcontent]
    cbv
  unfold fillKey
  rw [h.cellsOf_row ht.toCoherent, ← hchildren]
  cases hkey : (t'.node row).children[column]? with
  | none =>
    exact ⟨hadded.named, by rw [hchildren, List.length_range'], fun hc => (hcell hc).2,
      fun hc => absurd (hkey.symm.trans hc) (Option.some_ne_none _).symm,
      fun hc _ => (hcell (List.mem_of_getElem? hc)).1⟩
  | some cell =>
    -- the text changes the children of the one cell alone
    have hmem := List.mem_of_getElem? hkey
    have hlt := hadded.sound.child_lt hmem
    have hgo := hadded.sound.toCoherent.onward_setText hlt key
    have hne : row ≠ cell := by
      have := (List.mem_range'_1.mp (hchildren ▸ hmem)).1
      omega
    have hsame : ((t'.setText cell key).node row).children = (t'.node row).children :=
      children_setText hlt hrow hne key
    refine ⟨?_, by rw [hsame, hchildren, List.length_range'], fun {c} hc => ?_, fun {c} hc => ?_,
      fun {i c} hc hi => ?_⟩
    · rw [hgo.isNamed hrow]
      exact hadded.named
    · rw [hsame] at hc
      rw [hgo.isNamed (hadded.sound.child_lt hc)]
      exact (hcell hc).2
    · rw [hsame, hkey] at hc
      cases hc
      exact text_setText hlt key
    · rw [hsame] at hc
      have hother : c ≠ cell := by
        rintro rfl
        have hlen := List.getElem?_eq_some_iff.mp hc
        exact hi ((hadded.sound.nodup row).getElem_inj_iff.mp
          (hlen.2.trans (List.getElem?_eq_some_iff.mp hkey).2.symm))
      rw [children_setText hlt (hadded.sound.child_lt (List.mem_of_getElem? hc)) hother]
      exact (hcell (List.mem_of_getElem? hc)).1

/-- To fill in a key makes no row. -/
theorem isNamed_fillKey (ht : t.Sound) (hx : (fillKey column key row t).isNamed x "tr" = true) :
    t.isNamed x "tr" = true := by
  unfold fillKey at hx
  split at hx
  · next cell hcell =>
    have hlt := ht.child_lt (TableLayout.mem_cellsOf.mp (List.mem_of_getElem? hcell)).1
    have hold := lt_of_isElement_setText hlt (isElement_of_isNamed hx (by cbv))
    rwa [(ht.toCoherent.onward_setText hlt key).isNamed hold] at hx
  · exact hx

/-- **What is in a row that is added**, and that no other row comes to be. -/
theorem addMissingRow_fresh {env : Surroundings} (hs : s.tree.Sound)
    (hlast : last < s.tree.nodes.size) (hheader : l.header < s.tree.nodes.size)
    (h : (addMissingRow env l column key last).Yields s row s') :
    FreshRow s'.tree (cellsOf s.tree l.header).length column key row ∧
      ∀ x, s'.tree.isNamed x "tr" = true → x < s.tree.nodes.size ∨ x = row := by
  obtain ⟨t, happend, htree, -, -⟩ := addMissingRow_parts h
  obtain ⟨p, count, t₁, hplaced⟩ := TableLayout.rowPlaced hs hlast happend
  rw [htree, ← hplaced.count_eq hs.toCoherent hheader]
  refine ⟨fresh_fillKey hs hplaced, fun x hx => hplaced.new_row hs.toCoherent ?_⟩
  exact isNamed_fillKey (hplaced.rowAdded hs).sound hx

end Run
end LiveSpec
