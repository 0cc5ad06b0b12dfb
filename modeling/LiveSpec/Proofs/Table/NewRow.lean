import LiveSpec.Proofs.Results
import LiveSpec.Proofs.Tree.Contents
import LiveSpec.Proofs.Tree.Staying

/-!
# A row is added

`TableLayout.appendRow` makes a row with empty cells and puts it directly after another row.
`RowAdded` says what that does to the tree: the list of children that the other row stands in gets
one more entry, all other old nodes keep their children, and the nodes below the new row are new
themselves.
-/

namespace LiveSpec.TableLayout

open Markup Markup.Tree

variable {t t' : Tree} {row last p x m c count : Nat}

/-- Making a node that hangs at the top a child is hanging it in. -/
theorem appendChild_of_isTop (hc : t.IsTop c) (h : t.appendChild p c = .ok t') :
    t.isLive p = true ∧ t' = t.hang c p (· ++ [c]) := by
  obtain ⟨hp, rfl⟩ := appendChild_eq_ok h
  rw [detach_of_isTop hc]
  exact ⟨hp, rfl⟩

/-- A new empty cell of a row. -/
def newCell (row : NodeId) : Node := ⟨.element "td" [], [], .below row, false⟩

/-- The nodes after cells were added to a row. -/
structure CellsAdded (row count : Nat) (t t' : Tree) : Prop where
  coherent : t'.Coherent
  size : t'.nodes.size = t.nodes.size + count
  isTop_iff {x : Nat} : t'.IsTop x ↔ t.IsTop x
  node (m : Nat) : t'.node m =
    if m = row then
      { t.node row with children := (t.node row).children ++ List.range' t.nodes.size count }
    else if t.nodes.size ≤ m ∧ m < t.nodes.size + count then newCell row
    else t.node m

theorem CellsAdded.zero (ht : t.Coherent) : CellsAdded row 0 t t := by
  refine ⟨ht, rfl, .rfl, fun m => ?_⟩
  by_cases hm : m = row
  · subst hm; simp
  · rw [if_neg hm, if_neg (by omega)]

/-- One more cell. -/
theorem CellsAdded.one (ht : t.Coherent) (hrow : row < t.nodes.size) :
    CellsAdded row 1 t ((t.add (.element "td" [])).2.hang t.nodes.size row (· ++
      [t.nodes.size])) := by
  have hloose := ht.loose_add (.element "td" [])
  refine ⟨?_, ?_, fun {x} => ?_, fun m => ?_⟩
  · exact (ht.add _).hang hloose (by rw [size_add]; exact Nat.lt_succ_of_lt hrow)
      (List.perm_append_singleton ..)
  · rw [size_hang, size_add]
  · rw [isTop_hang_iff _ hloose.lt, isTop_add_iff]
    constructor
    · rintro ⟨h, hne⟩
      exact h.resolve_right hne
    · exact fun h => ⟨.inl h, Nat.ne_of_lt h.lt⟩
  · rw [node_hang_add _ _ hrow]
    by_cases hm : m = t.nodes.size
    · subst hm; simp [Nat.ne_of_gt hrow, newCell]
    · by_cases hmr : m = row
      · subst hmr; simp [hm]
      · rw [if_neg hm, if_neg hmr, if_neg hmr, if_neg (by omega)]

theorem CellsAdded.trans {t₁ : Tree} {k : Nat} (hrow : row < t.nodes.size)
    (h : CellsAdded row k t t₁) (h' : CellsAdded row count t₁ t') :
    CellsAdded row (k + count) t t' := by
  refine ⟨h'.coherent, by rw [h'.size, h.size]; omega, fun {x} => h'.isTop_iff.trans h.isTop_iff,
    fun m => ?_⟩
  rw [h'.node, h.node, h.node, h.size]
  by_cases hm : m = row
  · subst hm
    simp [List.range'_append_1]
  · by_cases hmid : t.nodes.size ≤ m ∧ m < t.nodes.size + k
    · simp [hm, hmid, show ¬ (t.nodes.size + k ≤ m) by omega,
        show m < t.nodes.size + (k + count) by omega]
    · by_cases hend : t.nodes.size + k ≤ m ∧ m < t.nodes.size + k + count
      · simp [hm, hend, show t.nodes.size ≤ m by omega,
          show m < t.nodes.size + (k + count) by omega]
      · simp [hm, hmid, hend, show ¬ (t.nodes.size ≤ m ∧ m < t.nodes.size + (k + count)) by omega]

theorem addCells_succ : addCells row (count + 1) t =
    ((t.add (.element "td" [])).2.appendChild row t.nodes.size).bind (addCells row count) := by
  have hname : Text.asciiLower "td" = "td" := by cbv
  unfold addCells newElement
  rw [hname]
  rfl

theorem cellsAdded (ht : t.Coherent) (hrow : row < t.nodes.size)
    (h : addCells row count t = .ok t') :
    CellsAdded row count t t' := by
  induction count generalizing t with
  | zero =>
    cases h
    exact .zero ht
  | succ count ih =>
    rw [addCells_succ] at h
    obtain ⟨t₁, h₁, h⟩ := Except.bind_eq_ok.mp h
    obtain ⟨-, rfl⟩ := appendChild_of_isTop (ht.loose_add (.element "td" [])).toIsTop h₁
    have hone := CellsAdded.one ht hrow
    have := hone.trans hrow (ih hone.coherent (by rw [hone.size]; omega) h)
    rwa [Nat.add_comm 1 count] at this

/-! ## The row -/

/-- What adding a row does to a tree. -/
structure RowAdded (last row : NodeId) (t t' : Tree) : Prop where
  row_eq : row = t.nodes.size
  sound : t'.Sound
  onward : t.Onward t'
  /-- The row stands directly after the other one; no other list of children changes. -/
  placed : ∃ p, t.Standing p ∧ last ∈ (t.node p).children ∧ ∀ x, x < t.nodes.size →
    (t'.node x).children = if x = p then putAfter last row (t.node p).children else
      (t.node x).children
  named : t'.isNamed row "tr" = true

/-- Putting a node that hangs at the top after another one is hanging it in there. -/
theorem insertAfter_of_isTop (hx : t.IsTop x) (h : t.insertAfter c x = .ok t') :
    t.isLive c = true ∧ ∃ p, t.above c = .parent p ∧ t' = t.hang x p (putAfter c x) := by
  obtain ⟨hc, p, hup, rfl⟩ := insertAfter_eq_ok h
  rw [detach_of_isTop hx]
  exact ⟨hc, p, hup, rfl⟩

/-- A row on its way into a tree: it was made with its cells, in the tree `t₁`, and is put after
another one in `t'`. -/
structure RowPlaced (l : TableLayout) (last row p count : Nat) (t t₁ t' : Tree) : Prop where
  row_eq : row = t.nodes.size
  /-- It has as many cells as the header. -/
  header : ∃ hs, cells (t.add (.element "tr" [])).2 l.header = .ok hs ∧ hs.length = count
  made : CellsAdded row count (t.add (.element "tr" [])).2 t₁
  listed : last ∈ (t₁.node p).children
  standing : t.Standing p
  tree_eq : t' = t₁.hang row p (putAfter last row)

namespace RowPlaced

variable {l : TableLayout} {t₁ : Tree}

section

variable (h : RowPlaced l last row p count t t₁ t')
include h

theorem size_eq : t₁.nodes.size = row + 1 + count := by
  rw [h.made.size, size_add, h.row_eq]

/-- The old nodes are as they were until the row is put in place. -/
theorem old {m : Nat} (hm : m < t.nodes.size) : t₁.node m = t.node m := by
  rw [h.made.node, if_neg (by rw [h.row_eq]; omega), if_neg (by rw [size_add]; omega),
    node_add_of_lt _ hm]

theorem onward : t.Onward t₁ := .of_node_eq (by rw [h.size_eq, h.row_eq]; omega) h.old

/-- Only the list that the row is put in changes. -/
theorem children_eq (ht : t.Coherent) (x : Nat) :
    (t'.node x).children = if x = p then putAfter last row (t.node p).children else
      (t₁.node x).children := by
  have hp := ht.standing_lt h.standing
  rw [h.tree_eq, children_hang _ (Nat.lt_of_lt_of_le hp h.onward.size_le)]
  by_cases he : p = x
  · subst he
    rw [if_pos rfl, if_pos rfl, h.old hp]
  · rw [if_neg he, if_neg (Ne.symm he)]

theorem content (x : Nat) : (t'.node x).content = (t₁.node x).content := by
  rw [h.tree_eq, node_hang]

theorem loose (ht : t.Coherent) : t₁.Loose row := by
  have hloose := ht.loose_add (.element "tr" [])
  rw [h.row_eq]
  exact ⟨h.made.isTop_iff.mpr hloose.toIsTop, hloose.ne_document⟩

theorem rowAdded (ht : t.Sound) : RowAdded last row t t' := by
  have hloose := h.loose ht.toCoherent
  have hplt := Nat.lt_of_lt_of_le (ht.standing_lt h.standing) h.onward.size_le
  have hchildren : ∀ x, x < t.nodes.size → (t'.node x).children =
      if x = p then putAfter last row (t.node p).children else (t.node x).children := fun x hx => by
    rw [h.children_eq ht.toCoherent, h.old hx]
  refine ⟨h.row_eq, ?_, ?_, ⟨p, h.standing, ?_, hchildren⟩, ?_⟩
  · rw [h.tree_eq]
    refine { h.made.coherent.hang hloose hplt (perm_putAfter ..) with top_only := fun hn hl => ?_ }
    obtain ⟨htop, hne⟩ := (isTop_hang_iff _ hloose.lt).mp ⟨hn, hl⟩
    have := ((isTop_add_iff _).mp (h.made.isTop_iff.mp htop)).resolve_right (h.row_eq ▸ hne)
    exact ht.top_only this.lt this.link
  · refine ⟨by rw [h.tree_eq, size_hang]; exact h.onward.size_le, fun {m} hm => ?_,
      fun {m} hm => .inl ?_,
      fun {q c} hq hc hmem => ?_⟩
    · rw [h.content, h.old hm]
    · rw [h.tree_eq, link_hang _ hloose.lt, if_neg (Nat.ne_of_gt (h.row_eq ▸ hm)), h.old hm]
    · rw [hchildren q hq] at hmem
      split at hmem
      · next he =>
        subst he
        exact (List.mem_cons.mp ((perm_putAfter ..).mem_iff.mp hmem)).resolve_left
          (Nat.ne_of_lt (h.row_eq ▸ hc))
      · exact hmem
  · have := h.listed
    rwa [h.old (ht.standing_lt h.standing)] at this
  · have hcontent : (t'.node row).content = .element "tr" [] := by
      rw [h.content, h.made.node, if_pos rfl, h.row_eq, node_add, if_pos rfl]
      rfl
    unfold isNamed localName name
    rw [hcontent]
    cbv

end

end RowPlaced

theorem rowPlaced {l : TableLayout} (ht : t.Sound) (hlast : last < t.nodes.size)
    (h : l.appendRow t last = .ok (row, t')) :
    ∃ p count t₁, RowPlaced l last row p count t t₁ t' := by
  have hname : Text.asciiLower "tr" = "tr" := by cbv
  unfold appendRow newElement at h
  rw [hname] at h
  obtain ⟨hs, hheader, h⟩ := Except.bind_eq_ok.mp h
  obtain ⟨t₁, h₁, h⟩ := Except.bind_eq_ok.mp h
  obtain ⟨t₂, h₂, h⟩ := Except.bind_eq_ok.mp h
  cases h
  -- the new row hangs at the top until it is put in place; the old nodes are as they were
  have hadd := ht.toCoherent.add (.element "tr" [])
  have hloose := ht.loose_add (.element "tr" [])
  have hcells := cellsAdded hadd hloose.lt h₁
  have hold : ∀ {m : Nat}, m < t.nodes.size → t₁.node m = t.node m := fun {m} hm => by
    rw [hcells.node, if_neg (Nat.ne_of_lt hm), if_neg (by rw [size_add]; omega),
      node_add_of_lt _ hm]
  have honward : t.Onward t₁ := .of_node_eq (by rw [hcells.size, size_add]; omega) hold
  -- where it is put
  obtain ⟨hlive, p, hup, htree⟩ := insertAfter_of_isTop (hcells.isTop_iff.mpr hloose.toIsTop) h₂
  have hlast₁ : last < t₁.nodes.size := Nat.lt_of_lt_of_le hlast honward.size_le
  obtain ⟨hp₁, hmem₁⟩ :=
    hcells.coherent.listed_of_above ((hcells.coherent.isLive_iff hlast₁).mp hlive) hup
  obtain ⟨hp, -⟩ := honward.listed ht.toCoherent hcells.coherent hlast hmem₁
  exact ⟨p, hs.length, t₁, rfl, ⟨hs, hheader, rfl⟩, hcells, hmem₁,
    honward.standing ht.toCoherent hcells.coherent hp hp₁, htree⟩

theorem rowAdded {l : TableLayout} (ht : t.Sound) (hlast : last < t.nodes.size)
    (h : l.appendRow t last = .ok (row, t')) : RowAdded last row t t' := by
  obtain ⟨p, count, t₁, hplaced⟩ := rowPlaced ht hlast h
  exact hplaced.rowAdded ht

/-- To add cells leaves the contents of nodes alone, whatever the shape of the tree. -/
theorem sameContents_addCells (h : addCells row count t = .ok t') : t.SameContents t' := by
  induction count generalizing t with
  | zero =>
    cases h
    exact .refl
  | succ count ih =>
    rw [addCells_succ] at h
    obtain ⟨t₁, h₁, h⟩ := Except.bind_eq_ok.mp h
    exact ((sameContents_add _).trans (sameContents_appendChild h₁)).trans (ih h)

/-- To add a row leaves the contents of nodes alone, whatever the shape of the tree, and the new
node is a row. -/
theorem sameContents_appendRow {l : TableLayout} (h : l.appendRow t last = .ok (row, t')) :
    t.SameContents t' ∧ t'.isNamed row "tr" = true := by
  have hname : Text.asciiLower "tr" = "tr" := by cbv
  unfold appendRow newElement at h
  rw [hname] at h
  obtain ⟨hs, -, h⟩ := Except.bind_eq_ok.mp h
  obtain ⟨t₁, h₁, h⟩ := Except.bind_eq_ok.mp h
  obtain ⟨t₂, h₂, h⟩ := Except.bind_eq_ok.mp h
  cases h
  have hlater := (sameContents_addCells h₁).trans (sameContents_insertAfter h₂)
  refine ⟨(sameContents_add _).trans hlater, ?_⟩
  have hlt : t.nodes.size < (t.add (.element "tr" [])).2.nodes.size := by
    rw [size_add]
    exact Nat.lt_succ_self _
  have hnode : ((t.add (.element "tr" [])).2.node t.nodes.size).content = .element "tr" [] := by
    rw [node_add, if_pos rfl]
    rfl
  have hcontent : (t'.node t.nodes.size).content = .element "tr" [] :=
    (hlater.content hlt).trans hnode
  show t'.isNamed t.nodes.size "tr" = true
  unfold isNamed localName name
  rw [hcontent]
  cbv

/-- A text in a cell of the new row is no change to the old nodes. -/
theorem RowAdded.setText (ht : t.Sound) (h : RowAdded last row t t')
    (hc : c ∈ (t'.node row).children) (s : String) :
    RowAdded last row t (t'.setText c s) := by
  have hlt := h.sound.child_lt hc
  have hnew : ∀ {x : Nat}, x < t.nodes.size → x ≠ c := fun {x} hx he => by
    obtain ⟨hrow, -⟩ := h.onward.listed ht.toCoherent h.sound.toCoherent (he ▸ hx) hc
    rw [h.row_eq] at hrow
    exact Nat.lt_irrefl _ hrow
  have hrow : row < t'.nodes.size := lt_size_of_mem_children hc
  obtain ⟨p, hp, hmem, hchildren⟩ := h.placed
  have hgo := h.sound.toCoherent.onward_setText hlt s
  refine ⟨h.row_eq, h.sound.setText hlt s, h.onward.trans hgo, ⟨p, hp, hmem, fun x hx => ?_⟩, ?_⟩
  · rw [children_setText hlt (Nat.lt_of_lt_of_le hx h.onward.size_le) (hnew hx)]
    exact hchildren x hx
  · rw [hgo.isNamed hrow]
    exact h.named

theorem RowAdded.isElement (h : RowAdded last row t t') : t'.isElement row = true :=
  isElement_of_isNamed h.named (by cbv)

/-- What stood before a row was added stands yet. -/
theorem RowAdded.standing (ht : t.Sound) (h : RowAdded last row t t') (hx : t.Standing x) :
    t'.Standing x := by
  obtain ⟨p, -, -, hchildren⟩ := h.placed
  refine ht.standing_of_edges h.sound hx fun {q c} _ hc => ?_
  rw [hchildren q (lt_size_of_mem_children hc)]
  split
  · next hp =>
    subst hp
    exact (perm_putAfter ..).mem_iff.mpr (List.mem_cons_of_mem _ hc)
  · exact hc

end LiveSpec.TableLayout
