import LiveSpec.Proofs.Tree.Release
import LiveSpec.Run.Table

/-!
# How a tree changes while commands run

Commands add nodes, cut nodes off and destroy some, but they never move a node to another place and
never change what a node is. `Tree.Onward` states this of the nodes that were there before. So an
element keeps its name, an old node is found only below the node that it was below before, and a
node that stands after a change stood before it (`Onward.standing`, `Onward.under`).

Below: the change that each edit of a command makes to each node of the table.
-/

namespace LiveSpec.Markup.Tree

variable {t t' t'' : Tree} {n m p x c : NodeId}

/-- The old nodes of a tree after a change: they are what they were, they hang where they hung
unless they were cut off, and old nodes are listed where they were listed. -/
structure Onward (t t' : Tree) : Prop where
  size_le : t.nodes.size ≤ t'.nodes.size
  content {n : NodeId} : n < t.nodes.size → (t'.node n).content = (t.node n).content
  link {n : NodeId} : n < t.nodes.size → (t'.node n).link = (t.node n).link ∨
    (t'.node n).link = .cut
  children {p c : NodeId} : p < t.nodes.size → c < t.nodes.size → c ∈ (t'.node p).children →
    c ∈ (t.node p).children

namespace Onward

theorem refl : t.Onward t := ⟨Nat.le_refl _, fun _ => rfl, fun _ => .inl rfl, fun _ _ h => h⟩

/-- Going onward twice is going onward. -/
theorem trans (h : t.Onward t') (h' : t'.Onward t'') : t.Onward t'' where
  size_le := Nat.le_trans h.size_le h'.size_le
  content hn := (h'.content (Nat.lt_of_lt_of_le hn h.size_le)).trans (h.content hn)
  link {n} hn := by
    rcases h'.link (Nat.lt_of_lt_of_le hn h.size_le) with hl | hl
    · exact hl ▸ h.link hn
    · exact .inr hl
  children hp hc hmem := h.children hp hc
    (h'.children (Nat.lt_of_lt_of_le hp h.size_le) (Nat.lt_of_lt_of_le hc h.size_le) hmem)

variable (h : t.Onward t')
include h

theorem isElement (hn : n < t.nodes.size) : t'.isElement n = t.isElement n :=
  isElement_congr (h.content hn)

/-- An element stays one. -/
theorem element (hn : t.isElement n = true) : t'.isElement n = true :=
  (h.isElement (lt_size_of_isElement hn)).trans hn

theorem isNamed (hn : n < t.nodes.size) (name : String) : t'.isNamed n name = t.isNamed n name :=
  isNamed_congr (h.content hn) name

/-- What lists an old node now listed it before. -/
theorem listed (ht : t.Coherent) (ht' : t'.Coherent) (hc : c < t.nodes.size)
    (hmem : c ∈ (t'.node p).children) :
    p < t.nodes.size ∧ c ∈ (t.node p).children := by
  have hl := ht'.child_link hmem
  have hold : (t.node c).link = .below p := by
    rcases h.link hc with he | he
    · exact he ▸ hl
    · exact absurd (he.symm.trans hl) (by simp)
  exact ⟨ht.parent_lt hold, h.children (ht.parent_lt hold) hc hmem⟩

/-- An old node lies now below what it lay below before. -/
theorem under (ht : t.Coherent) (ht' : t'.Coherent) (hx : x < t.nodes.size) (hu : t'.Under n x) :
    t.Under n x := by
  induction hu with
  | self => exact .self
  | child _ hc ih =>
    obtain ⟨hp, hmem⟩ := h.listed ht ht' hx hc
    exact .child (ih hp) hmem

/-- An old node that stands stood before. -/
theorem standing (ht : t.Coherent) (ht' : t'.Coherent) (hx : x < t.nodes.size)
    (hs : t'.Standing x) :
    t.Standing x := by
  obtain ⟨r, hr, hu⟩ := hs
  induction hu with
  | self =>
    refine IsTop.standing ⟨hx, ?_⟩
    rcases h.link hx with he | he
    · exact he ▸ hr.link
    · exact absurd (he.symm.trans hr.link) (by simp)
  | child _ hc ih =>
    obtain ⟨hp, hmem⟩ := h.listed ht ht' hx hc
    exact (ih hp).child hmem

end Onward

/-- A tree to which nodes were added, the old ones left as they are. -/
theorem Onward.of_node_eq (hsize : t.nodes.size ≤ t'.nodes.size)
    (h : ∀ {n : NodeId}, n < t.nodes.size → t'.node n = t.node n) : t.Onward t' :=
  ⟨hsize, fun hn => by rw [h hn], fun hn => .inl (by rw [h hn]), fun hp _ hc => by rwa [h hp] at hc⟩

/-- A release goes onward. -/
theorem Released.onward (h : t.Released t') : t.Onward t' :=
  ⟨Nat.le_of_eq h.size.symm, fun _ => h.content _, fun _ => .inl (h.link _),
    fun _ _ hc => (h.children _).subset hc⟩

/-- So does pruning. -/
theorem Pruned.onward (h : t.Pruned t') : t.Onward t' :=
  ⟨Nat.le_of_eq h.size.symm, fun _ => h.content _, fun _ => (h.link _).imp_right And.left,
    fun _ _ hc => (h.children _).subset hc⟩

/-! ## Hanging in a new node -/

/-- The nodes after a new one was hung in. -/
theorem node_hang_add (content : Content) (put : List NodeId → List NodeId)
    (hp : p < t.nodes.size) :
    ((t.add content).2.hang t.nodes.size p put).node m =
      if m = t.nodes.size then ⟨content, [], .below p, false⟩
      else if m = p then { t.node p with children := put (t.node p).children } else t.node m := by
  rw [node_hang, size_add, node_add]
  by_cases hm : m = t.nodes.size
  · subst hm
    simp [Node.fresh, Nat.ne_of_lt hp]
  · by_cases hmp : m = p
    · subst hmp
      simp [hm, Ne.symm hm, Nat.lt_succ_of_lt hp]
    · simp [hm, Ne.symm hm, hmp, Ne.symm hmp]

/-- So does a new node, wherever it is hung. -/
theorem onward_hang_add (content : Content) {put : List NodeId → List NodeId}
    (hp : p < t.nodes.size)
    (hput : (put (t.node p).children).Perm (t.nodes.size :: (t.node p).children)) :
    t.Onward ((t.add content).2.hang t.nodes.size p put) := by
  have hnode := fun m => node_hang_add (m := m) content put hp
  refine ⟨?_, fun {n} hn => ?_, fun {n} hn => .inl ?_, fun {q c} hq hc h => ?_⟩
  · rw [size_hang, size_add]; exact Nat.le_succ _
  · rw [hnode, if_neg (Nat.ne_of_lt hn)]
    split
    · next h => rw [h]
    · rfl
  · rw [hnode, if_neg (Nat.ne_of_lt hn)]
    split
    · next h => rw [h]
    · rfl
  · rw [hnode, if_neg (Nat.ne_of_lt hq)] at h
    split at h
    · next he =>
      subst he
      exact (List.mem_cons.mp (hput.mem_iff.mp h)).resolve_left (Nat.ne_of_lt hc)
    · exact h

/-! ## Replacing the content of an element -/

/-- A text is appended as a new last child. -/
theorem appendText_eq (s : String) :
    t.appendText n s = (t.add (.text s)).2.hang t.nodes.size n (· ++ [t.nodes.size]) := rfl

/-- Setting a text keeps a tree sound. -/
theorem Sound.setText (ht : t.Sound) (hn : n < t.nodes.size) (s : String) :
    (t.setText n s).Sound := by
  have hcut := (ht.pruned_cutChildren (n := n)).sound ht
  unfold Tree.setText
  dsimp only
  split
  · exact hcut
  · exact hcut.hang_add _ (by simpa using hn) (List.perm_append_singleton ..)

/-- Setting a text goes onward. -/
theorem Coherent.onward_setText (ht : t.Coherent) (hn : n < t.nodes.size) (s : String) :
    t.Onward (t.setText n s) := by
  have hcut := (ht.pruned_cutChildren (n := n)).onward
  unfold Tree.setText
  dsimp only
  split
  · exact hcut
  · exact hcut.trans (onward_hang_add _ (by simpa using hn) (List.perm_append_singleton ..))

/-- It changes no content that was there. -/
theorem sameContents_setText (s : String) : t.SameContents (t.setText n s) := by
  have hcut : t.SameContents (t.cutChildren n) :=
    ⟨Nat.le_of_eq size_cutChildren.symm, fun _ => by rw [node_cutChildren]⟩
  unfold Tree.setText
  dsimp only
  split
  · exact hcut
  · refine hcut.trans ⟨?_, fun {m} hm => ?_⟩
    · rw [appendText_eq, size_hang, size_add]
      exact Nat.le_succ _
    · rw [appendText_eq, node_hang, node_add_of_lt _ hm]

/-- Nor does removing a node. -/
theorem sameContents_remove (h : t.remove n = .ok t') : t.SameContents t' := by
  obtain ⟨-, hsize, hnode⟩ := remove_eq h
  exact ⟨Nat.le_of_eq hsize.symm, fun _ => by rw [hnode]⟩

/-- Removing a node changes the children of its parent only. -/
theorem children_remove (h : t.remove n = .ok t') (hx : n ∉ (t.node x).children) :
    (t'.node x).children = (t.node x).children := by
  obtain ⟨-, -, hnode⟩ := remove_eq h
  rw [hnode]
  dsimp only
  split
  · exact List.filter_eq_self.mpr fun c hc => bne_iff_ne.mpr fun he => hx (he ▸ hc)
  · rfl

/-- Only the element whose content is replaced gets other children. -/
theorem children_setText (hn : n < t.nodes.size) (hx : x < t.nodes.size) (hne : x ≠ n)
    (s : String) :
    ((t.setText n s).node x).children = (t.node x).children := by
  have hcut : ((t.cutChildren n).node x).children = (t.node x).children := by
    rw [node_cutChildren, if_neg (Ne.symm hne)]
  unfold Tree.setText
  dsimp only
  split
  · exact hcut
  · rw [appendText_eq, node_hang_add _ _ (by simpa using hn), size_cutChildren,
      if_neg (Nat.ne_of_lt hx),
      if_neg hne, hcut]

end LiveSpec.Markup.Tree
