import LiveSpec.Proofs.Tree.Linked
import LiveSpec.Proofs.Tree.Rules

/-!
# Every text is read as a tree

Whatever text is read, the tree of its document is sound, its links and lists of children agree for
all nodes (`linked_read`, `sound_read`), and no node of it is cut off. What is open while the
document is read lies in the table of its nodes (`Builder.Grown`), and new nodes go below nodes of
the table only. Each rule of each part keeps that, whether it takes the lexeme or hands it on.
-/

namespace LiveSpec.Markup

namespace Tree

variable {t t' : Tree} {gone : NodeId → Prop} {n p : NodeId}

/-- Contents do not matter for the links. -/
theorem SameShape.linked (h : t.SameShape t') (ht : t.Linked gone) : t'.Linked gone := by
  have hsub : ∀ q, (t'.node q).children ⊆ (t.node q).children :=
    fun q => h.children q ▸ List.Subset.refl _
  refine ht.rewire (Nat.le_of_eq h.size.symm) h.destroyed (fun {p c} hc => ?_)
    (fun {p c} hl hg hp => ?_)
    fun q => h.children q ▸ ht.nodup q
  · have hc := hsub p hc
    refine ⟨h.size ▸ ht.child_lt hc, (h.link c).trans (ht.child_link hc), ht.closed hc,
      fun hcycle => ?_⟩
    exact ht.acyclic hc (hcycle.mono hsub)
  · rw [h.children]
    exact ht.listed (h.link c ▸ hl) hg hp

/-- Nor for soundness. -/
theorem SameShape.sound (h : t.SameShape t') (ht : t.Sound) : t'.Sound where
  toCoherent := h.coherent ht.toCoherent
  top_only hn hl := ht.top_only (h.size ▸ hn) (h.link _ ▸ hl)

end Tree

namespace Builder

open Markup.Tree

variable {b b' : Builder} {n : NodeId} {s : Content} {name : String} {as : Attributes} {l : Lexeme}

/-- A node that is put before another is one more in the list. -/
theorem perm_putBefore (a x : NodeId) (cs : List NodeId) : (putBefore a x cs).Perm (x :: cs) := by
  induction cs with
  | nil => exact .refl _
  | cons c cs ih =>
    unfold putBefore
    split
    · exact .refl _
    · exact (ih.cons c).trans (.swap ..)

/-- More text in a text node leaves the shape of the tree as it is. -/
theorem lengthen_sameShape (t : Tree) (n : NodeId) (s : String) : t.SameShape (lengthen t n s) := by
  have hnode : ∀ m, (lengthen t n s).node m = t.node m ∨
      ∃ old new, (t.node m).content = .text old ∧
        (lengthen t n s).node m = { t.node m with content := .text new } := by
    intro m
    unfold lengthen
    rw [node_modify]
    split
    · split
      · next old hold => exact .inr ⟨old, old ++ s, hold, rfl⟩
      · exact .inl rfl
    · exact .inl rfl
  refine ⟨size_modify .., fun m => ?_, fun m => ?_, fun m => ?_, fun m => ?_, fun hroot => ?_⟩
  · rcases hnode m with h | ⟨_, _, -, h⟩ <;> rw [h]
  · rcases hnode m with h | ⟨_, _, -, h⟩ <;> rw [h]
  · rcases hnode m with h | ⟨_, _, -, h⟩ <;> rw [h]
  · rcases hnode m with h | ⟨_, _, hold, h⟩
    · exact isElement_congr (congrArg _ h)
    · unfold isElement
      rw [h, hold]
  · rcases hnode documentId with h | ⟨_, _, hold, -⟩
    · rw [h, hroot]
    · rw [hroot] at hold
      cases hold

/-- A document under construction: its tree is sound, nothing was cut off, and what is open lies in
its table. -/
structure Grown (b : Builder) : Prop where
  sound : b.tree.Sound
  linked : b.tree.Linked fun _ => False
  uncut (n : NodeId) : (b.tree.node n).link ≠ .cut
  open_lt : ∀ n ∈ b.openElements, n < b.tree.nodes.size
  head_lt : ∀ n ∈ b.headElement, n < b.tree.nodes.size

namespace Grown

variable (h : Grown b)
include h

/-- The current node is there. -/
theorem current_lt : b.current < b.tree.nodes.size := by
  unfold current
  cases hopen : b.openElements with
  | nil => exact h.sound.root_top.lt
  | cons n ns => exact h.open_lt n (hopen ▸ List.mem_cons_self)

/-- A builder with the same tree, whose open elements lie in its table. -/
theorem of_tree_eq (htree : b'.tree = b.tree) (hopen : ∀ n ∈ b'.openElements, n < b.tree.nodes.size)
    (hhead : ∀ n ∈ b'.headElement, n < b.tree.nodes.size) : Grown b' :=
  ⟨htree ▸ h.sound, htree ▸ h.linked, htree ▸ h.uncut, htree ▸ hopen, htree ▸ hhead⟩

/-- Closing elements, and leaving everything else but the tree and the head. -/
theorem of_subset (htree : b'.tree = b.tree) (hopen : b'.openElements ⊆ b.openElements)
    (hhead : b'.headElement = b.headElement) : Grown b' :=
  h.of_tree_eq htree (fun n hn => h.open_lt n (hopen hn)) (hhead ▸ h.head_lt)

/-! ## Growing -/

/-- New content goes below a node of the table. -/
theorem hang_add (s : Content) {p : NodeId} (hp : p < b.tree.nodes.size)
    (put : List NodeId → List NodeId) (hput : ∀ cs, (put cs).Perm (b.tree.nodes.size :: cs)) :
    Grown { b with tree := (b.tree.add s).2.hang b.tree.nodes.size p put } := by
  have hsize :
      ((b.tree.add s).2.hang b.tree.nodes.size p put).nodes.size = b.tree.nodes.size + 1 := by
    rw [size_hang, size_add]
  refine ⟨h.sound.hang_add s hp (hput _), h.linked.hang_add s ⟨hp, id⟩ put hput, fun m => ?_,
    fun n hn => hsize ▸ Nat.lt_succ_of_lt (h.open_lt n hn),
    fun n hn => hsize ▸ Nat.lt_succ_of_lt (h.head_lt n hn)⟩
  rw [link_hang put (by rw [size_add]; exact Nat.lt_succ_self _), link_add]
  split
  · exact nofun
  · exact h.uncut m

/-- A node below one that is there grows the tree. -/
theorem addBelow {p : NodeId} (hp : p < b.tree.nodes.size) (s : Content) : Grown (b.addBelow p s) :=
  h.hang_add s hp (· ++ [b.tree.nodes.size]) fun _ => List.perm_append_singleton ..

/-- What is above an element of the table lies in the table. -/
theorem above_lt {n p : NodeId} (hn : n < b.tree.nodes.size)
    (hup : (b.tree.add s).2.above n = .parent p) :
    p < b.tree.nodes.size := by
  have hlink := (above_eq_parent_iff.mp hup).1
  rw [node_add_of_lt s hn] at hlink
  exact h.sound.parent_lt hlink

/-- So does one at the place for insertion. -/
theorem place_add (s : Content) :
    Grown ({ b with tree := (b.tree.add s).2 }.place b.tree.nodes.size) := by
  have hend := h.hang_add s h.current_lt (· ++ [b.tree.nodes.size]) fun _ =>
    List.perm_append_singleton ..
  unfold place
  dsimp only
  split
  · split
    · next table htable =>
      split
      · next p hup =>
        have htable_lt := h.open_lt table (List.mem_of_find?_eq_some htable)
        exact h.hang_add s (h.above_lt htable_lt hup) (putBefore table b.tree.nodes.size) fun _ =>
          perm_putBefore ..
      · exact hend
    · exact hend
  · exact hend

omit h in
/-- Finding a place makes no node. -/
@[simp] theorem size_place (b : Builder) (n : NodeId) :
    (b.place n).tree.nodes.size = b.tree.nodes.size := by
  unfold place
  dsimp only
  split
  · split
    · split <;> exact size_hang _
    · exact size_hang _
  · exact size_hang _

/-- A comment is put at the place for insertion. -/
theorem addComment (s : String) : Grown (b.addComment s) := h.place_add _

/-- So is an element, which is then the current node. -/
theorem openElement (name : String) (as : Attributes) : Grown (b.openElement name as) := by
  have hplaced := h.place_add (.element name as)
  refine hplaced.of_tree_eq rfl (fun n hn => ?_) hplaced.head_lt
  rcases List.mem_cons.mp hn with rfl | hn
  · rw [size_place]
    exact size_add .. ▸ Nat.lt_succ_self _
  · exact hplaced.open_lt n hn

/-- A tree of the same shape serves as well. -/
theorem of_sameShape {t : Tree} (hshape : b.tree.SameShape t) : Grown { b with tree := t } :=
  ⟨hshape.sound h.sound, hshape.linked h.linked, fun m => hshape.link m ▸ h.uncut m,
    fun n hn => hshape.size.symm ▸ h.open_lt n hn, fun n hn => hshape.size.symm ▸ h.head_lt n hn⟩

/-- A text is put there, or goes on the one that stands there. -/
theorem addText (cs : List Char) : Grown (b.addText cs) := by
  unfold Builder.addText
  split
  · exact h
  · split
    · exact h.of_sameShape (lengthen_sameShape ..)
    · exact h.place_add _

/-- Attributes that an element has not are added to it. -/
theorem mergeAttributes (n : NodeId) (as : Attributes) : Grown (b.mergeAttributes n as) :=
  h.of_sameShape (modifyAttributes_sameShape _)

end Grown

/-- What is done from the head on keeps a construction in order. -/
theorem grown_closed : Closed Grown where
  addBelow s h hn := by
    refine h.addBelow ?_ _
    rcases List.mem_cons.mp hn with rfl | hn
    · exact h.sound.root_top.lt
    · exact h.open_lt _ hn
  addComment s h := h.addComment s
  addText cs h := h.addText cs
  openElement name as h := h.openElement name as
  openText name as _ h := (h.openElement name as).of_subset rfl (List.Subset.refl _) rfl
  mergeAttributes n as h := h.mergeAttributes n as
  fewer h hns := h.of_subset rfl hns rfl
  again h hn := by
    refine h.of_tree_eq rfl (fun m hm => ?_) h.head_lt
    rcases List.mem_cons.mp hm with rfl | hm
    · exact h.head_lt m hn
    · exact h.open_lt m hm
  enter h _ := h.of_subset rfl (List.Subset.refl _) rfl
  reenter h := h.of_subset rfl (List.Subset.refl _) rfl
  leaveText h _ := h.of_subset rfl (List.Subset.refl _) rfl
  form _ h := h.of_subset rfl (List.Subset.refl _) rfl
  newline _ h := h.of_subset rfl (List.Subset.refl _) rfl
  manner _ h := h.of_subset rfl (List.Subset.refl _) rfl
  aside _ h := h.of_subset rfl (List.Subset.refl _) rfl

namespace Grown

/-! ## Before the head -/

variable (h : Grown b)
include h

/-- Which part of the document comes next does not matter for the tree. -/
theorem layout (part : Part) : Grown { b with oldLayout := true, part := part } :=
  h.of_subset rfl (List.Subset.refl _) rfl

/-- Before the document's element, the tree is grown whatever comes. -/
theorem atStart (l : Lexeme) : (b.atStart l).All Grown := by
  unfold Builder.atStart
  split
  · exact h.addBelow h.sound.root_top.lt _
  · exact (h.addBelow h.sound.root_top.lt _).of_subset rfl (List.Subset.refl _) rfl
  · exact .ite h (h.layout _)
  · exact h.layout _

theorem openHtml (as : Attributes) : Grown (b.openHtml as) :=
  (h.openElement "html" as).of_subset rfl (List.Subset.refl _) rfl

/-- So it is before the outermost element. -/
theorem beforeHtml (l : Lexeme) : (b.beforeHtml l).All Grown := by
  unfold Builder.beforeHtml
  split
  · exact h.addBelow h.sound.root_top.lt _
  · exact h
  · exact .ite h (h.openHtml [])
  · exact h.openHtml _
  · exact .ite (h.openHtml []) h
  · exact h.openHtml []

theorem openHead (as : Attributes) : Grown (b.openHead as) := by
  have hopen := h.openElement "head" as
  refine hopen.of_tree_eq rfl hopen.open_lt fun n hn => ?_
  obtain rfl := Option.mem_some.mp hn
  exact hopen.current_lt

/-- And before the head. -/
theorem beforeHead (l : Lexeme) : (b.beforeHead l).All Grown := by
  unfold Builder.beforeHead
  split
  · exact h.addComment _
  · exact h
  · exact .ite h (h.openHead [])
  · exact h.mergeAttributes ..
  · exact h.openHead _
  · exact .ite (h.openHead []) h
  · exact h.openHead []

/-- Every rule keeps the construction of a document in order. -/
theorem rule (l : Lexeme) : (b.rule l).All Grown := by
  by_cases hpart : b.part ∈ dropsBlanks
  · unfold Builder.rule
    simp only [dropsBlanks, List.mem_cons, List.not_mem_nil, or_false] at hpart
    rcases hpart with hb | hb | hb <;> rw [hb]
    · exact h.atStart l
    · exact h.beforeHtml l
    · exact h.beforeHead l
  · exact grown_closed.rule h hpart l

end Grown

/-- The document node alone. -/
theorem grown_empty : Grown empty := by
  have hnode : ∀ n, Tree.empty.node n = .fresh .document := by
    rintro (_ | n)
    · rfl
    · exact node_of_size_le _ _ (Nat.succ_le_succ (Nat.zero_le n))
  have hchildren : ∀ {n c}, c ∉ (Tree.empty.node n).children := fun {n c} hc => by
    rw [hnode] at hc
    cases hc
  have htop : ∀ {n p}, (Tree.empty.node n).link ≠ .below p := fun {n p} hl => by
    rw [hnode] at hl
    cases hl
  have hlinked : Tree.empty.Linked fun _ => False :=
    { gone_lt := nofun, alive := fun _ => by rw [hnode]; rfl, child_lt := fun hc =>
      absurd hc hchildren,
      child_link := fun hc => absurd hc hchildren, closed := fun hc => absurd hc hchildren,
      nodup := fun p => by rw [hnode]; exact List.nodup_nil
      listed := fun hl => absurd hl htop, acyclic := fun hc => absurd hc hchildren }
  exact ⟨sound_of_agrees rfl ⟨by decide, rfl⟩ (by decide), hlinked, fun n => hnode n ▸ nofun,
    nofun, nofun⟩

end Builder

namespace Tree

/-- A text is read by growing the document node alone. -/
theorem grown_read (html : String) : ∃ b : Builder, b.Grown ∧ Tree.read html = b.tree :=
  ⟨_, Builder.read_keeps (fun l h => h.rule l) Builder.grown_closed.newline (fun cs h _ =>
    h.addText cs) _ _
    Builder.grown_empty, rfl⟩

/-- **Every text is read as a sound tree.** -/
theorem sound_read (html : String) : (Tree.read html).Sound := by
  obtain ⟨b, hb, hread⟩ := grown_read html
  exact hread ▸ hb.sound

/-- **In the tree of a text, links and lists of children agree for all nodes.** -/
theorem linked_read (html : String) : (Tree.read html).Linked fun _ => False := by
  obtain ⟨b, hb, hread⟩ := grown_read html
  exact hread ▸ hb.linked

/-- In the tree of a text, nothing is cut off. -/
theorem link_read_ne_cut (html : String) (n : NodeId) : ((Tree.read html).node n).link ≠ .cut := by
  obtain ⟨b, hb, hread⟩ := grown_read html
  exact hread ▸ hb.uncut n

end Tree
end LiveSpec.Markup
