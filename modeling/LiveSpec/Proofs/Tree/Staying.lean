import LiveSpec.Proofs.Tree.Reading

/-!
# Nodes that stay

Most of a document is left alone by an edit. A node stays (`Tree.Stays`) if it stands after the edit
as it did before, with its content and its children. It does if the edit is made elsewhere: where a
text replaces the content of another element, everything stays that does not lie in that element;
where an element is removed, everything but the element with all below it and its parent.

A node keeps its place if the whole way down to it is kept (`Sound.standing_of_edges`).
-/

namespace LiveSpec.Markup.Tree

variable {t t' t'' : Tree} {n x : NodeId}

/-- A node that stands after a change, and is what it was. -/
structure Stays (t t' : Tree) (x : NodeId) : Prop where
  standing : t'.Standing x
  content : (t'.node x).content = (t.node x).content
  children : (t'.node x).children = (t.node x).children

namespace Stays

theorem of_eq (h : t' = t) (hx : t.Standing x) : t.Stays t' x := by
  subst h
  exact ⟨hx, rfl, rfl⟩

theorem trans (h : t.Stays t' x) (h' : t'.Stays t'' x) : t.Stays t'' x :=
  ⟨h'.standing, h'.content.trans h.content, h'.children.trans h.children⟩

end Stays

/-- A branch of nodes that stay is untouched. -/
theorem Untouched.of_stays (h : ∀ x, t.Under n x → t.Stays t' x) : t.Untouched t' n :=
  ⟨fun hx => (h _ hx).children, fun hx => (h _ hx).content⟩

/-! ## The way down to a node -/

theorem Under.of_edges (h : t.Under n x)
    (hedge : ∀ {p c}, t.Under c x → c ∈ (t.node p).children → c ∈ (t'.node p).children) :
    t'.Under n x := by
  induction h with
  | self => exact .self
  | child _ hc ih => exact .child (ih fun hu => hedge (.child hu hc)) (hedge .self hc)

/-- A node stands as long as every step of the way down to it is there. -/
theorem Sound.standing_of_edges (ht : t.Sound) (ht' : t'.Sound) (hx : t.Standing x)
    (hedge : ∀ {p c}, t.Under c x → c ∈ (t.node p).children → c ∈ (t'.node p).children) :
    t'.Standing x :=
  ht'.standing_iff.mpr ((ht.standing_iff.mp hx).of_edges hedge)

/-! ## The edits of commands -/

theorem Released.stays (h : t.Released t') (hx : t.Standing x) : t.Stays t' x :=
  ⟨h.standing_iff.mpr hx, h.content x, by rw [h.node hx]⟩

/-- What does not lie in an element stays when a text replaces the content of the element. -/
theorem Sound.stays_setText (ht : t.Sound) (hn : n < t.nodes.size) (hx : t.Standing x)
    (hout : ¬ t.Under n x) (s : String) :
    t.Stays (t.setText n s) x := by
  refine ⟨ht.standing_of_edges (ht.setText hn s) hx fun {p c} hc hmem => ?_,
    (ht.toCoherent.onward_setText hn s).content (ht.standing_lt hx), ?_⟩
  · have hne : p ≠ n := by
      rintro rfl
      exact hout ((Under.of_mem_children hmem).trans hc)
    rw [children_setText hn (lt_size_of_mem_children hmem) hne]
    exact hmem
  · have hne : x ≠ n := by
      rintro rfl
      exact hout .self
    exact children_setText hn (ht.standing_lt hx) hne s

/-- What neither lies in an element nor is its parent stays when the element is removed. -/
theorem Sound.stays_remove (ht : t.Sound) (h : t.remove n = .ok t') (hn : t.isElement n = true)
    (hx : t.Standing x) (hout : ¬ t.Under n x) (hparent : n ∉ (t.node x).children) :
    t.Stays t' x := by
  have hpruned := ht.pruned_remove hn h
  obtain ⟨-, -, hnode⟩ := remove_eq h
  refine ⟨ht.standing_of_edges (hpruned.sound ht) hx fun {p c} hc hmem => ?_, hpruned.content x,
    children_remove h hparent⟩
  have hne : c ≠ n := by
    rintro rfl
    exact hout hc
  rw [hnode]
  dsimp only
  split
  · exact List.mem_filter.mpr ⟨hmem, bne_iff_ne.mpr hne⟩
  · exact hmem

end LiveSpec.Markup.Tree
