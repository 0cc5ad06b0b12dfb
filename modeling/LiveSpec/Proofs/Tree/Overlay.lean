import LiveSpec.Proofs.Tree.Classes
import LiveSpec.Proofs.Tree.Moving
import LiveSpec.Proofs.Tree.Onward

/-!
# What is laid over a tree

Painting builds new nodes beside the tree, and then hangs them into one element. While it builds, no
old node changes at all (`Beyond`). When it hangs them in, that element gets other children, and the
other old nodes keep their contents and their children (`Overlaid`). Both leave the tree coherent,
and the same old nodes stand.
-/

namespace LiveSpec.Markup.Tree

variable {t s s' : Tree} {n m p x c : NodeId} {w v : String} {f : List NodeId → List NodeId}

/-! ## Building beside a tree -/

/-- A coherent tree with more nodes, the old ones as they were. -/
structure Beyond (t s : Tree) : Prop where
  coherent : s.Coherent
  size_le : t.nodes.size ≤ s.nodes.size
  node {m : NodeId} : m < t.nodes.size → s.node m = t.node m

namespace Beyond

theorem trans (h : t.Beyond s) (h' : s.Beyond s') : t.Beyond s' where
  coherent := h'.coherent
  size_le := Nat.le_trans h.size_le h'.size_le
  node hm := (h'.node (Nat.lt_of_lt_of_le hm h.size_le)).trans (h.node hm)

theorem add (ht : t.Coherent) (content : Content) : t.Beyond (t.add content).2 where
  coherent := ht.add content
  size_le := by rw [size_add]; exact Nat.le_succ _
  node hm := node_add_of_lt content hm

theorem isTop (h : t.Beyond s) (hx : t.IsTop x) : s.IsTop x :=
  ⟨Nat.lt_of_lt_of_le hx.lt h.size_le, (congrArg Node.link (h.node hx.lt)).trans hx.link⟩

theorem under (h : t.Beyond s) (hx : t.Under n x) : s.Under n x := by
  refine hx.mono fun p y hy => ?_
  rw [h.node (lt_size_of_mem_children hy)]
  exact hy

theorem standing_iff (h : t.Beyond s) (ht : t.Coherent) (hx : x < t.nodes.size) : s.Standing x ↔
    t.Standing x := by
  constructor
  · -- what an old node hangs below is old itself
    intro hs
    refine hs.of_closed (S := fun y => y < t.nodes.size → t.Standing y) (fun hr hlt => ?_)
      (fun {p c} hp hc hlt => ?_) hx
    · exact IsTop.standing ⟨hlt, h.node hlt ▸ hr.link⟩
    · have hl := h.coherent.child_link hc
      rw [h.node hlt] at hl
      have hplt := ht.parent_lt hl
      rw [h.node hplt] at hc
      exact (hp hplt).child hc
  · rintro ⟨r, hr, hu⟩
    exact ⟨r, h.isTop hr, h.under hu⟩

variable (h : t.Beyond s)
include h

theorem modifyAttributes (hm : t.nodes.size ≤ m) (g : Attributes → Attributes) :
    t.Beyond (s.modifyAttributes m g) where
  coherent := (modifyAttributes_sameShape g).coherent h.coherent
  size_le := by rw [size_modifyAttributes]; exact h.size_le
  node {y} hy := by
    rw [node_modifyAttributes, if_neg (Nat.ne_of_gt (Nat.lt_of_lt_of_le hy hm))]
    exact h.node hy

theorem addClass (hm : t.nodes.size ≤ m) (w : String) : t.Beyond (s.addClass m w) :=
  h.modifyAttributes hm _

theorem hang (hc : s.Loose c) (hct : t.nodes.size ≤ c) (hpt : t.nodes.size ≤ p)
    (hp : p < s.nodes.size) (hput : (f (s.node p).children).Perm (c :: (s.node p).children)) :
    t.Beyond (s.hang c p f) where
  coherent := h.coherent.hang hc hp hput
  size_le := by rw [size_hang]; exact h.size_le
  node {y} hy := by
    rw [node_hang]
    have hyc : c ≠ y := Nat.ne_of_gt (Nat.lt_of_lt_of_le hy hct)
    have hyp : p ≠ y := Nat.ne_of_gt (Nat.lt_of_lt_of_le hy hpt)
    simp [hyc, hyp, h.node hy]

/-- A top node that was made since is not above a node that stood before. -/
theorem not_under (hx : t.Standing x) (hct : t.nodes.size ≤ c) (hc : s.IsTop c) :
    ¬ s.Under c x := by
  obtain ⟨r, hr, hrx⟩ := hx
  have hrc : r ≠ c := Nat.ne_of_lt (Nat.lt_of_lt_of_le hr.lt hct)
  exact h.coherent.not_under_of_isTop (h.isTop hr) hc hrc (h.under hrx)

end Beyond

/-! ## Changing one element -/

/-- A tree in which one node got other children or classes. -/
structure Overlaid (n : NodeId) (t s : Tree) : Prop where
  coherent : s.Coherent
  size_le : t.nodes.size ≤ s.nodes.size
  content {m : NodeId} : m < t.nodes.size → m ≠ n → (s.node m).content = (t.node m).content
  children {m : NodeId} : m < t.nodes.size → m ≠ n → (s.node m).children = (t.node m).children
  standing_iff {x : NodeId} : x < t.nodes.size → (s.Standing x ↔ t.Standing x)

namespace Overlaid

theorem refl (ht : t.Coherent) : Overlaid n t t :=
  ⟨ht, Nat.le_refl _, fun _ _ => rfl, fun _ _ => rfl, fun _ => .rfl⟩

theorem trans (h : Overlaid n t s) (h' : Overlaid n s s') : Overlaid n t s' where
  coherent := h'.coherent
  size_le := Nat.le_trans h.size_le h'.size_le
  content hm hne := (h'.content (Nat.lt_of_lt_of_le hm h.size_le) hne).trans (h.content hm hne)
  children hm hne := (h'.children (Nat.lt_of_lt_of_le hm h.size_le) hne).trans (h.children hm hne)
  standing_iff hx := (h'.standing_iff (Nat.lt_of_lt_of_le hx h.size_le)).trans (h.standing_iff hx)

theorem of_beyond (ht : t.Coherent) (h : t.Beyond s) : Overlaid n t s where
  coherent := h.coherent
  size_le := h.size_le
  content hm _ := congrArg Node.content (h.node hm)
  children hm _ := congrArg Node.children (h.node hm)
  standing_iff hx := h.standing_iff ht hx

theorem of_addClass (ht : t.Coherent) (w : String) : Overlaid n t (t.addClass n w) := by
  have hshape : t.SameShape (t.addClass n w) := modifyAttributes_sameShape _
  refine ⟨hshape.coherent ht, Nat.le_of_eq hshape.size.symm, fun {m} _ hm => ?_,
    fun {m} _ _ => hshape.children m,
    fun _ => hshape.standing_iff⟩
  rw [addClass, node_modifyAttributes, if_neg (Ne.symm hm)]

theorem of_hang (ht : t.Coherent) (hc : t.Loose c) (hn : t.Standing n) (hcn : ¬ t.Under c n)
    (hput : (f (t.node n).children).Perm (c :: (t.node n).children)) :
    Overlaid n t (t.hang c n f) := by
  have hnlt := ht.standing_lt hn
  refine ⟨ht.hang hc hnlt hput, Nat.le_of_eq (size_hang _).symm, fun {m} _ _ => ?_,
    fun {m} _ hm => ?_, fun _ => ?_⟩
  · rw [node_hang]
  · rw [children_hang _ hnlt, if_neg (Ne.symm hm)]
  · exact standing_hang_iff hc hn hnlt hcn hput

end Overlaid
end LiveSpec.Markup.Tree
