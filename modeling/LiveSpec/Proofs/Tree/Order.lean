import LiveSpec.Markup.Document
import LiveSpec.Proofs.Tree.Reading

/-!
# The order of a document

The elements that are reached from an element are itself and, step by step, the elements directly
below (`Tree.Reaches`). `Tree.Precedes` is the order of the document, stated by the tree alone: a
node comes before what lies below it, and before what lies in a later branch beside its own. On the
nodes that stand below one node it is a strict order (`Coherent.precedes_asymm`) and total
(`precedes_total`).

A passage over a document goes from a list of branches in that order (`Tree.Branches`) to those
below the first one, and then on.
-/

namespace LiveSpec.Markup.Tree

variable {t : Tree} {a b c d n p q x y : NodeId}

/-- The element `x` is `a`, or it lies below it with nothing but elements between them. -/
inductive Reaches (t : Tree) (a : NodeId) : NodeId → Prop
  | self : Reaches t a a
  | child {p c : NodeId} : Reaches t a p → c ∈ t.elementsOf p → Reaches t a c

/-- The order of the document. -/
inductive Precedes (t : Tree) : NodeId → NodeId → Prop
  /-- A node comes before what lies below it. -/
  | below {x c y : NodeId} : c ∈ (t.node x).children → t.Under c y → Precedes t x y
  /-- What lies in a branch comes before what lies in a later branch beside it. -/
  | beside {p c d x y : NodeId} : [c, d].Sublist (t.node p).children → t.Under c x → t.Under d y →
    Precedes t x y

/-! ## Reached elements -/

theorem mem_elementsOf : c ∈ t.elementsOf p ↔ c ∈ (t.node p).children ∧ t.isElement c = true :=
  List.mem_filter

theorem Reaches.under (h : t.Reaches a x) : t.Under a x := by
  induction h with
  | self => exact .self
  | child _ hc ih => exact .child ih (mem_elementsOf.mp hc).1

/-- What is reached from an element directly below is reached. -/
theorem Reaches.of_child (hc : c ∈ t.elementsOf a) (h : t.Reaches c x) : t.Reaches a x := by
  induction h with
  | self => exact .child .self hc
  | child _ hd ih => exact .child ih hd

/-- What is reached is the element itself, or is reached from one directly below. -/
theorem Reaches.eq_or_below (h : t.Reaches a x) : x = a ∨ ∃ c ∈ t.elementsOf a, t.Reaches c x := by
  induction h with
  | self => exact .inl rfl
  | @child p c _ hc ih =>
    rcases ih with rfl | ⟨c', hc', hp⟩
    · exact .inr ⟨c, hc, .self⟩
    · exact .inr ⟨c', hc', .child hp hc⟩

/-! ## The order of the document -/

/-- Two branches of a node that the same standing node lies in are one. -/
theorem Coherent.branch_unique (ht : t.Coherent) (hx : t.Standing x) (hc : c ∈ (t.node p).children)
    (hd : d ∈ (t.node p).children) (hcx : t.Under c x) (hdx : t.Under d x) : c = d := by
  have hp := ht.standing_parent (ht.standing_of_under hcx hx) hc
  rcases ht.under_total hx hcx hdx with h | h
  · exact (ht.under_child h hd).resolve_right (ht.not_under_child hp hc)
  · exact ((ht.under_child h hc).resolve_right (ht.not_under_child hp hd)).symm

/-- Nothing lies in two branches beside each other. -/
theorem Coherent.not_under_both (ht : t.Coherent) (hx : t.Standing x)
    (h : [c, d].Sublist (t.node p).children) (hc : t.Under c x) : ¬ t.Under d x := fun hd => by
  have hne := (ht.nodup p).sublist h
  have : c = d := ht.branch_unique hx (h.subset (by simp)) (h.subset (by simp)) hc hd
  simp [this] at hne

/-- A node that two branches beside each other lie under does not lie in a branch that comes later.
-/
theorem Coherent.not_beside_of_under (ht : t.Coherent) (hx : t.Standing x) (hy : t.Standing y)
    (hq : q ∈ (t.node p).children) (hxq : t.Under q x) (hyq : t.Under q y)
    (h : [c, d].Sublist (t.node p).children) (hcx : t.Under c x) : ¬ t.Under d y := fun hdy => by
  have hqc : q = c := ht.branch_unique hx hq (h.subset (by simp)) hxq hcx
  exact ht.not_under_both hy h (hqc ▸ hyq) hdy

/-- In a list without repetitions two items stand in one order only. -/
theorem not_sublist_swap {l : List NodeId} (hl : l.Nodup) (h : [c, d].Sublist l) :
    ¬ [d, c].Sublist l := by
  induction l with
  | nil => cases h
  | cons e l ih => grind

/-- Of two standing nodes at most one comes before the other. -/
theorem Coherent.precedes_asymm (ht : t.Coherent) (hx : t.Standing x) (hy : t.Standing y)
    (h : t.Precedes x y) :
    ¬ t.Precedes y x := by
  intro h'
  cases h with
  | below hc hcy =>
    cases h' with
    | below hd hdx =>
      exact ht.not_under_child hx hc (hcy.trans ((Under.of_mem_children hd).trans hdx))
    | beside hs hcy' hdx =>
      exact ht.not_under_both hy hs hcy' (hdx.trans ((Under.of_mem_children hc).trans hcy))
  | @beside p c d _ _ hs hcx hdy =>
    have hc := hs.subset List.mem_cons_self
    have hd : d ∈ (t.node p).children := hs.subset (by simp)
    cases h' with
    | below hq hqx =>
      exact ht.not_under_both hx hs hcx (hdy.trans ((Under.of_mem_children hq).trans hqx))
    | @beside p' c' d' _ _ hs' hcy' hdx' =>
      have hc' := hs'.subset List.mem_cons_self
      have hd' : d' ∈ (t.node p').children := hs'.subset (by simp)
      -- of the two nodes that branch, the lower one has both `x` and `y` in one branch of the other
      by_cases hpp : p = p'
      · subst hpp
        have hcd : c = d' := ht.branch_unique hx hc hd' hcx hdx'
        have hdc : d = c' := ht.branch_unique hy hd hc' hdy hcy'
        exact not_sublist_swap (ht.nodup p) hs (hcd ▸ hdc ▸ hs')
      · rcases ht.under_total hx ((Under.of_mem_children hc).trans hcx)
          ((Under.of_mem_children hd').trans hdx') with
          hu | hu
        · obtain ⟨q, hq, hqp⟩ := hu.eq_or_below.resolve_left (Ne.symm hpp)
          exact ht.not_beside_of_under hx hy hq (hqp.trans ((Under.of_mem_children hd').trans hdx'))
            (hqp.trans ((Under.of_mem_children hc').trans hcy')) hs hcx hdy
        · obtain ⟨q, hq, hqp⟩ := hu.eq_or_below.resolve_left hpp
          exact ht.not_beside_of_under hy hx hq (hqp.trans ((Under.of_mem_children hd).trans hdy))
            (hqp.trans ((Under.of_mem_children hc).trans hcx)) hs' hcy' hdx'

theorem Coherent.precedes_irrefl (ht : t.Coherent) (hx : t.Standing x) :
    ¬ t.Precedes x x := fun h =>
  ht.precedes_asymm hx hx h h

/-- Two items of a list stand in one order or the other. -/
theorem sublist_or_swap {l : List NodeId} (hc : c ∈ l) (hd : d ∈ l) (hne : c ≠ d) :
    [c, d].Sublist l ∨ [d, c].Sublist l := by
  induction l with
  | nil => cases hc
  | cons e l ih => grind

/-- Of two different nodes below the same one, one comes before the other. -/
theorem precedes_total (hx : t.Under a x) (hy : t.Under a y) :
    x = y ∨ t.Precedes x y ∨ t.Precedes y x := by
  induction hx with
  | self =>
    rcases hy.eq_or_below with rfl | ⟨c, hc, hcy⟩
    · exact .inl rfl
    · exact .inr (.inl (.below hc hcy))
  | @child p c _ hc ih =>
    rcases ih with rfl | h | h
    · exact .inr (.inr (.below hc .self))
    · cases h with
      | @below _ d _ hd hdy =>
        by_cases hcd : c = d
        · subst hcd
          rcases hdy.eq_or_below with rfl | ⟨q, hq, hqy⟩
          · exact .inl rfl
          · exact .inr (.inl (.below hq hqy))
        · rcases sublist_or_swap hc hd hcd with hs | hs
          · exact .inr (.inl (.beside hs .self hdy))
          · exact .inr (.inr (.beside hs hdy .self))
      | beside hs hcp hdy => exact .inr (.inl (.beside hs (.child hcp hc) hdy))
    · cases h with
      | below hd hdp => exact .inr (.inr (.below hd (.child hdp hc)))
      | beside hs hcy hdp => exact .inr (.inr (.beside hs hcy (.child hdp hc)))

/-! ## Branches in order -/

/-- Standing nodes whose branches come one after the other in the document. -/
structure Branches (t : Tree) (ns : List NodeId) : Prop where
  standing {n : NodeId} : n ∈ ns → t.Standing n
  ordered : ns.Pairwise fun a b => ∀ x y, t.Under a x → t.Under b y → t.Precedes x y

theorem Branches.single (h : t.Standing a) : t.Branches [a] :=
  ⟨fun hn => List.mem_singleton.mp hn ▸ h, List.pairwise_singleton ..⟩

theorem Branches.tail {ns : List NodeId} (h : t.Branches (a :: ns)) : t.Branches ns :=
  ⟨fun hn => h.standing (List.mem_cons_of_mem a hn), h.ordered.of_cons⟩

/-- The elements directly below a node have their branches in order. -/
theorem Branches.elementsOf (h : t.Standing a) : t.Branches (t.elementsOf a) := by
  refine ⟨fun hn => h.child (mem_elementsOf.mp hn).1,
    List.pairwise_iff_forall_sublist.mpr fun hs x y hx hy => ?_⟩
  exact .beside (hs.trans List.filter_sublist) hx hy

/-- What lies in the first of several branches lies in no other. -/
theorem Branches.not_under (ht : t.Coherent) {ns : List NodeId} (h : t.Branches (a :: ns))
    (hb : b ∈ ns) (ha : t.Under a x) : ¬ t.Under b x := fun hbx =>
  ht.precedes_irrefl ((h.standing List.mem_cons_self).under ha)
    ((List.pairwise_cons.mp h.ordered).1 b hb x x ha hbx)

/-- A node above something that is reached from below the first branch lies in the same branch
below, or it is the topmost node. -/
theorem Branches.above_reached (ht : t.Coherent) {ns : List NodeId} {m : NodeId}
    (h : t.Branches (n :: ns)) (hc : c ∈ t.elementsOf n) (hx : t.Reaches c x) (hax : t.Under a x)
    (hm : m ∈ n :: ns) (hma : t.Under m a) :
    a = n ∨ t.Under c a := by
  have hn := h.standing List.mem_cons_self
  have hnx : t.Under n x := (Reaches.of_child hc hx).under
  rcases List.mem_cons.mp hm with rfl | hm
  · refine hma.eq_or_below.imp_right fun ⟨d, hd, hda⟩ => ?_
    have hcd : c = d := ht.branch_unique (hn.under hnx) (mem_elementsOf.mp hc).1 hd hx.under
      (hda.trans hax)
    exact hcd ▸ hda
  · exact absurd (hma.trans hax) (h.not_under ht hm hnx)

/-! ## The outermost element -/

theorem mem_elementsOf_of_root (h : t.root = .ok a) : a ∈ t.elementsOf documentId := by
  unfold Tree.root at h
  split at h
  · next hroot =>
    cases h
    exact hroot ▸ List.mem_cons_self
  · cases h

/-- The document hangs at the top, so its outermost element is one level below. -/
theorem Coherent.depth_root (ht : t.Coherent) (h : t.root = .ok a) : t.Depth a 1 :=
  .child (.top ht.root_top) (mem_elementsOf.mp (mem_elementsOf_of_root h)).1

end LiveSpec.Markup.Tree
