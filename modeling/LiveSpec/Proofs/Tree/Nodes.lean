import LiveSpec.Markup.Tree
import Mathlib

/-!
# The table of nodes, write by write

What each write to the table of a tree does to each node. A write to one place leaves the others as
they are, and a place outside of the table is never written: there `Tree.node` answers the fresh
document node, which has no children and hangs at the top.
-/

namespace LiveSpec.Markup.Tree

variable (t : Tree) (n m : NodeId)

/-- Past the last node there is only the default. -/
theorem node_of_size_le (h : t.nodes.size ≤ n) : t.node n = .fresh .document := by
  simp [node, Array.getD, Nat.not_lt.mpr h]

@[simp] theorem size_modify (f : Node → Node) : (t.modify n f).nodes.size = t.nodes.size := by
  simp [modify]

/-- An edit of one node shows at that node only. -/
theorem node_modify (f : Node → Node) :
    (t.modify n f).node m = if n = m ∧ m < t.nodes.size then f (t.node m) else t.node m := by
  simp only [node, modify, Array.getD_eq_getD_getElem?, Array.getElem?_modify]
  by_cases hm : m < t.nodes.size
  · by_cases hn : n = m <;> simp [hm, hn]
  · simp [hm]

/-- A change that leaves the fresh node as it is can be read off without looking at the size. -/
theorem node_modify_of_fresh (f : Node → Node) (hf : f (.fresh .document) = .fresh .document) :
    (t.modify n f).node m = if n = m then f (t.node m) else t.node m := by
  rw [node_modify]
  by_cases h : n = m
  · by_cases hm : m < t.nodes.size
    · rw [if_pos ⟨h, hm⟩, if_pos h]
    · rw [if_neg (fun c => hm c.2), if_pos h, node_of_size_le _ _ (Nat.not_lt.mp hm), hf]
  · rw [if_neg (fun c => h c.1), if_neg h]

/-! ## Links and lists of children -/

@[simp] theorem size_setLink (l : Link) : (t.setLink n l).nodes.size = t.nodes.size :=
  size_modify ..

@[simp] theorem size_modifyChildren (f : List NodeId → List NodeId) :
    (t.modifyChildren n f).nodes.size = t.nodes.size := size_modify ..

theorem node_setLink (l : Link) :
    (t.setLink n l).node m = if n = m ∧ m < t.nodes.size then
      { t.node m with link := l } else t.node m :=
  node_modify ..

theorem node_modifyChildren (f : List NodeId → List NodeId) :
    (t.modifyChildren n f).node m =
      if n = m ∧ m < t.nodes.size then { t.node m with children := f (t.node m).children }
        else t.node m :=
  node_modify ..

/-- The links of several nodes, written one after the other. -/
def setLinks (ns : List NodeId) (l : Link) : Tree := ns.foldl (fun t c => t.setLink c l) t

@[simp] theorem size_setLinks (ns : List NodeId) (l : Link) :
    (t.setLinks ns l).nodes.size = t.nodes.size := by
  induction ns generalizing t with
  | nil => rfl
  | cons c ns ih => exact (ih (t.setLink c l)).trans (size_setLink ..)

/-- Setting links shows at the nodes that are listed. -/
theorem node_setLinks (ns : List NodeId) (l : Link) :
    (t.setLinks ns l).node m = if m ∈ ns ∧ m < t.nodes.size then { t.node m with link := l } else
      t.node m := by
  induction ns generalizing t with
  | nil => simp [setLinks]
  | cons c ns ih =>
    have hstep : (t.setLinks (c :: ns) l) = (t.setLink c l).setLinks ns l := rfl
    rw [hstep, ih, node_setLink, size_setLink]
    by_cases hm : m < t.nodes.size
    · by_cases hc : c = m
      · simp [hm, hc]
      · by_cases hin : m ∈ ns <;> simp [hm, hc, hin, Ne.symm hc]
    · simp [hm]

/-! ## New nodes -/

@[simp] theorem size_add (c : Content) : (t.add c).2.nodes.size = t.nodes.size + 1 := by
  simp [add]

/-- A new node is fresh and comes last; the others stay. -/
theorem node_add (c : Content) :
    (t.add c).2.node n = if n = t.nodes.size then .fresh c else t.node n := by
  simp only [node, add, Array.getD, Array.size_push]
  rcases Nat.lt_trichotomy n t.nodes.size with h | h | h
  · simp [h, Nat.lt_succ_of_lt h, Nat.ne_of_lt h, Array.getElem_push_lt h]
  · subst h; simp
  · simp [Nat.not_lt.mpr (Nat.le_of_lt h), Nat.not_lt.mpr h, Nat.ne_of_gt h]

theorem node_add_of_lt {t : Tree} {n : NodeId} (c : Content) (h : n < t.nodes.size) :
    (t.add c).2.node n = t.node n := by
  rw [node_add, if_neg (Nat.ne_of_lt h)]

/-! ## What is read off the content alone -/

/-- Two nodes with the same content agree in all that an element is asked for. -/
theorem isElement_congr {t t' : Tree} {n n' : NodeId}
    (h : (t'.node n').content = (t.node n).content) :
    t'.isElement n' = t.isElement n := by
  unfold isElement; rw [h]

/-- The name of a node is in its content. -/
theorem name_congr {t t' : Tree} {n n' : NodeId} (h : (t'.node n').content = (t.node n).content) :
    t'.name n' = t.name n := by
  unfold name; rw [h]

theorem isNamed_congr {t t' : Tree} {n n' : NodeId} (h : (t'.node n').content = (t.node n).content)
    (name : String) : t'.isNamed n' name = t.isNamed n name := by
  unfold isNamed localName; rw [name_congr h]

/-- What has a name is an element. -/
theorem isElement_of_name {t : Tree} {n : NodeId} {name : String} (hname : t.name n = name)
    (hne : name ≠ "") :
    t.isElement n = true := by
  unfold Tree.name at hname
  unfold isElement
  split
  · rfl
  · next hno =>
    split at hname
    · next n as he => exact absurd he (hno n as)
    · exact absurd hname.symm hne

theorem isElement_of_isNamed {t : Tree} {n : NodeId} {name : String} (h : t.isNamed n name = true)
    (hne : Text.sameName "" name = false) : t.isElement n = true := by
  refine isElement_of_name rfl fun hempty => ?_
  have hlocal : (splitName "").2 = "" := by cbv
  unfold isNamed localName at h
  rw [hempty, hlocal, hne] at h
  cases h

/-- A node outside of the table has no children. -/
theorem lt_size_of_mem_children {t : Tree} {p c : NodeId} (h : c ∈ (t.node p).children) :
    p < t.nodes.size := by
  refine Nat.lt_of_not_le fun hle => ?_
  rw [node_of_size_le _ _ hle] at h
  cases h

/-! ## What begins with a check -/

theorem ensureLive_bind_of_isLive {t : Tree} {n : NodeId} {α : Type} {f : Unit → Except TreeError α}
    (h : t.isLive n = true) : (t.ensureLive n >>= f) = f () := by
  unfold ensureLive
  rw [if_pos h]
  rfl

/-- What needs a live node fails at a stale one, by its name. -/
theorem ensureLive_bind_of_stale {t : Tree} {n : NodeId} {α : Type} {f : Unit → Except TreeError α}
    (h : t.isLive n = false) : (t.ensureLive n >>= f) = .error (.stale (t.name n)) := by
  unfold ensureLive
  rw [if_neg (Bool.eq_false_iff.mp h)]
  rfl

/-- It succeeds only at a live one. -/
theorem ensureLive_bind_eq_ok {t : Tree} {n : NodeId} {α : Type}
    {f : Unit → Except TreeError α} {a : α} :
    (t.ensureLive n >>= f) = .ok a ↔ t.isLive n = true ∧ f () = .ok a := by
  cases h : t.isLive n with
  | true => rw [ensureLive_bind_of_isLive h, and_iff_right rfl]
  | false =>
    rw [ensureLive_bind_of_stale h]
    exact iff_of_false nofun nofun

theorem childElements_of_isLive {t : Tree} {n : NodeId} (h : t.isLive n = true) :
    t.childElements n = .ok (t.elementsOf n) := ensureLive_bind_of_isLive h

end LiveSpec.Markup.Tree
