import LiveSpec.Proofs.Tree.Classes
import LiveSpec.Proofs.Tree.Onward

/-!
# Edits that keep what nodes are

Whatever is hung in, taken out or moved, in whatever tree: the nodes that were there keep their
contents. What adds classes as well keeps their names and their other attributes (`SameElements`).
-/

namespace LiveSpec.Markup.Tree

variable {t t' : Tree} {n m p : NodeId}

theorem sameContents_add (c : Content) : t.SameContents (t.add c).2 :=
  ⟨by rw [size_add]; exact Nat.le_succ _, fun hn => by rw [node_add_of_lt c hn]⟩

theorem sameContents_hang (put : List NodeId → List NodeId) : t.SameContents (t.hang n p put) :=
  ⟨Nat.le_of_eq (size_hang put).symm, fun _ => by rw [node_hang]⟩

theorem sameContents_modify (f : Node → Node) (hf : ∀ x, (f x).content = x.content) :
    t.SameContents (t.modify n f) := by
  refine ⟨Nat.le_of_eq (size_modify ..).symm, fun {m} _ => ?_⟩
  rw [node_modify]
  split
  · exact hf _
  · rfl

theorem sameContents_setLink (l : Link) : t.SameContents (t.setLink n l) :=
  sameContents_modify _ fun _ => rfl

theorem sameContents_modifyChildren (f : List NodeId → List NodeId) :
    t.SameContents (t.modifyChildren n f) :=
  sameContents_modify _ fun _ => rfl

theorem sameContents_setLinks (ns : List NodeId) (l : Link) : t.SameContents (t.setLinks ns l) := by
  refine ⟨Nat.le_of_eq (size_setLinks ..).symm, fun {m} _ => ?_⟩
  rw [node_setLinks]
  split <;> rfl

theorem sameContents_detach : t.SameContents (t.detach n) := by
  unfold detach
  dsimp only
  split
  · exact (sameContents_modifyChildren _).trans (sameContents_setLink _)
  · exact sameContents_setLink _

theorem sameContents_appendText (s : String) : t.SameContents (t.appendText n s) :=
  (sameContents_add _).trans (sameContents_hang _)

theorem sameContents_newElementWithText (name s : String) :
    t.SameContents (t.newElementWithText name s).2 :=
  (sameContents_add _).trans (sameContents_appendText s)

theorem sameContents_appendChild (h : t.appendChild p n = .ok t') : t.SameContents t' := by
  obtain ⟨-, rfl⟩ := appendChild_eq_ok h
  exact sameContents_detach.trans (sameContents_hang _)

theorem sameContents_insertAfter (h : t.insertAfter m n = .ok t') : t.SameContents t' := by
  obtain ⟨-, p, -, rfl⟩ := insertAfter_eq_ok h
  exact sameContents_detach.trans (sameContents_hang _)

theorem sameContents_moveChildren (h : t.moveChildren n m = .ok t') : t.SameContents t' := by
  obtain ⟨-, h⟩ := ensureLive_bind_eq_ok.mp h
  obtain ⟨-, h⟩ := ensureLive_bind_eq_ok.mp h
  obtain rfl := Except.ok.inj h
  have hlinks :=
    sameContents_setLinks (t := t.modifyChildren n fun _ => []) (t.node n).children (.below m)
  exact (sameContents_modifyChildren _).trans (hlinks.trans (sameContents_modifyChildren _))

/-! ## Edits that add classes -/

/-- A tree in which the elements of another one have the names and the attributes that they had,
classes apart. -/
structure SameElements (t t' : Tree) : Prop where
  isElement {n : NodeId} : t.isElement n = true → t'.isElement n = true
  name {n : NodeId} : t.isElement n = true → t'.name n = t.name n
  attribute? {n : NodeId} {key : String} : t.isElement n = true →
    Text.sameName "class" key = false →
    t'.attribute? n key = t.attribute? n key

namespace SameElements

theorem refl : t.SameElements t := ⟨id, fun _ => rfl, fun _ _ => rfl⟩

theorem trans {t'' : Tree} (h : t.SameElements t') (h' : t'.SameElements t'') :
    t.SameElements t'' where
  isElement hn := h'.isElement (h.isElement hn)
  name hn := (h'.name (h.isElement hn)).trans (h.name hn)
  attribute? hn hkey := (h'.attribute? (h.isElement hn) hkey).trans (h.attribute? hn hkey)

theorem of_sameContents (h : t.SameContents t') : t.SameElements t' where
  isElement hn := (isElement_congr (h.content (lt_size_of_isElement hn))).trans hn
  name hn := name_congr (h.content (lt_size_of_isElement hn))
  attribute? hn _ := by
    unfold Tree.attribute? attributes
    rw [h.content (lt_size_of_isElement hn)]

theorem of_addClass (w : String) : t.SameElements (t.addClass n w) where
  isElement hm := ((modifyAttributes_sameShape _).isElement _).trans hm
  name _ := name_modifyAttributes _
  attribute? {m key} _ hkey := by
    unfold Tree.attribute? addClass
    rw [attributes_modifyAttributes]
    split
    · exact Attributes.find?_addClass hkey w _
    · rfl

/-- Elements that have a name have it in the other tree as well. -/
theorem isNamed (h : t.SameElements t') {key : String} (hn : t.isNamed n key = true)
    (hne : Text.sameName "" key = false) : t'.isNamed n key = true := by
  unfold Tree.isNamed localName at hn ⊢
  rwa [h.name (isElement_of_isNamed hn hne)]

end SameElements

end LiveSpec.Markup.Tree
