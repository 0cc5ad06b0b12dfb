import LiveSpec.Markup.Writer
import LiveSpec.Proofs.Tree.Edits

/-!
# Trees that are alike but for attributes

Two trees are `Tree.Alike` if they have the same shape and the same nodes, apart from the attributes
of some of these. Whoever does not look at these attributes cannot tell the trees apart: nodes are
live in both or in none, show the same texts, and each edit of the structure fails in both in the
same way, or leads to trees that are alike again. A document is written in the same way if all that
is live is the same (`Alike.html`).
-/

namespace LiveSpec.Markup

/-- What a node is, without its attributes. -/
def Content.stripped : Content → Content := mapAttributes fun _ => []

/-- A node without its attributes. -/
def Node.stripped (x : Node) : Node := { x with content := x.content.stripped }

/-- What is done to the attributes does not show in the stripped content. -/
theorem Content.stripped_mapAttributes (f : Attributes → Attributes) (c : Content) :
    (c.mapAttributes f).stripped = c.stripped := by
  cases c <;> rfl

namespace Tree

/-- Two trees that differ at most in the attributes of the nodes in `gone`. -/
structure Alike (gone : NodeId → Prop) (s s' : Tree) : Prop where
  size : s'.nodes.size = s.nodes.size
  stripped (m : NodeId) : (s'.node m).stripped = (s.node m).stripped
  node {m : NodeId} : ¬ gone m → s'.node m = s.node m

variable {gone : NodeId → Prop} {s s' u u' : Tree} {m n p : NodeId}

/-- Two answers of an edit that fail alike, or are trees that are alike. -/
inductive EndsAlike (gone : NodeId → Prop) : Except TreeError Tree → Except TreeError Tree → Prop
  | ok {s s' : Tree} : Alike gone s s' → EndsAlike gone (.ok s) (.ok s')
  | error (e : TreeError) : EndsAlike gone (.error e) (.error e)

namespace Alike

theorem refl (s : Tree) : Alike gone s s := ⟨rfl, fun _ => rfl, fun _ => rfl⟩

theorem symm (h : Alike gone s s') : Alike gone s' s :=
  ⟨h.size.symm, fun m => (h.stripped m).symm, fun hm => (h.node hm).symm⟩

theorem trans (h : Alike gone s s') (h' : Alike gone s' u) : Alike gone s u :=
  ⟨h'.size.trans h.size, fun m => (h'.stripped m).trans (h.stripped m),
    fun hm => (h'.node hm).trans (h.node hm)⟩

/-- New attributes of a node that may have others. -/
theorem of_modifyAttributes (hn : gone n) (f : Attributes → Attributes) :
    Alike gone s (s.modifyAttributes n f) where
  size := size_modifyAttributes f
  stripped m := by
    rw [node_modifyAttributes]
    split
    · exact congrArg (fun c => { s.node m with content := c }) (Content.stripped_mapAttributes f _)
    · rfl
  node {m} hm := by rw [node_modifyAttributes, if_neg fun he : n = m => hm (he ▸ hn)]

section

variable (h : Alike gone s s')
include h

/-! ## What nobody can tell apart -/

theorem children (m : NodeId) : (s'.node m).children = (s.node m).children := by
  have hsame := congrArg Node.children (h.stripped m)
  exact hsame

theorem link (m : NodeId) : (s'.node m).link = (s.node m).link := by
  have hsame := congrArg Node.link (h.stripped m)
  exact hsame

theorem destroyed (m : NodeId) : (s'.node m).destroyed = (s.node m).destroyed := by
  have hsame := congrArg Node.destroyed (h.stripped m)
  exact hsame

theorem content (m : NodeId) : (s'.node m).content.stripped = (s.node m).content.stripped :=
  congrArg Node.content (h.stripped m)

theorem isElement (m : NodeId) : s'.isElement m = s.isElement m := by
  have hcontent := h.content m
  unfold Content.stripped at hcontent
  unfold Tree.isElement
  cases hs : (s.node m).content <;> cases hs' :
    (s'.node m).content <;> simp_all [Content.mapAttributes]

theorem name (m : NodeId) : s'.name m = s.name m := by
  have hcontent := h.content m
  unfold Content.stripped at hcontent
  unfold Tree.name
  cases hs : (s.node m).content <;> cases hs' :
    (s'.node m).content <;> simp_all [Content.mapAttributes]

theorem elementsOf (m : NodeId) : s'.elementsOf m = s.elementsOf m := by
  unfold Tree.elementsOf
  rw [h.children, funext h.isElement]

/-- A node lies below the same node in both trees. -/
theorem above (m : NodeId) : s'.above m = s.above m := by
  unfold Tree.above
  rw [h.link]
  cases (s.node m).link with
  | below p => simp only [h.destroyed]
  | _ => rfl

/-- A node is live in both trees or in neither. -/
theorem isLive (m : NodeId) : s'.isLive m = s.isLive m := by
  have hreaches : ∀ fuel m, s'.reachesTop fuel m = s.reachesTop fuel m := by
    intro fuel
    induction fuel with
    | zero => exact fun _ => rfl
    | succ fuel ih =>
      intro m
      rw [reachesTop, reachesTop, h.above]
      cases s.above m with
      | parent p => exact ih p
      | _ => rfl
  unfold Tree.isLive
  rw [h.size, hreaches]

theorem ensureLive (m : NodeId) : s'.ensureLive m = s.ensureLive m := by
  unfold Tree.ensureLive
  rw [h.isLive, h.name]

theorem childElements (m : NodeId) : s'.childElements m = s.childElements m := by
  unfold Tree.childElements
  rw [h.ensureLive, h.elementsOf]

/-- A text lies in no attribute. -/
theorem text (m : NodeId) : s'.text m = s.text m := by
  have hwithin : ∀ fuel m, s'.textWithin fuel m = s.textWithin fuel m := by
    intro fuel
    induction fuel with
    | zero => exact fun _ => rfl
    | succ fuel ih =>
      intro m
      rw [textWithin, textWithin, h.children]
      refine congrArg String.join (List.map_congr_left fun c _ => ?_)
      have hcontent := h.content c
      unfold Content.stripped at hcontent
      cases hs : (s.node c).content <;> cases hs' :
        (s'.node c).content <;> simp_all [Content.mapAttributes]
  unfold Tree.text
  rw [h.size, hwithin]

/-- A node whose attributes are not among the differing ones has the same classes. -/
theorem hasClass (hm : ¬ gone m) (w : String) : s'.hasClass m w = s.hasClass m w := by
  unfold Tree.hasClass Tree.attributes
  rw [h.node hm]

/-- Documents are written in the same way if nothing that lies under the top is in `gone`. -/
theorem html (hgone : ∀ m, s.Under documentId m → ¬ gone m) : s'.html = s.html := by
  have hwrite : ∀ fuel inside m, s.Under documentId m →
      s'.write fuel inside m = s.write fuel inside m := by
    intro fuel
    induction fuel with
    | zero => exact fun _ _ _ => rfl
    | succ fuel ih =>
      intro inside m hm
      have hchildren : ∀ inside, (s.node m).children.map (s'.write fuel inside) =
          (s.node m).children.map (s.write fuel inside) :=
        fun inside => List.map_congr_left fun c hc => ih inside c (hm.child hc)
      rw [write, write, h.node (hgone m hm)]
      simp only [hchildren]
  unfold Tree.html
  rw [h.size]
  exact hwrite _ _ _ .self

/-! ## Edits -/

/-- An edit of one node keeps trees alike if it does not look at attributes. -/
theorem modify (n : NodeId) {f : Node → Node} (hf : ∀ x y, x.stripped = y.stripped →
    (f x).stripped = (f y).stripped) :
    Alike gone (s.modify n f) (s'.modify n f) where
  size := by rw [size_modify, size_modify, h.size]
  stripped m := by
    rw [node_modify, node_modify, h.size]
    split
    · exact hf _ _ (h.stripped m)
    · exact h.stripped m
  node hm := by rw [node_modify, node_modify, h.size, h.node hm]

theorem setLink (n : NodeId) (l : Link) : Alike gone (s.setLink n l) (s'.setLink n l) :=
  h.modify n fun _ _ hxy => congrArg (fun x : Node => { x with link := l }) hxy

theorem modifyChildren (n : NodeId) (f : List NodeId → List NodeId) :
    Alike gone (s.modifyChildren n f) (s'.modifyChildren n f) :=
  h.modify n fun _ _ hxy => congrArg (fun x : Node => { x with children := f x.children }) hxy

/-- Attributes may be edited in any way: the edit runs on both sides. -/
theorem modifyAttributes (n : NodeId) (f : Attributes → Attributes) :
    Alike gone (s.modifyAttributes n f) (s'.modifyAttributes n f) where
  size := by rw [size_modifyAttributes, size_modifyAttributes, h.size]
  stripped m := by
    have hstripped :
        ∀ t : Tree, ((t.modifyAttributes n f).node m).stripped = (t.node m).stripped := fun t => by
      rw [node_modifyAttributes]
      split
      · exact congrArg (fun c => { t.node m with content := c })
          (Content.stripped_mapAttributes f _)
      · rfl
    rw [hstripped, hstripped, h.stripped]
  node hm := by rw [node_modifyAttributes, node_modifyAttributes, h.node hm]

/-- A new node gets the same number in both trees. -/
theorem add (c : Content) : (s'.add c).1 = (s.add c).1 ∧ Alike gone (s.add c).2 (s'.add c).2 := by
  refine ⟨h.size, by rw [size_add, size_add, h.size], fun m => ?_, fun hm => ?_⟩
  · rw [node_add, node_add, h.size]
    split
    · rfl
    · exact h.stripped m
  · rw [node_add, node_add, h.size, h.node hm]

theorem detach (n : NodeId) : Alike gone (s.detach n) (s'.detach n) := by
  unfold Tree.detach
  rw [h.above]
  cases s.above n with
  | parent p => exact (h.modifyChildren p _).setLink n .top
  | _ => exact h.setLink n .top

theorem hang (n p : NodeId) (put : List NodeId → List NodeId) :
    Alike gone (s.hang n p put) (s'.hang n p put) :=
  (h.setLink n (.below p)).modifyChildren p put

theorem newElement (name : String) :
    (s'.newElement name).1 = (s.newElement name).1 ∧
    Alike gone (s.newElement name).2 (s'.newElement name).2 := h.add _

/-- A new element with a text gets the same number in both trees. -/
theorem newElementWithText (name text : String) :
    (s'.newElementWithText name text).1 = (s.newElementWithText name text).1 ∧
    Alike gone (s.newElementWithText name text).2 (s'.newElementWithText name text).2 := by
  obtain ⟨hid, hnew⟩ := h.newElement name
  obtain ⟨hid', hnew'⟩ := hnew.add (.text text)
  refine ⟨hid, ?_⟩
  have hhung := hnew'.hang ((s.newElement name).2.add (.text text)).1 (s.newElement name).1
    (· ++ [((s.newElement name).2.add (.text text)).1])
  unfold Tree.newElementWithText appendText
  simp only [hid, hid']
  exact hhung

/-- An edit that looks first whether a node is live. -/
theorem ensureLive_bind {f f' : Unit → Except TreeError Tree} (hf : EndsAlike gone (f ()) (f' ())) :
    EndsAlike gone (s.ensureLive n >>= f) (s'.ensureLive n >>= f') := by
  rw [h.ensureLive]
  cases s.ensureLive n with
  | ok => exact hf
  | error e => exact .error e

/-- Appending a child fails alike or leads to trees that are alike. -/
theorem appendChild (p n : NodeId) : EndsAlike gone (s.appendChild p n) (s'.appendChild p n) :=
  h.ensureLive_bind (.ok ((h.detach n).hang n p _))

/-- So does inserting a node after another. -/
theorem insertAfter (n sibling : NodeId) :
    EndsAlike gone (s.insertAfter n sibling) (s'.insertAfter n sibling) := by
  refine h.ensureLive_bind ?_
  rw [h.above]
  cases s.above n with
  | parent p => exact .ok ((h.detach sibling).hang sibling p _)
  | _ => exact .error _

/-- So does moving all children of a node. -/
theorem moveChildren (n m : NodeId) :
    EndsAlike gone (s.moveChildren n m) (s'.moveChildren n m) := by
  have hmoved : ∀ (cs : List NodeId) {u u' : Tree}, Alike gone u u' →
      Alike gone (cs.foldl (fun t c => t.setLink c (.below m)) u)
        (cs.foldl (fun t c => t.setLink c (.below m)) u') := by
    intro cs
    induction cs with
    | nil => exact fun hu => hu
    | cons c cs ih => exact fun hu => ih (hu.setLink c _)
  refine h.ensureLive_bind (h.ensureLive_bind ?_)
  rw [h.children]
  exact .ok ((hmoved _ (h.modifyChildren n _)).modifyChildren m _)

end

end Alike

end Tree
end LiveSpec.Markup
