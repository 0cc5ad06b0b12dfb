import LiveSpec.Proofs.Tree.Onward
import LiveSpec.Proofs.Tree.Overlay

/-!
# New children at the end

`Tree.Appended` says that one node of a tree got new children at its end, and that nothing else
happened to the nodes that were there: one step after another comes to the same as all at once
(`Appended.trans`). `Tree.Bears` says what an element is that was made with its attributes and
perhaps a text in it, and nodes that are appended elsewhere leave it so (`Bears.appended`).
-/

namespace LiveSpec.Markup.Tree

variable {t s u : Tree} {h n m : NodeId} {added more : List NodeId}

/-- A tree in which one node has more children, new ones at the end, and all else is as it was. -/
structure Appended (h : NodeId) (t s : Tree) (added : List NodeId) : Prop where
  coherent : s.Coherent
  size_le : t.nodes.size ≤ s.nodes.size
  node {m : NodeId} : m < t.nodes.size →
    s.node m = { t.node m with children := (t.node m).children ++ if m = h then added else [] }
  new : ∀ c ∈ added, t.nodes.size ≤ c

namespace Appended

theorem of_beyond (hs : t.Beyond s) : Appended h t s [] where
  coherent := hs.coherent
  size_le := hs.size_le
  node hm := by rw [hs.node hm, ite_self, List.append_nil]
  new := nofun

theorem trans (hs : Appended h t s added) (hu : Appended h s u more) :
    Appended h t u (added ++ more) where
  coherent := hu.coherent
  size_le := Nat.le_trans hs.size_le hu.size_le
  node {m} hm := by
    rw [hu.node (Nat.lt_of_lt_of_le hm hs.size_le), hs.node hm]
    split <;> simp
  new c hc := (List.mem_append.mp hc).elim (hs.new c) fun hc =>
    Nat.le_trans hs.size_le (hu.new c hc)

variable (hs : Appended h t s added)
include hs

theorem content (hm : m < t.nodes.size) : (s.node m).content = (t.node m).content := by
  rw [hs.node hm]

theorem link (hm : m < t.nodes.size) : (s.node m).link = (t.node m).link := by rw [hs.node hm]

theorem children (hm : m < t.nodes.size) :
    (s.node m).children = (t.node m).children ++ if m = h then added else [] := by rw [hs.node hm]

theorem children_of_ne (hm : m < t.nodes.size) (hne : m ≠ h) :
    (s.node m).children = (t.node m).children := by
  rw [hs.children hm, if_neg hne, List.append_nil]

theorem subset (m : NodeId) : (t.node m).children ⊆ (s.node m).children := fun c hc => by
  rw [hs.children (lt_size_of_mem_children hc)]
  exact List.mem_append_left _ hc

theorem lt_size (hh : h < t.nodes.size) {c : NodeId} (hc : c ∈ added) : c < s.nodes.size := by
  have hmem : c ∈ (s.node h).children := by
    rw [hs.children hh, if_pos rfl]
    exact List.mem_append_right _ hc
  exact hs.coherent.child_lt hmem

theorem standing (hm : t.Standing m) : s.Standing m := by
  obtain ⟨r, hr, hu⟩ := hm
  exact ⟨r, ⟨Nat.lt_of_lt_of_le hr.lt hs.size_le, (hs.link hr.lt).trans hr.link⟩,
    hu.mono fun _ _ hc => hs.subset _ hc⟩

end Appended

/-! ## Elements with texts in them -/

/-- What a node is, and the texts in it, if there is nothing but texts in it. -/
structure Bears (t : Tree) (n : NodeId) (content : Content) (texts : List String) : Prop where
  content : (t.node n).content = content
  texts : (t.node n).children.map (fun c => (t.node c).content) = texts.map Content.text

variable {tag : String} {as : Attributes} {content : Content} {texts : List String}

theorem node_newElement (t : Tree) (name : String) :
    (t.newElement name).2.node t.nodes.size = .fresh (.element (Text.asciiLower name) []) := by
  show (t.add _).2.node t.nodes.size = _
  rw [node_add, if_pos rfl]

theorem bears_newElement (t : Tree) (name : String) :
    (t.newElement name).2.Bears t.nodes.size (.element (Text.asciiLower name) []) [] := by
  have hnew := node_newElement t name
  exact ⟨by rw [hnew]; rfl, by rw [hnew]; rfl⟩

theorem bears_newElementWithText (t : Tree) (name text : String) :
    (t.newElementWithText name text).2.Bears t.nodes.size (.element (Text.asciiLower name) [])
    [text] := by
  have hnew := node_newElement t name
  have hlt : t.nodes.size < (t.newElement name).2.nodes.size := by
    show _ < (t.add _).2.nodes.size
    rw [size_add]
    exact Nat.lt_succ_self _
  show ((t.newElement name).2.appendText t.nodes.size text).Bears _ _ _
  generalize (t.newElement name).2 = s at hnew hlt
  have hnode := fun m => node_hang_add (m := m) (.text text) (· ++ [s.nodes.size]) hlt
  have hself : (s.appendText t.nodes.size text).node t.nodes.size =
      { s.node t.nodes.size with children := [s.nodes.size] } := by
    rw [appendText_eq, hnode, if_neg (Nat.ne_of_lt hlt), if_pos rfl, hnew]
    rfl
  refine ⟨by rw [hself, hnew]; rfl, ?_⟩
  rw [hself, appendText_eq, List.map_singleton, hnode, if_pos rfl]
  rfl

/-- An attribute that an element does not have yet is its last one. -/
theorem put_eq_append {name : String} (h : as.find? name = none) (value : String) :
    as.put name value = as ++ [(name, value)] := by
  induction as with
  | nil => rfl
  | cons a as ih =>
    obtain ⟨n, old⟩ := a
    unfold Attributes.find? at h
    unfold Attributes.put
    split at h
    · cases h
    · next hn => rw [if_neg hn, ih h, List.cons_append]

theorem Bears.setAttribute (h : t.Bears n (.element tag as) texts) (name value : String)
    (hnew : as.find? name = none) :
    (t.setAttribute n name value).Bears n (.element tag (as ++ [(name, value)])) texts := by
  have hnode :=
    fun m => node_modifyAttributes (t := t) (n := n) (m := m) (Attributes.put name value)
  unfold Tree.setAttribute
  refine ⟨?_, ?_⟩
  · rw [hnode, if_pos rfl, h.content]
    exact congrArg (Content.element tag) (put_eq_append hnew value)
  · rw [(modifyAttributes_sameShape _).children, ← h.texts]
    refine List.map_congr_left fun c hc => ?_
    obtain ⟨text, -, htext⟩ :=
      List.mem_map.mp (h.texts ▸ List.mem_map_of_mem (f := fun c => (t.node c).content) hc)
    rw [hnode]
    -- a text has no attributes
    split
    · exact (congrArg (Content.mapAttributes _) htext.symm).trans htext
    · rfl

theorem Bears.appended (hb : t.Bears n content texts) (hs : Appended h t s added) (ht : t.Coherent)
    (hn : n < t.nodes.size) (hne : n ≠ h) : s.Bears n content texts where
  content := (hs.content hn).trans hb.content
  texts := by
    rw [hs.children_of_ne hn hne, ← hb.texts]
    exact List.map_congr_left fun c hc => hs.content (ht.child_lt hc)

end LiveSpec.Markup.Tree
