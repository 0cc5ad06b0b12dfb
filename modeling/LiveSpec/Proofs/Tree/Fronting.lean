import LiveSpec.Proofs.Tree.Building
import LiveSpec.Proofs.Tree.Onward
import LiveSpec.Proofs.Tree.Order

/-!
# The head comes first

When a text is read, nothing but comments comes before the outermost element, and nothing but
comments before the head in it. What is hung in later goes to the end, or directly before a table,
which comes after the head itself. So the outermost element of a document is named `html`, and of
its elements of the name `head` the first one is spelled so, without a mark (`fronted_read`).
-/

namespace LiveSpec.Markup

namespace Tree

variable {t t' : Tree} {s : Content} {f m p q r h : NodeId} {put : List NodeId → List NodeId}

/-- A new node that is hung in leaves the contents of all others. -/
theorem content_hang_add (put : List NodeId → List NodeId) (hp : p < t.nodes.size)
    (hm : m < t.nodes.size) :
    (((t.add s).2.hang t.nodes.size p put).node m).content = (t.node m).content := by
  rw [node_hang_add s put hp, if_neg (Nat.ne_of_lt hm)]
  split
  · next he => rw [he]
  · rfl

/-- The elements below a node, after a new node was hung in. -/
theorem elementsOf_hang_add (hp : p < t.nodes.size) (hq : q < t.nodes.size) :
    ((t.add s).2.hang t.nodes.size p put).elementsOf q =
      (if q = p then put (t.node p).children else (t.node q).children).filter
        ((t.add s).2.hang t.nodes.size p put).isElement := by
  unfold elementsOf
  rw [node_hang_add s put hp, if_neg (Nat.ne_of_lt hq)]
  split <;> rfl

/-- The old children are elements afterwards exactly if they were before. -/
theorem Coherent.filter_hang_add (ht : t.Coherent) (hp : p < t.nodes.size)
    (put : List NodeId → List NodeId) :
    (t.node q).children.filter ((t.add s).2.hang t.nodes.size p put).isElement = t.elementsOf q :=
  List.filter_congr fun _ hc => isElement_congr (content_hang_add put hp (ht.child_lt hc))

/-- A new node at the end comes after the elements that were there. -/
theorem Coherent.elementsOf_hang_end (ht : t.Coherent) (hp : p < t.nodes.size)
    (hq : q < t.nodes.size) :
    ((t.add s).2.hang t.nodes.size p (· ++ [t.nodes.size])).elementsOf q =
      t.elementsOf q ++ if q = p then [t.nodes.size].filter
        ((t.add s).2.hang t.nodes.size p (· ++ [t.nodes.size])).isElement else [] := by
  rw [elementsOf_hang_add hp hq]
  split
  · next he => rw [List.filter_append, ← he, ht.filter_hang_add (he ▸ hp)]
  · rw [ht.filter_hang_add hp, List.append_nil]

/-- The new node is an element if its content says so. -/
theorem isElement_hang_add (hp : p < t.nodes.size) :
    ((t.add s).2.hang t.nodes.size p put).isElement t.nodes.size =
    match s with
    | .element _ _ => true
    | _ => false := by
  have hcontent : (((t.add s).2.hang t.nodes.size p put).node t.nodes.size).content = s := by
    rw [node_hang_add s put hp, if_pos rfl]
  exact congrArg (fun c : Content => match c with | .element _ _ => true | _ => false) hcontent

/-- The outermost element is the first one below the document. -/
theorem root_eq_ok : t.root = .ok r ↔ (t.elementsOf documentId).head? = some r := by
  unfold root
  cases t.elementsOf documentId <;> simp

/-- The first element of a name is found among the elements below. -/
theorem firstChild?_eq_ok {name : String} {found : Option NodeId}
    (h : t.firstChild? r name = .ok found) :
    (t.elementsOf r).find? (fun c => t.isNamed c name) = found := by
  obtain ⟨children, hchildren, hfound⟩ := Except.bind_eq_ok.mp h
  obtain ⟨-, -, hchildren⟩ := Except.bind_eq_ok.mp hchildren
  cases hchildren
  exact Except.ok.inj hfound

/-- New content goes to the end, or directly before a table. -/
def Behind (t : Tree) (put : List NodeId → List NodeId) : Prop :=
  put = (· ++ [t.nodes.size]) ∨ ∃ table, t.name table = "table" ∧
    put = Builder.putBefore table t.nodes.size

/-- What goes before another element does not become the first one. -/
theorem head?_filter_putBefore {e : NodeId → Bool} {cs : List NodeId} {a x : NodeId}
    (ha : e a = true) (hf : (cs.filter e).head? = some f) (hne : f ≠ a) :
    ((Builder.putBefore a x cs).filter e).head? = some f := by
  induction cs with
  | nil => cases hf
  | cons c cs ih =>
    unfold Builder.putBefore
    cases hc : e c with
    | true =>
      rw [List.filter_cons_of_pos hc] at hf
      obtain rfl := Option.some.inj hf
      rw [if_neg hne, List.filter_cons_of_pos hc]
      rfl
    | false =>
      have hca : c ≠ a := fun he => by
        rw [he, ha] at hc
        cases hc
      rw [List.filter_cons_of_neg (by simp [hc])] at hf
      rw [if_neg hca, List.filter_cons_of_neg (by simp [hc])]
      exact ih hf

/-- The first element stays the first one, unless it is a table. -/
theorem Coherent.first_hang_add (ht : t.Coherent) (hp : p < t.nodes.size) (hput : t.Behind put)
    (hf : (t.elementsOf q).head? = some f) (hname : t.name f ≠ "table") :
    (((t.add s).2.hang t.nodes.size p put).elementsOf q).head? = some f := by
  have hq : q < t.nodes.size :=
    lt_size_of_mem_children (mem_elementsOf.mp (List.mem_of_mem_head? hf)).1
  rw [elementsOf_hang_add hp hq]
  rw [← ht.filter_hang_add (s := s) hp put] at hf
  split
  · next he =>
    subst he
    rcases hput with rfl | ⟨table, htable, rfl⟩
    · rw [List.filter_append, List.head?_append, hf]
      rfl
    · have helement := isElement_of_name htable (by decide)
      refine head?_filter_putBefore ?_ hf fun he => hname (he ▸ htable)
      exact (isElement_congr (content_hang_add _ hp (lt_size_of_isElement helement))).trans helement
  · exact hf

/-- The outermost element is named `html`, and its first element is the head. -/
structure Headed (t : Tree) (r h : NodeId) : Prop where
  outermost : (t.elementsOf documentId).head? = some r
  html : t.name r = "html"
  first : (t.elementsOf r).head? = some h
  head : t.name h = "head"

/-- A node that goes behind the head leaves it the first element. -/
theorem Headed.hang_add (hh : t.Headed r h) (ht : t.Coherent) (hp : p < t.nodes.size)
    (hput : t.Behind put) :
    ((t.add s).2.hang t.nodes.size p put).Headed r h := by
  have hname : ∀ {q f}, (t.elementsOf q).head? = some f →
      ((t.add s).2.hang t.nodes.size p put).name f = t.name f := fun hf =>
    name_congr
      (content_hang_add put hp (ht.child_lt (mem_elementsOf.mp (List.mem_of_mem_head? hf)).1))
  have hr : t.name r ≠ "table" := hh.html ▸ by decide
  have hfirst : t.name h ≠ "table" := hh.head ▸ by decide
  exact ⟨ht.first_hang_add hp hput hh.outermost hr, (hname hh.outermost).trans hh.html,
    ht.first_hang_add hp hput hh.first hfirst, (hname hh.first).trans hh.head⟩

/-- Names and children decide. -/
theorem Headed.congr (hh : t.Headed r h)
    (hchildren : ∀ q, (t'.node q).children = (t.node q).children)
    (helement : ∀ q, t'.isElement q = t.isElement q) (hname : ∀ q, t'.name q = t.name q) :
    t'.Headed r h := by
  have helements : ∀ q, t'.elementsOf q = t.elementsOf q := fun q => by
    unfold elementsOf
    rw [hchildren, funext helement]
  exact ⟨helements _ ▸ hh.outermost, hname r ▸ hh.html, helements _ ▸ hh.first, hname h ▸ hh.head⟩

end Tree

namespace Builder

open Markup.Tree

variable {b b' : Builder} {s : Content} {r n : NodeId}

theorem name_lengthen (t : Tree) (n m : NodeId) (s : String) :
    (lengthen t n s).name m = t.name m := by
  unfold lengthen Tree.name
  rw [node_modify]
  by_cases hm : n = m ∧ m < t.nodes.size
  · rw [if_pos hm]
    cases hc : (t.node m).content <;> simp only [hc]
  · rw [if_neg hm]

/-- Content goes below a node of the table, to the end or before a table. -/
theorem Grown.place_add_eq (h : Grown b) (s : Content) : ∃ p put, p < b.tree.nodes.size ∧
    b.tree.Behind put ∧
    { b with tree := (b.tree.add s).2 }.place b.tree.nodes.size =
      { b with tree := (b.tree.add s).2.hang b.tree.nodes.size p put } := by
  unfold place
  dsimp only
  split
  · split
    · next table htable =>
      split
      · next p hup =>
        have hlt := h.open_lt table (List.mem_of_find?_eq_some htable)
        have hname : b.tree.name table = "table" := by
          have hname := List.find?_some htable
          rw [beq_iff_eq] at hname
          exact (name_congr (congrArg Node.content (node_add_of_lt s hlt))).symm.trans hname
        exact ⟨p, _, h.above_lt hlt hup, .inr ⟨table, hname, rfl⟩, rfl⟩
      · exact ⟨_, _, h.current_lt, .inl rfl, rfl⟩
    · exact ⟨_, _, h.current_lt, .inl rfl, rfl⟩
  · exact ⟨_, _, h.current_lt, .inl rfl, rfl⟩

/-- Unless it is kept out of a table, content goes to the end of the innermost open element. -/
theorem place_of_not_aside (haside : b.aside = false) (n : NodeId) :
    b.place n = { b with tree := b.tree.hang n b.current (· ++ [n]) } := by
  unfold place
  rw [haside]
  rfl

theorem addComment_of_not_aside (haside : b.aside = false) (text : String) :
    b.addComment text = b.addBelow b.current (.comment text) :=
  place_of_not_aside (b := { b with tree := (b.tree.add (.comment text)).2 }) haside _

/-- Outside of tables an element goes below the innermost open one. -/
theorem openElement_of_not_aside (haside : b.aside = false) (name : String) (as : Attributes) :
    b.openElement name as = { b.addBelow b.current (.element name as) with
      openElements := b.tree.nodes.size :: b.openElements } :=
  congrArg (fun b' : Builder => { b' with openElements := b.tree.nodes.size :: b'.openElements })
    (place_of_not_aside (b := { b with tree := (b.tree.add (.element name as)).2 }) haside _)

/-! ## From the head on -/

/-- A construction whose head was opened. -/
structure Begun (b : Builder) : Prop extends Grown b where
  headed : ∃ r h, b.tree.Headed r h
  head : b.headElement.isSome = true
  part : b.part ∉ dropsBlanks
  outer : b.part = .textOnly → b.outerPart ∉ dropsBlanks

namespace Begun

/-- Nothing but flags and the open elements changed. -/
theorem of_tree_eq (h : Begun b) (hgrown : Grown b') (htree : b'.tree = b.tree)
    (hhead : b'.headElement = b.headElement) (hpart : b'.part = b.part)
    (houter : b'.outerPart = b.outerPart) : Begun b' :=
  ⟨hgrown, htree ▸ h.headed, hhead ▸ h.head, hpart ▸ h.part, by rw [hpart, houter]; exact h.outer⟩

/-- A node is placed behind the head. -/
theorem place_add (h : Begun b) (s : Content) :
    Begun ({ b with tree := (b.tree.add s).2 }.place b.tree.nodes.size) := by
  have hgrown := h.toGrown.place_add s
  obtain ⟨p, put, hp, hput, heq⟩ := h.toGrown.place_add_eq s
  obtain ⟨r, first, hheaded⟩ := h.headed
  rw [heq] at hgrown ⊢
  exact ⟨hgrown, ⟨r, first, hheaded.hang_add h.sound.toCoherent hp hput⟩, h.head, h.part, h.outer⟩

/-- A node that goes below any node goes behind what is there. -/
theorem addBelow (h : Begun b) {p : NodeId} (hp : p < b.tree.nodes.size) (s : Content) :
    Begun (b.addBelow p s) := by
  obtain ⟨r, first, hheaded⟩ := h.headed
  exact ⟨h.toGrown.addBelow hp s, ⟨r, first, hheaded.hang_add h.sound.toCoherent hp (.inl rfl)⟩,
    h.head, h.part, h.outer⟩

/-- An element is opened behind the head. -/
theorem openElement (h : Begun b) (name : String) (as : Attributes) :
    Begun (b.openElement name as) :=
  (h.place_add (.element name as)).of_tree_eq (h.toGrown.openElement name as) rfl rfl rfl rfl

/-- A text is added behind the head, or lengthens another one. -/
theorem addText (h : Begun b) (cs : List Char) : Begun (b.addText cs) := by
  have hgrown := h.toGrown.addText cs
  unfold Builder.addText at hgrown ⊢
  split
  · exact h
  · next hcs =>
    rw [if_neg hcs] at hgrown
    split
    · next n hn =>
      rw [hn] at hgrown
      obtain ⟨r, first, hheaded⟩ := h.headed
      have hshape := lengthen_sameShape b.tree n (.ofList cs)
      exact ⟨hgrown, ⟨r, first, hheaded.congr hshape.children hshape.isElement fun m =>
        name_lengthen ..⟩, h.head, h.part,
        h.outer⟩
    · exact h.place_add _

theorem mergeAttributes (h : Begun b) (n : NodeId) (as : Attributes) :
    Begun (b.mergeAttributes n as) := by
  obtain ⟨r, first, hheaded⟩ := h.headed
  have hshape : b.tree.SameShape (b.mergeAttributes n as).tree := modifyAttributes_sameShape _
  exact ⟨h.toGrown.mergeAttributes n as,
    ⟨r, first, hheaded.congr hshape.children hshape.isElement fun m => name_modifyAttributes _⟩,
    h.head, h.part, h.outer⟩

end Begun

/-- A choice between two parts that are not listed is not listed. -/
theorem ite_not_mem {c : Prop} [Decidable c] {p q : Part} {parts : List Part} (hp : p ∉ parts)
    (hq : q ∉ parts) : (if c then p else q) ∉ parts := by
  split
  · exact hp
  · exact hq

/-- With the head known, reading goes on after it, whatever part the open elements say. -/
theorem partOf_late (hhead : b.headElement.isSome = true) (ns : List NodeId) :
    b.partOf ns ∉ Part.textOnly :: dropsBlanks := by
  induction ns with
  | nil =>
    show Part.body ∉ _
    decide
  | cons n ns ih =>
    unfold partOf
    dsimp only
    rw [hhead, if_pos rfl]
    repeat' apply ite_not_mem
    all_goals first | exact ih | decide

/-- The parts that are entered later keep blanks and read markup. -/
theorem late_of_entered {part : Part} (hpart : part ∉ Part.textOnly :: dropsBlanks) :
    part ∉ dropsBlanks ∧ part ≠ .textOnly :=
  ⟨fun hp => hpart (List.mem_cons_of_mem _ hp), fun hp => hpart (hp ▸ List.mem_cons_self)⟩

/-- What is done from the head on leaves the head where it is. -/
theorem begun_closed : Closed Begun where
  addBelow s h hn := by
    refine h.addBelow ?_ _
    rcases List.mem_cons.mp hn with rfl | hn
    · exact h.sound.root_top.lt
    · exact h.open_lt _ hn
  addComment s h := h.place_add _
  addText cs h := h.addText cs
  openElement name as h := h.openElement name as
  openText name as _ h := by
    have hopen := h.openElement name as
    exact ⟨grown_closed.openText name as _ h.toGrown, hopen.headed, hopen.head,
      (by decide : Part.textOnly ∉ dropsBlanks),
      fun _ => h.part⟩
  mergeAttributes n as h := h.mergeAttributes n as
  fewer h hns := h.of_tree_eq (grown_closed.fewer h.toGrown hns) rfl rfl rfl rfl
  again h hn := h.of_tree_eq (grown_closed.again h.toGrown hn) rfl rfl rfl rfl
  enter h hpart :=
    have hlate := late_of_entered hpart
    ⟨grown_closed.enter h.toGrown hpart, h.headed, h.head, hlate.1, fun he => absurd he hlate.2⟩
  reenter h :=
    have hlate := late_of_entered (partOf_late h.head _)
    ⟨grown_closed.reenter h.toGrown, h.headed, h.head, hlate.1, fun he => absurd he hlate.2⟩
  leaveText h htext :=
    ⟨grown_closed.leaveText h.toGrown htext, h.headed, h.head, h.outer htext,
      fun _ => h.outer htext⟩
  form f h := h.of_tree_eq (grown_closed.form f h.toGrown) rfl rfl rfl rfl
  newline d h := h.of_tree_eq (grown_closed.newline d h.toGrown) rfl rfl rfl rfl
  manner m h := h.of_tree_eq (grown_closed.manner m h.toGrown) rfl rfl rfl rfl
  aside a h := h.of_tree_eq (grown_closed.aside a h.toGrown) rfl rfl rfl rfl

/-! ## Before the head -/

/-- A construction without element. -/
structure Blank (b : Builder) : Prop extends Grown b where
  closed : b.openElements = []
  inside : b.aside = false
  bare : b.tree.elementsOf documentId = []

/-- A construction whose outermost element was opened, with nothing in it but comments. -/
structure Opened (b : Builder) (r : NodeId) : Prop extends Grown b where
  only : b.openElements = [r]
  inside : b.aside = false
  outermost : (b.tree.elementsOf documentId).head? = some r
  html : b.tree.name r = "html"
  bare : b.tree.elementsOf r = []

/-- A construction is in one of three stages: without element, with the outermost one, or with a
head. -/
def Fronted (b : Builder) : Prop :=
  ((b.part = .start ∨ b.part = .beforeHtml) ∧ Blank b) ∨
    (b.part = .beforeHead ∧ ∃ r, Opened b r) ∨ Begun b

/-- A new node that is no element is not one of the elements of any old node. -/
theorem Grown.elementsOf_addBelow (h : Grown b) {p q : NodeId} (hp : p < b.tree.nodes.size)
    (hq : q < b.tree.nodes.size) (hs : ∀ name as, s ≠ .element name as) :
    (b.addBelow p s).tree.elementsOf q = b.tree.elementsOf q := by
  refine (h.sound.toCoherent.elementsOf_hang_end hp hq).trans ?_
  split
  · rw [List.filter_cons_of_neg, List.filter_nil, List.append_nil]
    rw [isElement_hang_add hp]
    cases s with
    | element name as => exact absurd rfl (hs name as)
    | _ => exact Bool.false_ne_true
  · rw [List.append_nil]

/-- A new element is the first one of a node without elements. -/
theorem Grown.first_addBelow (h : Grown b) {p : NodeId} (hp : p < b.tree.nodes.size)
    (hbare : b.tree.elementsOf p = []) (name : String) (as : Attributes) :
    ((b.addBelow p (.element name as)).tree.elementsOf p).head? =
      some b.tree.nodes.size ∧
      (b.addBelow p (.element name as)).tree.name b.tree.nodes.size = name ∧
      (b.addBelow p (.element name as)).tree.elementsOf b.tree.nodes.size = [] := by
  have hnode : (b.addBelow p (.element name as)).tree.node b.tree.nodes.size =
      ⟨.element name as, [], .below p, false⟩ := by
    refine (node_hang_add _ _ hp).trans ?_
    rw [if_pos rfl]
  refine ⟨?_, ?_, ?_⟩
  · rw [show (b.addBelow p (.element name as)).tree.elementsOf p = _ from
      h.sound.toCoherent.elementsOf_hang_end hp hp, hbare, if_pos rfl, List.filter_cons_of_pos]
    · rfl
    · exact isElement_hang_add hp
  · unfold Tree.name
    rw [hnode]
  · unfold elementsOf
    rw [hnode]
    rfl

namespace Blank

/-- Before the outermost element there are comments alone. -/
theorem note (h : Blank b) (hs : ∀ name as, s ≠ .element name as) :
    Blank (b.addBelow documentId s) :=
  have hlt := h.sound.root_top.lt
  ⟨h.toGrown.addBelow hlt s, h.closed, h.inside,
    (h.toGrown.elementsOf_addBelow hlt hlt hs).trans h.bare⟩

theorem layout (h : Blank b) (part : Part) : Blank { b with oldLayout := true, part := part } :=
  ⟨h.toGrown.layout part, h.closed, h.inside, h.bare⟩

/-- The outermost element is opened after them. -/
theorem openHtml (h : Blank b) (as : Attributes) : Opened (b.openHtml as) b.tree.nodes.size := by
  have hgrown := h.toGrown.openHtml as
  have hcurrent : b.current = documentId := by
    unfold current
    rw [h.closed]
    rfl
  obtain ⟨hfirst, hname, hbare⟩ := h.toGrown.first_addBelow h.sound.root_top.lt h.bare "html" as
  unfold Builder.openHtml at hgrown ⊢
  rw [openElement_of_not_aside h.inside, hcurrent] at hgrown ⊢
  exact ⟨hgrown, congrArg _ h.closed, h.inside, hfirst, hname, hbare⟩

/-- The rule at the start leaves the document blank. -/
theorem atStart (h : Blank b) (hpart : b.part = .start) (l : Lexeme) :
    (b.atStart l).All Fronted := by
  unfold Builder.atStart
  split
  · exact .inl ⟨.inl hpart, h.note nofun⟩
  · next name _ =>
    have hnote := h.note (s := .doctype name) nofun
    exact .inl ⟨.inr rfl, ⟨hnote.toGrown.of_subset rfl (List.Subset.refl _) rfl, hnote.closed,
      hnote.inside, hnote.bare⟩⟩
  · exact .ite (.inl ⟨.inl hpart, h⟩) (.inl ⟨.inr rfl, h.layout _⟩)
  · exact .inl ⟨.inr rfl, h.layout _⟩

/-- The rule before the outermost element opens it or leaves the document blank. -/
theorem beforeHtml (h : Blank b) (hpart : b.part = .beforeHtml) (l : Lexeme) :
    (b.beforeHtml l).All Fronted := by
  have hdone : Fronted b := .inl ⟨.inr hpart, h⟩
  have hopen : ∀ as, Fronted (b.openHtml as) := fun as => .inr (.inl ⟨rfl, _, h.openHtml as⟩)
  unfold Builder.beforeHtml
  split
  · exact .inl ⟨.inr hpart, h.note nofun⟩
  · exact hdone
  · exact .ite hdone (hopen _)
  · exact hopen _
  · exact .ite (hopen _) hdone
  · exact hopen _

end Blank

namespace Opened

variable (h : Opened b r)
include h

/-- While nothing else is open, the outermost element is the innermost open one. -/
theorem current_eq : b.current = r := by
  unfold current
  rw [h.only]
  rfl

theorem lt : r < b.tree.nodes.size := h.open_lt r (h.only ▸ List.mem_singleton_self r)

/-- Comments may come before the head. -/
theorem addComment (text : String) : Opened (b.addComment text) r := by
  have hgrown := h.toGrown.addComment text
  rw [addComment_of_not_aside h.inside, h.current_eq] at hgrown ⊢
  have helements : ∀ q < b.tree.nodes.size, (b.addBelow r (.comment text)).tree.elementsOf q =
      b.tree.elementsOf q :=
    fun q hq => h.toGrown.elementsOf_addBelow h.lt hq nofun
  exact ⟨hgrown, h.only, h.inside, helements _ h.sound.root_top.lt ▸ h.outermost,
    (name_congr (content_hang_add _ h.lt h.lt)).trans h.html, helements r h.lt ▸ h.bare⟩

theorem mergeAttributes (n : NodeId) (as : Attributes) : Opened (b.mergeAttributes n as) r := by
  have hshape : b.tree.SameShape (b.mergeAttributes n as).tree := modifyAttributes_sameShape _
  have helements :
      ∀ q, (b.mergeAttributes n as).tree.elementsOf q = b.tree.elementsOf q := fun q => by
    unfold elementsOf
    rw [hshape.children, funext hshape.isElement]
  exact ⟨h.toGrown.mergeAttributes n as, h.only, h.inside, helements _ ▸ h.outermost,
    (name_modifyAttributes _).trans h.html, helements _ ▸ h.bare⟩

/-- The head is opened as the first element below the outermost one. -/
theorem openHead (as : Attributes) : Begun (b.openHead as) := by
  have hgrown := h.toGrown.openHead as
  obtain ⟨hfirst, hname, -⟩ := h.toGrown.first_addBelow h.lt h.bare "head" as
  have houtermost :=
    h.sound.toCoherent.first_hang_add (s := .element "head" as) h.lt (.inl rfl) h.outermost
    (h.html ▸ by decide)
  have hhtml :=
    (name_congr (content_hang_add (s := .element "head" as) (· ++ [b.tree.nodes.size]) h.lt
      h.lt)).trans h.html
  unfold Builder.openHead at hgrown ⊢
  rw [openElement_of_not_aside h.inside, h.current_eq] at hgrown ⊢
  exact ⟨hgrown, ⟨r, _, houtermost, hhtml, hfirst, hname⟩, rfl,
    (by decide : Part.head ∉ dropsBlanks), nofun⟩

/-- The rule before the head opens it or adds comments. -/
theorem beforeHead (hpart : b.part = .beforeHead) (l : Lexeme) : (b.beforeHead l).All Fronted := by
  have hdone : Fronted b := .inr (.inl ⟨hpart, r, h⟩)
  have hopen : ∀ as, Fronted (b.openHead as) := fun as => .inr (.inr (h.openHead as))
  unfold Builder.beforeHead
  split
  · next text =>
    have hsame : (b.addComment text).part = b.part := by
      rw [addComment_of_not_aside h.inside]
      rfl
    exact .inr (.inl ⟨hsame.trans hpart, r, h.addComment text⟩)
  · exact hdone
  · exact .ite hdone (hopen _)
  · exact .inr (.inl ⟨hpart, r, h.mergeAttributes ..⟩)
  · exact hopen _
  · exact .ite (hopen _) hdone
  · exact hopen _

end Opened

/-- Every rule leads from one of the stages to one of them. -/
theorem Fronted.rule (h : Fronted b) (l : Lexeme) : (b.rule l).All Fronted := by
  rcases h with ⟨hpart | hpart, h⟩ | ⟨hpart, r, h⟩ | h
  · unfold Builder.rule
    rw [hpart]
    exact h.atStart hpart l
  · unfold Builder.rule
    rw [hpart]
    exact h.beforeHtml hpart l
  · unfold Builder.rule
    rw [hpart]
    exact h.beforeHead hpart l
  · have hrule := begun_closed.rule h h.part l
    cases hl : b.rule l with
    | done | again =>
      rw [hl] at hrule
      exact .inr (.inr hrule)

/-- Whether a line feed is dropped makes no difference. -/
theorem Fronted.newline (h : Fronted b) (drops : Bool) :
    Fronted { b with dropsNewline := drops } := by
  rcases h with ⟨hpart, h⟩ | ⟨hpart, r, h⟩ | h
  · exact .inl ⟨hpart, grown_closed.newline drops h.toGrown, h.closed, h.inside, h.bare⟩
  · exact .inr (.inl ⟨hpart, r, grown_closed.newline drops h.toGrown, h.only, h.inside, h.outermost,
      h.html, h.bare⟩)
  · exact .inr (.inr (begun_closed.newline drops h))

/-- A text is added in no part that comes before the head. -/
theorem Fronted.addText (h : Fronted b) (cs : List Char) (hpart : b.part ∉ dropsBlanks) :
    Fronted (b.addText cs) := by
  rcases h with ⟨hb | hb, -⟩ | ⟨hb, -⟩ | h
  · exact absurd (hb ▸ by decide) hpart
  · exact absurd (hb ▸ by decide) hpart
  · exact absurd (hb ▸ by decide) hpart
  · exact .inr (.inr (h.addText cs))

/-- Reading starts with a blank document. -/
theorem fronted_empty : Fronted empty := .inl ⟨.inl rfl, grown_empty, rfl, rfl, rfl⟩

end Builder

namespace Tree

/-- **The head comes first.** The outermost element of a document that was read is named `html`; and
its first element of the name `head`, if it has one, is spelled so. -/
theorem fronted_read {html : String} {r : NodeId} (hr : (Tree.read html).root = .ok r) :
    (Tree.read html).name r = "html" ∧
      ∀ h, (Tree.read html).firstChild? r "head" = .ok (some h) →
        (Tree.read html).name h = "head" := by
  obtain ⟨b, hb, hread⟩ : ∃ b : Builder, b.Fronted ∧ Tree.read html = b.tree :=
    ⟨_, Builder.read_keeps (fun l h => h.rule l) (fun d h => h.newline d) (fun cs h hpart =>
      h.addText cs hpart) _ _
      Builder.fronted_empty, rfl⟩
  rw [hread] at hr ⊢
  have hhead? := root_eq_ok.mp hr
  rcases hb with ⟨-, h⟩ | ⟨-, r', h⟩ | h
  · rw [h.bare] at hhead?
    cases hhead?
  · obtain rfl := Option.some.inj (h.outermost.symm.trans hhead?)
    refine ⟨h.html, fun n hn => ?_⟩
    have hfound := firstChild?_eq_ok hn
    rw [h.bare] at hfound
    cases hfound
  · obtain ⟨r', first, hh⟩ := h.headed
    obtain rfl := Option.some.inj (hh.outermost.symm.trans hhead?)
    refine ⟨hh.html, fun n hn => ?_⟩
    obtain ⟨ns, hns⟩ := List.head?_eq_some_iff.mp hh.first
    have hnamed : b.tree.isNamed first "head" = true := by
      unfold isNamed localName
      rw [hh.head]
      cbv
    have hfound := firstChild?_eq_ok hn
    rw [hns, List.find?_cons, hnamed] at hfound
    exact Option.some.inj hfound ▸ hh.head

end Tree
end LiveSpec.Markup
