import LiveSpec.Proofs.Tree.Search
import LiveSpec.Proofs.Tree.Staleness

/-!
# The nodes below a node, one by one

A tree is a `Tree.Forest` if its lists of children alone make it one: each node is listed once at
most, and never below itself. It does not matter where nodes hang as far as they know, or whether
they are live. Every tree without cycles that a document came to is one, whatever it was on the way
(`Course.forest`).

`Tree.preorder` lists the nodes below a node by recursion, each one before what lies below it, and
`Tree.reading` lists those that the text comes by, which does not look below a node that is no
element. In a forest both go down as far as there are nodes (`Forest.visits_eq`). The first one then
lists all nodes below in document order, each once, and the second one is a part of it.
-/

namespace LiveSpec.Markup.Tree

variable {t t' : Tree} {a b c p q n m x y : NodeId} {f g : Nat}

/-- A tree in which each node is listed once at most, and not below itself. -/
structure Forest (t : Tree) : Prop where
  child_lt {p c : NodeId} : c ∈ (t.node p).children → c < t.nodes.size
  parent_unique {p q c : NodeId} : c ∈ (t.node p).children → c ∈ (t.node q).children → p = q
  nodup (p : NodeId) : (t.node p).children.Nodup
  acyclic {p c : NodeId} : c ∈ (t.node p).children → ¬ t.Under c p

/-! ## Lists without repetitions -/

/-- A wired tree in which no list has a node twice. -/
structure Knit (t : Tree) : Prop extends t.Wired where
  nodup (p : NodeId) : (t.node p).children.Nodup

namespace Knit

/-- A wired tree that lists fewer children than a knit one is knit. -/
theorem of_sublist (h : t.Knit) (hw : t'.Wired)
    (hsub : ∀ p, (t'.node p).children.Sublist (t.node p).children) :
    t'.Knit := ⟨hw, fun p => (hsub p).nodup (h.nodup p)⟩

/-- A wired tree with the same children as a knit one is knit. -/
theorem of_children (h : t.Knit) (hw : t'.Wired)
    (hsame : ∀ p, (t'.node p).children = (t.node p).children) : t'.Knit :=
  h.of_sublist hw fun p => by rw [hsame]

section

variable (h : t.Knit)
include h

/-- A new node keeps the tree knit. -/
theorem add (s : Content) : (t.add s).2.Knit :=
  h.of_children (h.toWired.add s) fun _ => children_add ..

/-- So does hanging a top node: it was in no list before. -/
theorem hang {put : List NodeId → List NodeId} (hc : t.IsTop c) (hp : t.Alive p)
    (hput : (put (t.node p).children).Perm (c :: (t.node p).children)) : (t.hang c p put).Knit := by
  refine ⟨h.toWired.hang hc hp hput, fun m => ?_⟩
  rw [children_hang put hp.lt]
  split
  · next hm =>
    subst hm
    exact hput.nodup_iff.mpr (List.nodup_cons.mpr ⟨h.toWired.toHung.unlisted hc, h.nodup p⟩)
  · exact h.nodup m

/-- So does attaching a node, which leaves its old list first. -/
theorem attach {put : List NodeId → List NodeId} (hc : t.Alive c) (hp : t.Alive p)
    (hput : ∀ cs, (put cs).Perm (c :: cs)) : ((t.detach c).hang c p put).Knit := by
  have hdetach : (t.detach c).Knit := h.of_sublist (h.toWired.detach hc) fun p => by
    rw [h.toWired.node_detach hc]
    exact List.filter_sublist
  exact hdetach.hang (h.toWired.isTop_detach hc) (h.toWired.alive_detach hc hp) (hput _)

theorem appendText (hn : t.Alive n) (s : String) : (t.appendText n s).Knit := by
  have hn' : (t.add (.text s)).2.Alive n :=
    ⟨by rw [size_add]; exact Nat.lt_succ_of_lt hn.lt, by
      rw [node_add_of_lt _ hn.lt]; exact hn.alive⟩
  exact (h.add _).hang ((isTop_add_iff _).mpr (.inr rfl)) hn' (List.perm_append_singleton ..)

theorem setText (hn : t.Alive n) (s : String) : (t.setText n s).Knit := by
  have hcut : (t.cutChildren n).Knit := h.of_sublist h.toWired.cutChildren fun p => by
    rw [node_cutChildren]
    dsimp only
    split
    · exact List.nil_sublist _
    · exact .refl _
  have hn' : (t.cutChildren n).Alive n :=
    ⟨size_cutChildren.symm ▸ hn.lt, by rw [node_cutChildren]; exact hn.alive⟩
  unfold Tree.setText
  dsimp only
  split
  · exact hcut
  · exact hcut.appendText hn' s

/-- So does removing a node. -/
theorem remove (hok : t.remove n = .ok t') : t'.Knit := by
  refine h.of_sublist (h.toWired.remove hok) fun p => ?_
  obtain ⟨-, -, hnode⟩ := remove_eq hok
  rw [hnode]
  dsimp only
  split
  · exact List.filter_sublist
  · exact .refl _

/-- So does moving all children of a node to another. -/
theorem move (hd : t.Alive p) (hne : n ≠ p) (hmoved : Moved n p t t') : t'.Knit := by
  refine ⟨h.toWired.move hd hne hmoved, fun m => ?_⟩
  rw [hmoved.node]
  dsimp only
  split
  · exact List.nodup_nil
  · split
    · refine List.nodup_append.mpr ⟨h.nodup p, h.nodup n, fun x hx y hy hxy => ?_⟩
      exact hne (h.toWired.toHung.parent_unique hy (hxy ▸ hx))
    · exact h.nodup m

/-- Every proper edit keeps the tree knit. -/
theorem edit {e : Edit} (he : e.Proper t) (hok : e.apply t = .ok t') : t'.Knit := by
  cases e with
  | newElement name => exact Except.ok.inj hok ▸ h.add _
  | newElementWithText name s =>
    have hnew : (t.newElement name).2.Alive t.nodes.size :=
      ⟨by rw [newElement, size_add]; exact Nat.lt_succ_self _, by
        rw [newElement, node_add, if_pos rfl]; rfl⟩
    exact Except.ok.inj hok ▸ (h.add _).appendText hnew s
  | appendText n s => exact Except.ok.inj hok ▸ h.appendText he s
  | setText n s => exact Except.ok.inj hok ▸ h.setText he s
  | appendChild p c =>
    obtain ⟨-, rfl⟩ := appendChild_eq_ok hok
    exact h.attach he.2 he.1 fun _ => List.perm_append_singleton ..
  | prependChild p c =>
    obtain ⟨-, rfl⟩ := prependChild_eq_ok hok
    exact h.attach he.2 he.1 fun _ => .refl _
  | insertAfter n c =>
    obtain ⟨-, p, hup, rfl⟩ := insertAfter_eq_ok hok
    exact h.attach he.2 (h.toWired.alive_above hup) (perm_putAfter n c)
  | remove n => exact h.remove hok
  | moveChildren n p =>
    rcases h.toWired.toHung.moveChildren_eq_ok he.1.lt he.2.lt hok with rfl | ⟨hne, hmoved⟩
    · exact h
    · exact h.move he.2 hne hmoved

theorem destroy : (t.destroy n).Knit := h.of_sublist h.toWired.destroy fun p => by
  rw [node_destroy]
  dsimp only
  split
  · exact List.nil_sublist _
  · exact .refl _

/-- Every proper event does: an edit, or a release. -/
theorem event {e : Event} (he : e.Proper t) (hok : e.apply t = .ok t') : t'.Knit := by
  cases e with
  | edit e => exact h.edit he hok
  | attributes n f =>
    refine h.of_children (h.toWired.event he hok) fun p => ?_
    exact Except.ok.inj hok ▸ (modifyAttributes_sameShape f).children p
  | release held => exact Except.ok.inj hok ▸ releaseWithin_keeps (fun h => h.destroy) h

/-- From a node below another one the way up leads to that one. -/
theorem up_of_under (hu : t.Under a x) :
    Relation.ReflTransGen (fun c p => t.above c = .parent p) x a := by
  induction hu with
  | self => exact .refl
  | child _ hc ih => exact ih.head (h.toWired.above_of_mem hc)

/-- If no way up comes back, then no way down does. -/
theorem forest (ht : t.Acyclic) : t.Forest where
  child_lt := h.child_lt
  parent_unique := h.toWired.toHung.parent_unique
  nodup := h.nodup
  acyclic hc hu := ht _ (.head' (h.toWired.above_of_mem hc) (h.up_of_under hu))

end

end Knit

/-- A whole course of proper events leads from a knit tree to a knit one. -/
theorem Course.knit {u : Tree} {cs : List (Tree × Event)} (h : Course t cs u) (ht : t.Knit) :
    u.Knit := by
  induction h with
  | start => exact ht
  | event _ he hu ih => exact ih.event he hu

/-- **Each tree without cycles that a document came to is a forest.** -/
theorem Course.forest {html : String} {cs : List (Tree × Event)} (h : Course (Tree.read html) cs t)
    (ht : t.Acyclic) :
    t.Forest := (h.knit ⟨(parsed_read html).wired, (parsed_read html).linked.nodup⟩).forest ht

/-! ## Branches -/

/-- What lies under a node is the node itself, or lies under one of its children. -/
theorem under_iff : t.Under a x ↔ x = a ∨ ∃ c ∈ (t.node a).children, t.Under c x := by
  refine ⟨Under.eq_or_below, ?_⟩
  rintro (rfl | ⟨c, hc, hu⟩)
  · exact .self
  · exact (Under.of_mem_children hc).trans hu

namespace Forest

variable (ht : t.Forest)
include ht

/-- What a child lies under: itself, or what its parent lies under. -/
theorem under_child (h : t.Under a c) (hc : c ∈ (t.node p).children) : a = c ∨ t.Under a p := by
  cases h with
  | self => exact .inl rfl
  | child hq hc' => exact .inr (ht.parent_unique hc' hc ▸ hq)

/-- Two branches of a node that the same node lies in are one. -/
theorem branch_unique (ha : a ∈ (t.node p).children) (hb : b ∈ (t.node p).children)
    (hax : t.Under a x) (hbx : t.Under b x) : a = b := by
  induction hax with
  | self => exact ((ht.under_child hbx ha).resolve_right (ht.acyclic hb)).symm
  | child hq hx ih =>
    rcases ht.under_child hbx hx with rfl | hbq
    · -- the other branch starts below the first one
      exact absurd (ht.parent_unique hx hb ▸ hq) (ht.acyclic ha)
    · exact ih hbq

open Classical in
/-- There is less below a child than below its parent. -/
theorem card_child_lt (hc : c ∈ (t.node p).children) :
    (t.branchNodes (t.node c).children).card < (t.branchNodes (t.node p).children).card := by
  refine Finset.card_lt_card ⟨fun x hx => ?_, fun hsub => ?_⟩
  · obtain ⟨hlt, d, hd, hu⟩ := mem_branchNodes.mp hx
    exact mem_branchNodes.mpr ⟨hlt, c, hc, (Under.of_mem_children hd).trans hu⟩
  · obtain ⟨-, d, hd, hu⟩ :=
      mem_branchNodes.mp (hsub (mem_branchNodes.mpr ⟨ht.child_lt hc, c, hc, .self⟩))
    exact ht.acyclic hd hu

open Classical in
/-- What holds of a node if it holds of its children holds of every node. -/
theorem branch_induction {P : NodeId → Prop} (h : ∀ n, (∀ c ∈ (t.node n).children, P c) → P n)
    (n : NodeId) : P n := by
  induction hk : (t.branchNodes (t.node n).children).card using Nat.strongRecOn generalizing n with
  | _ k ih =>
    subst hk
    exact h n fun c hc => ih _ (ht.card_child_lt hc) c rfl

end Forest

/-! ## Listing what is below -/

/-- The nodes below a node, each before those below it, at most `fuel` levels deep; nothing below a
node that is not entered. -/
def visits (t : Tree) (enters : NodeId → Bool) : Nat → NodeId → List NodeId
  | 0, _ => []
  | fuel + 1, n =>
    (t.node n).children.flatMap fun c => c :: if enters c then visits t enters fuel c else []

/-- The nodes below a node, each before those below it. -/
def preorder (t : Tree) (n : NodeId) : List NodeId := t.below (t.nodes.size + 1) n

/-- The nodes below a node that its text comes by: it enters elements alone. -/
def reading (t : Tree) (n : NodeId) : List NodeId := t.visits t.isElement (t.nodes.size + 1) n

/-- The text of a node itself. -/
def ownText (t : Tree) (n : NodeId) : String :=
  match (t.node n).content with
  | .text s => s
  | _ => ""

theorem below_eq_visits (t : Tree) (f : Nat) (n : NodeId) :
    t.below f n = t.visits (fun _ => true) f n := by
  induction f generalizing n with
  | zero => rfl
  | succ f ih => simp only [below, visits, ih, if_true]

/-- To enter less is to list a part, in the same order. -/
theorem visits_sublist (t : Tree) (enters : NodeId → Bool) (f : Nat) (n : NodeId) :
    (t.visits enters f n).Sublist (t.below f n) := by
  induction f generalizing n with
  | zero => exact .refl _
  | succ f ih =>
    refine List.Sublist.flatMap_right _ fun c _ => .cons_cons c ?_
    split
    · exact ih c
    · exact List.nil_sublist _

/-- **The text of a node is that of the nodes that it comes by**, in that order. -/
theorem textWithin_eq (t : Tree) (f : Nat) (n : NodeId) :
    t.textWithin f n = String.join ((t.visits t.isElement f n).map t.ownText) := by
  have hjoin : ∀ (xs : List NodeId) (g : NodeId → List String),
      String.join (xs.flatMap g) = String.join (xs.map fun x => String.join (g x)) := fun xs g => by
    induction xs with
    | nil => rfl
    | cons x xs ih => simp [ih]
  induction f generalizing n with
  | zero => rfl
  | succ f ih =>
    unfold textWithin visits
    rw [List.map_flatMap, hjoin]
    refine congrArg String.join (List.map_congr_left fun c _ => ?_)
    cases hc : (t.node c).content with
    | element name as => simp [ownText, isElement, hc, ih]
    | _ => simp [ownText, isElement, hc]

/-- The text of a node is made of the own texts of what a reader meets below it, in order. -/
theorem text_eq (t : Tree) (n : NodeId) : t.text n = String.join ((t.reading n).map t.ownText) :=
  t.textWithin_eq _ n

namespace Forest

variable (ht : t.Forest)
include ht

open Classical in
/-- A node with no branch below it has no children. -/
theorem children_eq_nil (h : (t.branchNodes (t.node n).children).card = 0) :
    (t.node n).children = [] :=
  List.eq_nil_iff_forall_not_mem.mpr fun _ hc => Nat.not_lt_zero _ (h ▸ ht.card_child_lt hc)

open Classical in
/-- More fuel than there are nodes below changes nothing. -/
theorem visits_fuel (enters : NodeId → Bool) (hf : (t.branchNodes (t.node n).children).card ≤ f)
    (hg : (t.branchNodes (t.node n).children).card ≤ g) :
    t.visits enters f n = t.visits enters g n := by
  induction f generalizing n g with
  | zero =>
    have hnil := ht.children_eq_nil (Nat.le_zero.mp hf)
    cases g <;> simp [visits, hnil]
  | succ f ih =>
    cases g with
    | zero =>
      have hnil := ht.children_eq_nil (Nat.le_zero.mp hg)
      simp [visits, hnil]
    | succ g =>
      unfold visits
      refine List.flatMap_congr fun c hc => ?_
      have hfewer := ht.card_child_lt hc
      rw [ih (by omega) (show _ ≤ g by omega)]

/-- A visit with rounds enough is each child in turn, followed by the visit of the child if it is
entered. -/
theorem visits_eq (enters : NodeId → Bool) (n : NodeId) : t.visits enters (t.nodes.size + 1) n =
    (t.node n).children.flatMap fun c => c :: if enters c then
      t.visits enters (t.nodes.size + 1) c else [] := by
  rw [visits]
  refine List.flatMap_congr fun c hc => ?_
  have hfewer := Nat.lt_of_lt_of_le (ht.card_child_lt hc) card_branchNodes_le
  rw [ht.visits_fuel enters (Nat.le_of_lt hfewer) (Nat.le_succ_of_le (Nat.le_of_lt hfewer))]

/-- **Below a node are its children, each with what is below it.** -/
theorem preorder_eq (n : NodeId) : t.preorder n = (t.node n).children.flatMap fun c =>
    c :: t.preorder c := by
  unfold preorder
  simp only [below_eq_visits]
  rw [ht.visits_eq]
  simp

theorem reading_eq (n : NodeId) : t.reading n =
    (t.node n).children.flatMap fun c => c :: if t.isElement c then t.reading c else [] :=
  ht.visits_eq t.isElement n

/-! ## What is listed, and in which order -/

/-- Preorder lists what lies under the node's children. -/
theorem mem_preorder : x ∈ t.preorder n ↔ ∃ c ∈ (t.node n).children, t.Under c x := by
  induction n using ht.branch_induction with
  | h n ih =>
    rw [ht.preorder_eq, List.mem_flatMap]
    refine exists_congr fun c => and_congr_right fun hc => ?_
    rw [List.mem_cons, ih c hc, under_iff]

/-- A node and what is below it. -/
theorem mem_cons_preorder : x ∈ n :: t.preorder n ↔ t.Under n x := by
  rw [List.mem_cons, ht.mem_preorder, under_iff]

/-- All that lies below a node is listed, and the node is not. -/
theorem mem_preorder_iff : x ∈ t.preorder n ↔ t.Under n x ∧ x ≠ n := by
  rw [← ht.mem_cons_preorder, List.mem_cons]
  refine ⟨fun h => ⟨.inr h, ?_⟩, fun h => h.1.resolve_left h.2⟩
  rintro rfl
  obtain ⟨c, hc, hu⟩ := ht.mem_preorder.mp h
  exact ht.acyclic hc hu

/-- **The nodes are listed in document order.** -/
theorem preorder_sorted (n : NodeId) : (t.preorder n).Pairwise t.Precedes := by
  induction n using ht.branch_induction with
  | h n ih =>
    rw [ht.preorder_eq]
    refine List.pairwise_flatMap.mpr ⟨fun c hc => List.pairwise_cons.mpr ⟨fun y hy => ?_,
      ih c hc⟩, ?_⟩
    · obtain ⟨d, hd, hu⟩ := ht.mem_preorder.mp hy
      exact .below hd hu
    · refine List.pairwise_iff_forall_sublist.mpr fun hs x hx y hy => ?_
      exact .beside hs (ht.mem_cons_preorder.mp hx) (ht.mem_cons_preorder.mp hy)

/-- **Each node is listed once.** -/
theorem preorder_nodup (n : NodeId) : (t.preorder n).Nodup := by
  induction n using ht.branch_induction with
  | h n ih =>
    rw [ht.preorder_eq]
    refine List.nodup_flatMap.mpr ⟨fun c hc => List.nodup_cons.mpr ⟨fun hmem => ?_, ih c hc⟩, ?_⟩
    · exact (ht.mem_preorder_iff.mp hmem).2 rfl
    · refine (ht.nodup n).imp_of_mem fun ha hb hne x hax hbx => hne ?_
      exact ht.branch_unique ha hb (ht.mem_cons_preorder.mp hax) (ht.mem_cons_preorder.mp hbx)

/-- The text comes by the children of what is reached through elements alone. -/
theorem mem_reading : x ∈ t.reading n ↔ ∃ p, t.Reaches n p ∧ x ∈ (t.node p).children := by
  induction n using ht.branch_induction with
  | h n ih =>
    rw [ht.reading_eq, List.mem_flatMap]
    constructor
    · rintro ⟨c, hc, hx⟩
      rcases List.mem_cons.mp hx with rfl | hx
      · exact ⟨n, .self, hc⟩
      · split at hx
        · next helement =>
          obtain ⟨p, hp, hx⟩ := (ih c hc).mp hx
          exact ⟨p, .of_child (mem_elementsOf.mpr ⟨hc, helement⟩) hp, hx⟩
        · cases hx
    · rintro ⟨p, hp, hx⟩
      rcases hp.eq_or_below with rfl | ⟨c, hc, hp⟩
      · exact ⟨x, hx, List.mem_cons_self⟩
      · obtain ⟨hc, helement⟩ := mem_elementsOf.mp hc
        refine ⟨c, hc, List.mem_cons_of_mem c ?_⟩
        rw [if_pos helement]
        exact (ih c hc).mpr ⟨p, hp, hx⟩

omit ht in
/-- A reader meets nodes in preorder, without what lies below those that are no elements. -/
theorem reading_sublist (t : Tree) (n : NodeId) : (t.reading n).Sublist (t.preorder n) :=
  visits_sublist ..

/-- **The text of an element that the text comes by stands in it in one piece.** -/
theorem reading_infix (hx : t.isElement x = true) (h : x ∈ t.reading n) :
    x :: t.reading x <:+: t.reading n := by
  induction n using ht.branch_induction with
  | h n ih =>
    rw [ht.reading_eq] at h
    obtain ⟨c, hc, hxc⟩ := List.mem_flatMap.mp h
    have hbranch : c :: (if t.isElement c then t.reading c else []) <:+: t.reading n := by
      rw [ht.reading_eq n, List.flatMap_def]
      exact List.infix_of_mem_flatten (List.mem_map_of_mem hc)
    rcases List.mem_cons.mp hxc with rfl | hxc
    · rwa [if_pos hx] at hbranch
    · split at hxc
      · next helement =>
        rw [if_pos helement] at hbranch
        exact ((ih c hc hxc).trans (List.suffix_cons c _).isInfix).trans hbranch
      · cases hxc

/-- Where elements alone have children, the text comes by all that is below. -/
theorem reading_eq_preorder (h : ∀ x ∈ t.preorder n, t.isElement x = false →
    (t.node x).children = []) :
    t.reading n = t.preorder n := by
  induction n using ht.branch_induction with
  | h n ih =>
    rw [ht.reading_eq, ht.preorder_eq]
    refine List.flatMap_congr fun c hc => congrArg (c :: ·) ?_
    have hlisted : ∀ x ∈ c :: t.preorder c, x ∈ t.preorder n := fun x hx =>
      ht.mem_preorder.mpr ⟨c, hc, ht.mem_cons_preorder.mp hx⟩
    split
    · exact ih c hc fun x hx => h x (hlisted x (List.mem_cons_of_mem c hx))
    · next helement =>
      rw [ht.preorder_eq, h c (hlisted c List.mem_cons_self)
        (Bool.eq_false_of_not_eq_true helement)]
      rfl

end Forest

end LiveSpec.Markup.Tree
