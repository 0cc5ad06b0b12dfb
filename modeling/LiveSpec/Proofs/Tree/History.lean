import LiveSpec.Proofs.Results
import LiveSpec.Proofs.Tree.Hung
import LiveSpec.Proofs.Tree.Parsed

/-!
# Histories of a tree

An `Edit` is one of the nine operations on the structure of a tree. `Edit.Allowed` rules out what
would make a node an ancestor of itself: to attach a node under or after itself or what lies below
it, and to hand the children of a node over to one that lies below it. A tree whose links and lists
of children agree is edited into another such tree (`Linked.edit`), and so are all trees of its
history (`Becomes.linked`), also when nodes are let go in between.

Attaching puts the node where it was asked for, and all other nodes keep their order: a list of
children loses the node, or stays as it was (`Attached`).
-/

namespace LiveSpec.Markup.Tree

/-- An edit of the structure of a tree. -/
inductive Edit where
  | newElement (name : String)
  | newElementWithText (name text : String)
  | appendText (n : NodeId) (text : String)
  | setText (n : NodeId) (text : String)
  | appendChild (parent child : NodeId)
  | prependChild (parent child : NodeId)
  | insertAfter (n sibling : NodeId)
  | remove (n : NodeId)
  | moveChildren (source target : NodeId)
deriving DecidableEq, Repr

variable {t t' u u' : Tree} {gone gone' : NodeId → Prop} {n m p q x c d : NodeId}

namespace Edit

/-- The tree after an edit, if it is not refused. -/
def apply (t : Tree) : Edit → Except TreeError Tree
  | newElement name => .ok (t.newElement name).2
  | newElementWithText name text => .ok (t.newElementWithText name text).2
  | appendText n text => .ok (t.appendText n text)
  | setText n text => .ok (t.setText n text)
  | appendChild parent child => t.appendChild parent child
  | prependChild parent child => t.prependChild parent child
  | insertAfter n sibling => t.insertAfter n sibling
  | remove n => t.remove n
  | moveChildren source target => t.moveChildren source target

/-- The edits of nodes that are present, in which no node comes under itself. -/
def Allowed (t : Tree) (gone : NodeId → Prop) : Edit → Prop
  | newElement _ | newElementWithText _ _ => True
  | appendText n _ | setText n _ | remove n => t.Present gone n
  | appendChild n child | prependChild n child | insertAfter n child =>
    t.Present gone n ∧ t.Present gone child ∧ ¬ t.Under child n
  | moveChildren source target =>
    t.Present gone source ∧ t.Present gone target ∧ (t.Under source target → target = source)

end Edit

/-- The trees that a tree comes to by edits, with the nodes that are gone by then. Nodes can be let
go at any time: they are gone from then on, with all that lay below them. -/
inductive Becomes (t : Tree) (gone : NodeId → Prop) : Tree → (NodeId → Prop) → Prop
  | start : Becomes t gone t gone
  | edit {u u' : Tree} {gone' : NodeId → Prop} {e : Edit} (h : Becomes t gone u gone')
    (he : e.Allowed u gone')
    (hu : e.apply u = .ok u') : Becomes t gone u' gone'
  | release {u : Tree} {gone' : NodeId → Prop} (h : Becomes t gone u gone') (held : NodeId → Bool) :
    Becomes t gone (u.release held) fun n => gone' n ∨ u.Swept (u.release held) n

/-! ## Attaching -/

/-- A node was attached below another: the children of that one are `cs` now, and every other list
of children lost the node if it had it. -/
structure Attached (t t' : Tree) (c p : NodeId) (cs : List NodeId) : Prop where
  here : (t'.node p).children = cs
  elsewhere {q : NodeId} : q ≠ p → (t'.node q).children = (t.node q).children.filter (· != c)

namespace Linked

section

variable (h : t.Linked gone)
include h

/-- Taking a node out and hanging it in elsewhere. -/
theorem attach (hp : t.Present gone p) (hc : t.Present gone c) (hcp : ¬ t.Under c p)
    (put : List NodeId → List NodeId) (hput : ∀ cs, (put cs).Perm (c :: cs)) :
    ((t.detach c).hang c p put).Linked gone ∧
      Attached t ((t.detach c).hang c p put) c p (put ((t.node p).children.filter (· != c))) := by
  have hnode := h.node_detach hc
  have hp' : (t.detach c).Present gone p := ⟨size_detach.symm ▸ hp.lt, hp.here⟩
  have hc' : (t.detach c).Present gone c := ⟨size_detach.symm ▸ hc.lt, hc.here⟩
  refine ⟨(h.detach hc).hang hc' ?_ hp' (fun hunder => hcp (hunder.mono fun q => ?_)) (hput _), ?_,
    fun {q} hq => ?_⟩
  · rw [hnode]
    exact if_pos rfl
  · rw [hnode]
    exact List.filter_subset_self _
  · rw [children_hang put hp'.lt, if_pos rfl, hnode]
  · rw [children_hang put hp'.lt, if_neg (Ne.symm hq), hnode]

/-- The last place below the receiver. -/
theorem appendChild (hp : t.Present gone p) (hc : t.Present gone c) (hcp : ¬ t.Under c p)
    (hok : t.appendChild p c = .ok t') :
    t'.Linked gone ∧ Attached t t' c p ((t.node p).children.filter (· != c) ++ [c]) := by
  obtain ⟨-, rfl⟩ := appendChild_eq_ok hok
  exact h.attach hp hc hcp (· ++ [c]) fun _ => List.perm_append_singleton ..

theorem prependChild (hp : t.Present gone p) (hc : t.Present gone c) (hcp : ¬ t.Under c p)
    (hok : t.prependChild p c = .ok t') :
    t'.Linked gone ∧ Attached t t' c p (c :: (t.node p).children.filter (· != c)) := by
  obtain ⟨-, rfl⟩ := prependChild_eq_ok hok
  exact h.attach hp hc hcp (c :: ·) fun _ => .refl _

omit h in
theorem putAfter_append {before after : List NodeId} (hn : n ∉ before) :
    putAfter n c (before ++ n :: after) = before ++ n :: c :: after := by
  induction before with
  | nil => simp [putAfter]
  | cons b before ih =>
    rw [List.mem_cons, not_or] at hn
    rw [List.cons_append, putAfter, if_neg (Ne.symm hn.1), ih hn.2, List.cons_append]

theorem insertAfter (hn : t.Present gone n) (hc : t.Present gone c) (hcn : ¬ t.Under c n)
    (hok : t.insertAfter n c = .ok t') :
    t'.Linked gone ∧ ∃ p before after, t.above n = .parent p ∧
      (t.node p).children.filter (· != c) = before ++ n :: after ∧
      Attached t t' c p (before ++ n :: c :: after) := by
  obtain ⟨-, p, hup, rfl⟩ := insertAfter_eq_ok hok
  have hmem := (h.mem_children_iff hn.here).mpr hup
  have hcp : ¬ t.Under c p := fun hunder => hcn (hunder.child hmem)
  obtain ⟨hlinked, hattached⟩ :=
    h.attach (h.present_parent hn hmem) hc hcp (putAfter n c) (perm_putAfter n c)
  -- the receiver itself is not the node that is taken out
  have hkept : n ∈ (t.node p).children.filter (· != c) :=
    List.mem_filter.mpr ⟨hmem, bne_iff_ne.mpr fun he => hcn (he ▸ .self)⟩
  obtain ⟨before, after, hsplit⟩ := List.append_of_mem hkept
  have hnodup := (h.nodup p).filter (· != c)
  rw [hsplit] at hnodup hattached
  have hbefore : n ∉ before := fun hb =>
    (List.nodup_cons.mp (List.nodup_middle.mp hnodup)).1 (List.mem_append_left _ hb)
  rw [putAfter_append hbefore] at hattached
  exact ⟨hlinked, p, before, after, hup, hsplit, hattached⟩

/-! ## The other edits -/

theorem appendText (hn : t.Present gone n) (s : String) : (t.appendText n s).Linked gone :=
  h.hang_add (.text s) hn (· ++ [t.nodes.size]) fun _ => List.perm_append_singleton ..

theorem setText (hn : t.Present gone n) (s : String) : (t.setText n s).Linked gone := by
  have hcut : (t.cutChildren n).Linked gone := h.cutChildren
  unfold Tree.setText
  dsimp only
  split
  · exact hcut
  · exact hcut.appendText ⟨size_cutChildren.symm ▸ hn.lt, hn.here⟩ s

theorem newElementWithText (name s : String) : (t.newElementWithText name s).2.Linked gone :=
  (h.add _).appendText (h.present_add _) s

theorem remove (hn : t.Present gone n) (hok : t.remove n = .ok t') : t'.Linked gone := by
  obtain ⟨_, -, hok⟩ := Except.bind_eq_ok.mp hok
  obtain rfl := Except.ok.inj hok
  refine (h.detach hn).setLink (fun p hmem => ?_) nofun
  rw [h.node_detach hn] at hmem
  simp at hmem

theorem moveChildren (hn : t.Present gone n) (hd : t.Present gone d) (hnd : t.Under n d → d = n)
    (hok : t.moveChildren n d = .ok t') : t'.Linked gone := by
  by_cases hne : n = d
  · subst hne
    exact (h.hung.moveChildren_self hok) ▸ h
  · obtain ⟨_, -, hok⟩ := Except.bind_eq_ok.mp hok
    obtain ⟨_, -, hok⟩ := Except.bind_eq_ok.mp hok
    obtain rfl := Except.ok.inj hok
    exact h.move hn hd hne (fun hunder => hne (hnd hunder).symm)
      (moved_of_writes (fun _ hc => h.child_lt hc) hn.lt hd.lt hne)

end

/-- **An edit of a tree in which both directions agree makes another such tree.** -/
theorem edit (h : t.Linked gone) {e : Edit} (he : e.Allowed t gone) (hok : e.apply t = .ok t') :
    t'.Linked gone := by
  cases e with
  | newElement name => exact Except.ok.inj hok ▸ h.add _
  | newElementWithText name s => exact Except.ok.inj hok ▸ h.newElementWithText name s
  | appendText n s => exact Except.ok.inj hok ▸ h.appendText he s
  | setText n s => exact Except.ok.inj hok ▸ h.setText he s
  | appendChild p c => exact (h.appendChild he.1 he.2.1 he.2.2 hok).1
  | prependChild p c => exact (h.prependChild he.1 he.2.1 he.2.2 hok).1
  | insertAfter n c => exact (h.insertAfter he.1 he.2.1 he.2.2 hok).1
  | remove n => exact h.remove he hok
  | moveChildren source target => exact h.moveChildren he.1 he.2.1 he.2.2 hok

/-- A chain of links upward from a node follows the lists of children: it begins at one that lists
the node. -/
theorem listed_of_links (h : t.Linked gone) (hc : ¬ gone c)
    (hchain : Relation.TransGen (fun c p => t.above c = .parent p) c q) :
    ∃ p, c ∈ (t.node p).children ∧ t.Under q p := by
  induction hchain using Relation.TransGen.head_induction_on with
  | single hup => exact ⟨q, (h.mem_children_iff hc).mpr hup, .self⟩
  | @head c p hup _ ih =>
    have hmem := (h.mem_children_iff hc).mpr hup
    obtain ⟨p', hp', hunder⟩ := ih fun hp => hc ((h.closed hmem).mpr hp)
    exact ⟨p, hmem, hunder.child hp'⟩

end Linked

/-- All trees of a history are trees in which both directions agree. -/
theorem Becomes.linked (h : Becomes t gone u gone') (ht : t.Linked gone) : u.Linked gone' := by
  induction h with
  | start => exact ht
  | edit _ he hu ih => exact ih.edit he hu
  | release _ held ih => exact ih.dropped (.release held)

/-- **What holds of every tree that is reached.** A text is read as a tree in which both directions
agree. From any such tree on, a node is in one list of children at most, and once; it is in the list
of the node that it hangs below, and the links upward make no cycle. What is attached stands last,
first or directly after the receiver, and the other children of all nodes keep their order. -/
theorem Becomes.represents : (∀ html, (Tree.read html).Linked fun _ => False) ∧
    ∀ {t u : Tree} {gone gone' : NodeId → Prop}, t.Linked gone → Becomes t gone u gone' →
      (∀ c p q, c ∈ (u.node p).children → c ∈ (u.node q).children → p = q) ∧
      (∀ p, (u.node p).children.Nodup) ∧
      (∀ c p, ¬ gone' c → (c ∈ (u.node p).children ↔ u.above c = .parent p)) ∧
      (∀ c, ¬ gone' c → ¬ Relation.TransGen (fun c p => u.above c = .parent p) c c) ∧
      (∀ p c u', (Edit.appendChild p c).Allowed u gone' → u.appendChild p c = .ok u' →
        Attached u u' c p ((u.node p).children.filter (· != c) ++ [c])) ∧
      (∀ p c u', (Edit.prependChild p c).Allowed u gone' → u.prependChild p c = .ok u' →
        Attached u u' c p (c :: (u.node p).children.filter (· != c))) ∧
      ∀ n c u', (Edit.insertAfter n c).Allowed u gone' → u.insertAfter n c = .ok u' →
        ∃ p before after, u.above n = .parent p ∧
          (u.node p).children.filter (· != c) = before ++ n :: after ∧
          Attached u u' c p (before ++ n :: c :: after) := by
  refine ⟨fun html => (parsed_read html).linked, fun ht h => ?_⟩
  have hu := h.linked ht
  refine ⟨fun c p q hp hq => hu.parent_unique hp hq, hu.nodup, fun c p hc => hu.mem_children_iff hc,
    fun c hc hcycle => ?_,
    fun p c u' he hok => (hu.appendChild he.1 he.2.1 he.2.2 hok).2,
    fun p c u' he hok => (hu.prependChild he.1 he.2.1 he.2.2 hok).2,
    fun n c u' he hok => (hu.insertAfter he.1 he.2.1 he.2.2 hok).2⟩
  obtain ⟨p, hmem, hunder⟩ := hu.listed_of_links hc hcycle
  exact hu.acyclic hmem hunder

/-! A paragraph that was read, with a new element at its end. -/

namespace Sample

def paragraph : Tree := Tree.read "<p>x<b>y"

def lengthened : Tree := (paragraph.newElement "i").2.hang 8 4 (· ++ [8])

end Sample

open LiveSpec.Markup.Tree.Sample in
/-- The new element can go to the front of the paragraph as well. -/
theorem represents_paragraph :
    Becomes paragraph (fun _ => False) lengthened (fun _ => False) ∧
    (lengthened.node 4).children = [5, 6, 8] ∧
    ∃ u, lengthened.prependChild 4 8 = .ok u ∧ Attached lengthened u 8 4 [8, 5, 6] := by
  have hpresent : ∀ {t : Tree} {n}, n < t.nodes.size →
      t.Present (fun _ => False) n := fun hn => ⟨hn, id⟩
  have hleaf : ∀ {t : Tree} {n p}, (t.node n).children = [] → p ≠ n →
      ¬ t.Under n p := fun hnil hne hunder => by
    rcases hunder.eq_or_below with he | ⟨c, hc, -⟩
    · exact hne he
    · rw [hnil] at hc
      cases hc
  have happend : (paragraph.newElement "i").2.appendChild 4 8 = .ok lengthened :=
    appendChild_eq ⟨by decide +kernel, by decide +kernel⟩ (by decide +kernel)
  have hbecomes : Becomes paragraph (fun _ => False) lengthened (fun _ => False) := by
    refine .edit (e := .appendChild 4 8) (.edit (e := .newElement "i") .start trivial rfl)
      ⟨?_, ?_, ?_⟩ happend
    · exact hpresent (by decide +kernel)
    · exact hpresent (by decide +kernel)
    · exact hleaf (by decide +kernel) (by decide)
  have hallowed : (Edit.prependChild 4 8).Allowed lengthened fun _ => False :=
    ⟨hpresent (by decide +kernel), hpresent (by decide +kernel),
      hleaf (by decide +kernel) (by decide)⟩
  have hprepend : lengthened.prependChild 4 8 = .ok ((lengthened.detach 8).hang 8 4 (8 :: ·)) := by
    unfold prependChild ensureLive
    rw [if_pos (by decide +kernel)]
    rfl
  obtain ⟨hread, hreached⟩ := Becomes.represents
  have hattached := (hreached (hread "<p>x<b>y") hbecomes).2.2.2.2.2.1 4 8 _ hallowed hprepend
  have hchildren : (lengthened.node 4).children = [5, 6, 8] := by decide +kernel
  rw [hchildren] at hattached
  exact ⟨hbecomes, hchildren, _, hprepend, hattached⟩

end LiveSpec.Markup.Tree
