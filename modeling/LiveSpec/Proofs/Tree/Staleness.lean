import LiveSpec.Proofs.Tree.Stepwise
import LiveSpec.Proofs.Tree.Wired

/-!
# Which elements are stale

Nothing that a node says of itself tells whether it is live. That is asked of the links above it, so
one removal turns all that hangs below, and one attachment turns it back. Here liveness is read off
what was done to the tree. A `Course` keeps each event with the tree that it met, and a node was
`RemovedSince` if an event took it out and no later one put it in again. In a wired tree that is
what a cut link says (`Course.link_eq_cut_iff`), whatever the events were.

So in a tree without cycles an element is live if and only if none of the nodes from it upward was
removed since, or destroyed. The second reason counts: lists keep the nodes below them, links upward
keep nothing, so a node in hand that hangs below one that was let go is stale, although nobody
removed anything.
-/

namespace LiveSpec.Markup.Tree

variable {t t' u : Tree} {n m p x y : NodeId} {cs : List (Tree × Event)}

/-! ## What happens to a tree -/

/-- An edit of the structure, a change of attributes, or letting go of all that is not held. -/
inductive Event where
  | edit (e : Edit)
  | attributes (n : NodeId) (f : Attributes → Attributes)
  | release (held : NodeId → Bool)

namespace Event

/-- The tree after an event, if it is not refused. -/
def apply (t : Tree) : Event → Except TreeError Tree
  | edit e => e.apply t
  | attributes n f => .ok (t.modifyAttributes n f)
  | release held => .ok (t.release held)

/-- The nodes that an edit names are alive. -/
def Proper (t : Tree) : Event → Prop
  | edit e => e.Proper t
  | _ => True

def TakesOut (t : Tree) (n : NodeId) : Event → Prop
  | edit e => e.TakesOut t n
  | _ => False

def PutsIn (n : NodeId) : Event → Prop
  | edit e => e.PutsIn n
  | _ => False

end Event

/-- The events that lead from one tree to another, the latest first, each with the tree that it met.
-/
inductive Course (t : Tree) : List (Tree × Event) → Tree → Prop
  | start : Course t [] t
  | event {cs : List (Tree × Event)} {u u' : Tree} {e : Event} (h : Course t cs u) (he : e.Proper u)
    (hu : e.apply u = .ok u') : Course t ((u, e) :: cs) u'

/-- An event took the node out, and no later one put it in again. -/
def RemovedSince (cs : List (Tree × Event)) (n : NodeId) : Prop :=
  ∃ later t e earlier, cs = later ++ (t, e) :: earlier ∧ e.TakesOut t n ∧
    ∀ c ∈ later, ¬ c.2.PutsIn n

theorem not_removedSince_nil : ¬ RemovedSince [] n := by
  rintro ⟨later, t, e, earlier, h, -⟩
  cases later <;> cases h

/-- Only the latest event counts, or it leaves the node as the earlier ones left it. -/
theorem removedSince_cons {e : Event} :
    RemovedSince ((t, e) :: cs) n ↔ e.TakesOut t n ∨ RemovedSince cs n ∧ ¬ e.PutsIn n := by
  constructor
  · rintro ⟨later, t', e', earlier, h, hout, hin⟩
    cases later with
    | nil =>
      cases h
      exact .inl hout
    | cons c later =>
      cases h
      exact .inr ⟨⟨later, t', e', earlier, rfl, hout,
        fun c hc => hin c (List.mem_cons_of_mem _ hc)⟩,
        hin _ List.mem_cons_self⟩
  · rintro (hout | ⟨⟨later, t', e', earlier, rfl, hout, hin⟩, hkept⟩)
    · exact ⟨[], t, e, cs, rfl, hout, nofun⟩
    · refine ⟨(t, e) :: later, t', e', earlier, rfl, hout, fun c hc => ?_⟩
      rcases List.mem_cons.mp hc with rfl | hc
      · exact hkept
      · exact hin c hc

namespace Wired

variable (h : t.Wired)
include h

theorem event {e : Event} (he : e.Proper t) (hok : e.apply t = .ok t') : t'.Wired := by
  cases e with
  | edit e => exact h.edit he hok
  | attributes n f => exact Except.ok.inj hok ▸ h.of_sameShape (modifyAttributes_sameShape f)
  | release held => exact Except.ok.inj hok ▸ h.release held

theorem link_event_eq_cut_iff {e : Event} (he : e.Proper t) (hok : e.apply t = .ok t') :
    (t'.node m).link = .cut ↔ e.TakesOut t m ∨ (t.node m).link = .cut ∧ ¬ e.PutsIn m := by
  have hneither : (t'.node m).link = (t.node m).link →
      ((t'.node m).link = .cut ↔ False ∨ (t.node m).link = .cut ∧ ¬ False) := fun hlink => by
        simp [hlink]
  cases e with
  | edit e => exact h.link_edit_eq_cut_iff he hok
  | attributes n f =>
    obtain rfl := Except.ok.inj hok
    exact hneither ((modifyAttributes_sameShape f).link m)
  | release held =>
    obtain rfl := Except.ok.inj hok
    exact hneither ((Dropped.release held).link m)

end Wired

namespace Course

theorem wired (h : Course t cs u) (ht : t.Wired) : u.Wired := by
  induction h with
  | start => exact ht
  | event _ he hu ih => exact ih.event he hu

/-- **A link is cut if and only if the node was removed and not put in again.** -/
theorem link_eq_cut_iff (h : Course t cs u) (ht : t.Wired) (huncut : ∀ n, (t.node n).link ≠ .cut) :
    (u.node n).link = .cut ↔ RemovedSince cs n := by
  induction h with
  | start => exact iff_of_false (huncut n) not_removedSince_nil
  | event h he hu ih => rw [removedSince_cons, (h.wired ht).link_event_eq_cut_iff he hu, ih]

end Course

/-! ## What a stale element refuses -/

/-- All that is asked of the place of `x` in the tree is refused, with the name of `x`. -/
structure Refuses (t : Tree) (x : NodeId) : Prop where
  parent : t.parent? x = .error (.stale (t.name x))
  childElements : t.childElements x = .error (.stale (t.name x))
  walk (name : String) : t.walk x name = .error (.stale (t.name x))
  descendants (name : String) : t.descendants x name = .error (.stale (t.name x))
  appendChild (c : NodeId) : t.appendChild x c = .error (.stale (t.name x))
  prependChild (c : NodeId) : t.prependChild x c = .error (.stale (t.name x))
  insertAfter (c : NodeId) : t.insertAfter x c = .error (.stale (t.name x))
  remove : t.remove x = .error (.stale (t.name x))
  moveChildren (d : NodeId) : t.moveChildren x d = .error (.stale (t.name x))
  moveChildrenTo (n : NodeId) (hn : t.isLive n = true) :
    t.moveChildren n x = .error (.stale (t.name x))

theorem refuses_of_stale (hx : t.isLive x = false) : t.Refuses x where
  parent := ensureLive_bind_of_stale hx
  childElements := ensureLive_bind_of_stale hx
  walk name := ensureLive_bind_of_stale hx
  descendants name := by
    unfold descendants walk
    rw [ensureLive_bind_of_stale hx]
    rfl
  appendChild c := ensureLive_bind_of_stale hx
  prependChild c := ensureLive_bind_of_stale hx
  insertAfter c := ensureLive_bind_of_stale hx
  remove := ensureLive_bind_of_stale hx
  moveChildren d := ensureLive_bind_of_stale hx
  moveChildrenTo n hn := (ensureLive_bind_of_isLive hn).trans (ensureLive_bind_of_stale hx)

/-! ## What an attachment brings back -/

namespace Wired

variable (h : t.Wired)
include h

theorem isLive_iff_climb : t.isLive x = true ↔ ∃ k, t.Climb x k := Tree.isLive_iff_climb h.parent_lt

/-- All below a live node is live. -/
theorem isLive_of_under (hx : t.isLive x = true) (hy : t.Under x y) : t.isLive y = true := by
  induction hy with
  | self => exact hx
  | child _ hmem ih =>
    obtain ⟨k, hk⟩ := h.isLive_iff_climb.mp ih
    exact h.isLive_iff_climb.mpr ⟨k + 1, .step (h.above_of_mem hmem) hk⟩

/-- The node above a live one is live. -/
theorem isLive_above (hx : t.isLive x = true) (hup : t.above x = .parent p) :
    t.isLive p = true := by
  obtain ⟨k, hk⟩ := h.isLive_iff_climb.mp hx
  cases hk with
  | top htop => exact absurd (htop.symm.trans hup) nofun
  | step hup' hp => exact h.isLive_iff_climb.mpr ⟨_, Upward.parent.inj (hup'.symm.trans hup) ▸ hp⟩

/-- A stale node is live once it is attached to a live one, and so is all that was below it. -/
theorem isLive_attach (hx : t.Alive x) (hp : t.Alive p) (hstale : t.isLive x = false)
    (hlive : t.isLive p = true) {put : List NodeId → List NodeId}
    (hput : ∀ cs, (put cs).Perm (x :: cs)) (hy : t.Under x y) :
    ((t.detach x).hang x p put).isLive y = true := by
  have hu := h.attach hx hp hput
  have hnode := h.node_attach hx hp put
  have hdestroyed :
      ∀ m, (((t.detach x).hang x p put).node m).destroyed = (t.node m).destroyed := fun m => by
    rw [hnode]
  -- the way up from the live node does not meet the stale one, so it is there as before
  have hkept :
      ∀ {z j}, t.Climb z j → ((t.detach x).hang x p put).above z = t.above z := fun {z j} hz => by
    have hne : x ≠ z := by
      rintro rfl
      exact Bool.eq_false_iff.mp hstale (h.isLive_iff_climb.mpr ⟨j, hz⟩)
    have hlink : (((t.detach x).hang x p put).node z).link = (t.node z).link := by
      rw [hnode]
      exact if_neg hne
    unfold above
    rw [hlink]
    cases (t.node z).link <;> simp [hdestroyed]
  have hup : ((t.detach x).hang x p put).above x = .parent p := by
    refine above_eq_parent_iff.mpr ⟨?_, (hdestroyed p).trans hp.alive⟩
    rw [hnode]
    exact if_pos rfl
  obtain ⟨k, hk⟩ := h.isLive_iff_climb.mp hlive
  have hxlive : ((t.detach x).hang x p put).isLive x = true :=
    hu.isLive_iff_climb.mpr ⟨k + 1, .step hup (hk.of_above hkept)⟩
  refine hu.isLive_of_under hxlive ?_
  -- where the old way down comes back to the attached node, a new one begins
  induction hy with
  | self => exact .self
  | @child q c _ hc ih =>
    by_cases hcx : c = x
    · exact hcx ▸ .self
    · have hkept : c ∈ (t.node q).children.filter (· != x) :=
        List.mem_filter.mpr ⟨hc, bne_iff_ne.mpr hcx⟩
      refine ih.child ?_
      rw [hnode]
      dsimp only
      split
      · exact (hput _).mem_iff.mpr (List.mem_cons_of_mem x hkept)
      · exact hkept

end Wired

/-! ## All of it -/

namespace Sample

/-- A division with a paragraph in it, neither of them hung into the document. -/
def division : Tree := (((Tree.read "").newElement "div").2.newElement "p").2.hang 5 4 (· ++ [5])

/-- The paragraph alone is held while the rest is let go. -/
def orphaned : Tree := division.release (· == 5)

/-- What led to the orphaned paragraph, the latest first. -/
def untilOrphaned : List (Tree × Event) :=
  [(division, .release (· == 5)),
    ((((Tree.read "").newElement "div").2.newElement "p").2, .edit (.appendChild 4 5)),
    (((Tree.read "").newElement "div").2, .edit (.newElement "p")),
    (Tree.read "", .edit (.newElement "div"))]

end Sample

open Tree.Sample in
/-- A paragraph is stale after the division around it was let go, although nobody removed one or the
other. -/
theorem stale_without_removal :
    Course (Tree.read "") untilOrphaned orphaned ∧ orphaned.Acyclic ∧ orphaned.Alive 5 ∧
      ¬ (orphaned.isLive 5 = true ↔ ∀ a, orphaned.HangsUnder 5 a →
        ¬ RemovedSince untilOrphaned a) := by
  have happend : (((Tree.read "").newElement "div").2.newElement "p").2.appendChild 4 5 =
      .ok division :=
    appendChild_eq ⟨by decide +kernel, by decide +kernel⟩ (by decide +kernel)
  have hcourse : Course (Tree.read "") untilOrphaned orphaned :=
    .event (.event (.event (.event .start trivial rfl) trivial rfl)
      ⟨by decide +kernel, by decide +kernel⟩ happend)
      trivial rfl
  have hstale : orphaned.isLive 5 = false := by decide +kernel
  have hnone : ∀ a, ¬ RemovedSince untilOrphaned a := fun a => by
    simp [untilOrphaned, removedSince_cons, Event.TakesOut, Edit.TakesOut, not_removedSince_nil]
  refine ⟨hcourse, acyclic_of_lt (hcourse.wired (parsed_read _).wired).parent_lt
    (by decide +kernel),
    by decide +kernel, fun h => ?_⟩
  have hlive := h.mpr fun a _ => hnone a
  rw [hstale] at hlive
  cases hlive

/-- The three ways to attach a node: last, first, or after a node that something is above. All
succeed at a live node. -/
theorem attach_eq_ok (hlive : t.isLive p = true) :
    t.appendChild p x = .ok ((t.detach x).hang x p (· ++ [x])) ∧
    t.prependChild p x = .ok ((t.detach x).hang x p (x :: ·)) ∧
    ∀ q, t.above p = .parent q → t.insertAfter p x = .ok
      ((t.detach x).hang x q (putAfter p x)) := by
  refine ⟨ensureLive_bind_of_isLive hlive, ensureLive_bind_of_isLive hlive, fun q hup => ?_⟩
  unfold insertAfter
  rw [ensureLive_bind_of_isLive hlive, hup]
  rfl

/-- **Staleness follows removals, and a refused edit changes nothing.** In a tree that a document
came to, an element is live if and only if, from it upward, no node was removed since and none was
let go. One that is not live refuses all that is asked of its place, with its own name. Attached to
a live element, it is live again, with all below it. And an edit that is carried out write by write
leaves every node as it was if it is refused. -/
theorem Course.liveness_follows_removals {html : String} (h : Course (Tree.read html) cs t)
    (ht : t.Acyclic) :
    (∀ x, t.Alive x →
      (t.isLive x = true ↔
        ∀ a, t.HangsUnder x a → ¬ RemovedSince cs a ∧ (t.node a).destroyed = false)) ∧
    (∀ x, t.isLive x = false → t.Refuses x) ∧
    (∀ x p, t.Alive x → t.Alive p → t.isLive x = false → t.isLive p = true →
      (∃ u, t.appendChild p x = .ok u ∧ ∀ y, t.Under x y → u.isLive y = true) ∧
      (∃ u, t.prependChild p x = .ok u ∧ ∀ y, t.Under x y → u.isLive y = true) ∧
      ∀ q, t.above p = .parent q →
        ∃ u, t.insertAfter p x = .ok u ∧ ∀ y, t.Under x y → u.isLive y = true) ∧
    (∀ (e : Edit) u, e.apply t = .ok u → (Painting.perform e).run t = (.ok (), u)) ∧
    ∀ (e : Edit) err, e.apply t = .error err → (Painting.perform e).run t = (.error err, t) := by
  have hread := parsed_read html
  have hw := h.wired hread.wired
  refine ⟨fun x hx => ?_, fun _ => refuses_of_stale, fun x p hx hp hstale hlive => ?_,
    fun e u hok => ?_,
    fun e err herr => ?_⟩
  · rw [ht.isLive_iff hw.parent_lt hx.alive, Intact]
    simp only [ne_eq, h.link_eq_cut_iff hread.wired hread.uncut]
  · obtain ⟨happend, hprepend, hinsert⟩ := attach_eq_ok (x := x) hlive
    refine ⟨⟨_, happend, fun y => ?_⟩, ⟨_, hprepend, fun y => ?_⟩,
      fun q hup => ⟨_, hinsert q hup, fun y => ?_⟩⟩
    · exact hw.isLive_attach hx hp hstale hlive fun _ => List.perm_append_singleton ..
    · exact hw.isLive_attach hx hp hstale hlive fun _ => .refl _
    · exact hw.isLive_attach hx (hw.alive_above hup) hstale (hw.isLive_above hlive hup)
        (perm_putAfter p x)
  · simpa only [Painting.Carries, hok] using Painting.carries_perform e t
  · simpa only [Painting.Carries, herr] using Painting.carries_perform e t

namespace Sample

/-- The paragraph of the document, taken out of it. -/
def shortened : Tree := (paragraph.detach 4).setLink 4 .cut

end Sample

open Tree.Sample in
/-- Without its paragraph the document leaves what was in there stale, until the paragraph is back.
-/
theorem liveness_follows_removals_shortened :
    Course (Tree.read "<p>x<b>y") [(paragraph, .edit (.remove 4))] shortened ∧ shortened.Acyclic ∧
    shortened.isLive 6 = false ∧ shortened.childElements 6 = .error (.stale "b") ∧
    ∃ u, shortened.appendChild 3 4 = .ok u ∧ u.isLive 6 = true := by
  have hremove : paragraph.remove 4 = .ok shortened := by
    unfold remove
    exact ensureLive_bind_of_isLive (by decide +kernel)
  have hcourse : Course (Tree.read "<p>x<b>y") [(paragraph, .edit (.remove 4))] shortened :=
    .event .start (show paragraph.Alive 4 by decide +kernel) hremove
  have hacyclic : shortened.Acyclic :=
    acyclic_of_lt (hcourse.wired (parsed_read _).wired).parent_lt (by decide +kernel)
  have halive : ∀ n ∈ [3, 4, 6], shortened.Alive n := by decide +kernel
  obtain ⟨hlive, hrefuses, hattach, -⟩ := hcourse.liveness_follows_removals hacyclic
  have hstale : shortened.isLive 4 = false := by decide +kernel
  have hb : shortened.isLive 6 = false := by
    refine Bool.eq_false_iff.mpr fun hb => ?_
    have hremoved : RemovedSince [(paragraph, .edit (.remove 4))] 4 :=
      removedSince_cons.mpr (.inl rfl)
    have hunder : shortened.HangsUnder 6 4 := .of_link (by decide +kernel) .refl
    exact ((hlive 6 (halive 6 (by decide))).mp hb 4 hunder).1 hremoved
  have hname : shortened.name 6 = "b" := by decide +kernel
  obtain ⟨u, hu, hback⟩ :=
    (hattach 4 3 (halive 4 (by decide)) (halive 3 (by decide)) hstale (by decide +kernel)).1
  refine ⟨hcourse, hacyclic, hb, hname ▸ (hrefuses 6 hb).childElements, u, hu,
    hback 6 (.of_mem_children ?_)⟩
  decide +kernel

end LiveSpec.Markup.Tree
