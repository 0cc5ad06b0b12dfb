import LiveSpec.Proofs.Tree.Moving
import LiveSpec.Proofs.Tree.Release

/-!
# Both directions of a tree

The lists of children and the links upward say the same in a `Tree.Linked` tree: a node is listed
where it hangs and nowhere else, once, and no way down comes back to where it began. Other than in
`Tree.Coherent` this holds of all nodes, whether they stand or were cut off.

Nodes that were let go are set aside, together with all that lay below them at that moment. Such a
branch is cut out of the rest: no list leads from one to the other (`Linked.closed`), so what
happens to the rest never meets it.

Each write that an edit is made of keeps the agreement: taking a node out of where it is listed,
hanging in a node that nothing lists, cutting off all children, and handing them over to another
node. Letting go keeps it as well, whatever is held.
-/

namespace LiveSpec.Markup.Tree

variable {t t' : Tree} {gone : NodeId → Prop} {n m p q x c d : NodeId}

/-- A tree whose links and lists of children agree, but for the nodes that are gone. -/
structure Linked (t : Tree) (gone : NodeId → Prop) : Prop where
  gone_lt {n : NodeId} : gone n → n < t.nodes.size
  alive {n : NodeId} : ¬ gone n → (t.node n).destroyed = false
  child_lt {p c : NodeId} : c ∈ (t.node p).children → c < t.nodes.size
  child_link {p c : NodeId} : c ∈ (t.node p).children → (t.node c).link = .below p
  closed {p c : NodeId} : c ∈ (t.node p).children → (gone c ↔ gone p)
  nodup (p : NodeId) : (t.node p).children.Nodup
  listed {p c : NodeId} : (t.node c).link = .below p → ¬ gone c → (t.node p).destroyed = false →
    c ∈ (t.node p).children
  acyclic {p c : NodeId} : c ∈ (t.node p).children → ¬ t.Under c p

/-- A node of the table that is not gone. -/
structure Present (t : Tree) (gone : NodeId → Prop) (n : NodeId) : Prop where
  lt : n < t.nodes.size
  here : ¬ gone n

/-- A node is below another if its link says so and that one is not destroyed. -/
theorem above_eq_parent_iff : t.above n = .parent p ↔ (t.node n).link = .below p ∧
    (t.node p).destroyed = false := by
  refine ⟨Coherent.link_of_above, fun ⟨hl, hd⟩ => ?_⟩
  unfold above
  rw [hl]
  exact if_neg (by simp [hd])

/-- Taken out, a node hangs at the top and no list has it, if only the node above it listed it. -/
theorem node_detach_of_listed (hlt : n < t.nodes.size)
    (hup : ∀ p, n ∈ (t.node p).children → t.above n = .parent p) (m : NodeId) :
    (t.detach n).node m =
      { t.node m with
        link := if n = m then .top else (t.node m).link
        children := (t.node m).children.filter (· != n) } := by
  have hunlisted : t.above n ≠ .parent m → (t.node m).children.filter
      (· != n) = (t.node m).children := fun hm =>
    List.filter_eq_self.mpr fun c hc => bne_iff_ne.mpr fun he => hm (hup m (he ▸ hc))
  have hwrite : ∀ u : Tree, u.nodes.size = t.nodes.size →
      (u.setLink n .top).node m = { u.node m with link := if n = m then .top else
        (u.node m).link } := by
    intro u hu
    rw [node_setLink]
    by_cases hm : n = m
    · subst hm; simp [hu, hlt]
    · simp [hm]
  unfold detach
  cases habove : t.above n with
  | parent p =>
    rw [hwrite _ (size_modifyChildren ..), node_modifyChildren]
    by_cases hm : p = m ∧ m < t.nodes.size
    · rw [if_pos hm]
    · rw [if_neg hm]
      by_cases hlt' : m < t.nodes.size
      · rw [hunlisted fun hup' => hm ⟨Upward.parent.inj (habove.symm.trans hup'), hlt'⟩]
      · rw [node_of_size_le t m (Nat.not_lt.mp hlt')]
        rfl
  | top => rw [hwrite _ rfl, hunlisted fun hup' => by rw [habove] at hup'; cases hup']
  | lost => rw [hwrite _ rfl, hunlisted fun hup' => by rw [habove] at hup'; cases hup']

namespace Linked

section

variable (h : t.Linked gone)
include h

/-- A present child has one parent. -/
theorem parent_unique (hp : c ∈ (t.node p).children) (hq : c ∈ (t.node q).children) : p = q :=
  Link.below.inj ((h.child_link hp).symm.trans (h.child_link hq))

/-- **A node is listed where it hangs.** -/
theorem mem_children_iff (hc : ¬ gone c) : c ∈ (t.node p).children ↔ t.above c = .parent p := by
  rw [above_eq_parent_iff]
  constructor
  · intro hmem
    exact ⟨h.child_link hmem, h.alive fun hp => hc ((h.closed hmem).mpr hp)⟩
  · intro hup
    exact h.listed hup.1 hc hup.2

theorem present_parent (hn : t.Present gone n) (hmem : n ∈ (t.node p).children) :
    t.Present gone p :=
  ⟨lt_size_of_mem_children hmem, fun hp => hn.here ((h.closed hmem).mpr hp)⟩

/-- Nodes that are listed and not gone hang below nodes that are not gone either. -/
theorem present_child (hp : t.Present gone p) (hmem : c ∈ (t.node p).children) : t.Present gone c :=
  ⟨h.child_lt hmem, fun hc => hp.here ((h.closed hmem).mp hc)⟩

/-- A node that is linked to no parent is no child. -/
theorem unlisted_of_link {l : Link} (hl : (t.node n).link = l) (hne : ∀ p, l ≠ .below p) :
    n ∉ (t.node p).children :=
  fun hmem => hne p (hl.symm.trans (h.child_link hmem))

/-- What an edit has to show that destroys nothing. -/
theorem rewire (hsize : t.nodes.size ≤ t'.nodes.size)
    (hdestroyed : ∀ n, (t'.node n).destroyed = (t.node n).destroyed)
    (hdown : ∀ {p c}, c ∈ (t'.node p).children →
      c < t'.nodes.size ∧ (t'.node c).link = .below p ∧ (gone c ↔ gone p) ∧ ¬ t'.Under c p)
    (hup : ∀ {p c}, (t'.node c).link = .below p → ¬ gone c → (t.node p).destroyed = false →
      c ∈ (t'.node p).children)
    (hnodup : ∀ p, (t'.node p).children.Nodup) : t'.Linked gone where
  gone_lt hg := Nat.lt_of_lt_of_le (h.gone_lt hg) hsize
  alive hg := (hdestroyed _).trans (h.alive hg)
  child_lt hc := (hdown hc).1
  child_link hc := (hdown hc).2.1
  closed hc := (hdown hc).2.2.1
  nodup := hnodup
  listed hl hg hp := hup hl hg (hdestroyed _ ▸ hp)
  acyclic hc := (hdown hc).2.2.2

/-- An edit that only takes nodes out of lists, and turns the links of those that it takes out. -/
theorem shrink (hsize : t'.nodes.size = t.nodes.size)
    (hdestroyed : ∀ n, (t'.node n).destroyed = (t.node n).destroyed)
    (hsub : ∀ p, (t'.node p).children.Sublist (t.node p).children)
    (hkept : ∀ {p c}, c ∈ (t'.node p).children → (t'.node c).link = (t.node c).link)
    (hup : ∀ {p c}, (t'.node c).link = .below p →
      (t.node c).link = .below p ∧ (c ∈ (t.node p).children →
        c ∈ (t'.node p).children)) : t'.Linked gone := by
  refine h.rewire (Nat.le_of_eq hsize.symm) hdestroyed (fun {p c} hc => ?_) (fun hl hg hp => ?_)
    fun p => (hsub p).nodup (h.nodup p)
  · have hc' := (hsub p).subset hc
    refine ⟨hsize ▸ h.child_lt hc', (hkept hc).trans (h.child_link hc'), h.closed hc',
      fun hcycle => ?_⟩
    exact h.acyclic hc' (hcycle.mono fun q => (hsub q).subset)
  · exact (hup hl).2 (h.listed (hup hl).1 hg hp)

/-! ## Taking out -/

/-- A node that nothing lists can hang at the top as well as be cut off. -/
theorem setLink (hn : ∀ p, n ∉ (t.node p).children) {l : Link} (hl : ∀ p, l ≠ .below p) :
    (t.setLink n l).Linked gone := by
  have hchildren : ∀ p, ((t.setLink n l).node p).children = (t.node p).children := fun p => by
    rw [node_setLink]; split <;> rfl
  refine h.shrink (size_setLink ..) (fun m => ?_) (fun p => hchildren p ▸ .refl _)
    (fun {p c} hc => ?_) fun {p c} hlink => ?_
  · rw [node_setLink]; split <;> rfl
  · rw [hchildren] at hc
    rw [node_setLink, if_neg]
    rintro ⟨rfl, -⟩
    exact hn p hc
  · rw [node_setLink] at hlink
    split at hlink
    · exact absurd hlink (hl p)
    · exact ⟨hlink, fun hc => (hchildren p).symm ▸ hc⟩

/-- Detaching changes the link of the node and the list of its parent. -/
theorem node_detach (hn : t.Present gone n) (m : NodeId) : (t.detach n).node m =
    { t.node m with
      link := if n = m then .top else (t.node m).link
      children := (t.node m).children.filter (· != n) } :=
  node_detach_of_listed hn.lt (fun _ hmem => (h.mem_children_iff hn.here).mp hmem) m

omit h in
@[simp] theorem size_detach : (t.detach n).nodes.size = t.nodes.size := by
  unfold Tree.detach
  rw [size_setLink]
  split
  · exact size_modifyChildren ..
  · rfl

/-- A present node can be detached. -/
theorem detach (hn : t.Present gone n) : (t.detach n).Linked gone := by
  have hnode := h.node_detach hn
  refine h.shrink size_detach (fun m => by rw [hnode]) (fun p => ?_)
    (fun {p c} hc => ?_) fun {p c} hlink => ?_
  · rw [hnode]
    exact List.filter_sublist
  · rw [hnode] at hc ⊢
    refine if_neg ?_
    rintro rfl
    simp at hc
  · rw [hnode] at hlink ⊢
    dsimp only at hlink
    split at hlink
    · cases hlink
    · next hne => exact ⟨hlink, fun hc => List.mem_filter.mpr ⟨hc, bne_iff_ne.mpr (Ne.symm hne)⟩⟩

/-- The children of a node can be cut off. -/
theorem cutChildren : (t.cutChildren n).Linked gone := by
  refine h.shrink size_cutChildren (fun m => by rw [node_cutChildren]) (fun p => ?_)
    (fun {p c} hc => ?_)
    fun {p c} hlink => ?_
  · rw [node_cutChildren]
    dsimp only
    split
    · exact List.nil_sublist _
    · exact .refl _
  · rw [node_cutChildren] at hc ⊢
    dsimp only at hc
    split at hc
    · cases hc
    · next hne => exact if_neg fun hn => hne (h.parent_unique hn.1 hc)
  · rw [node_cutChildren] at hlink ⊢
    dsimp only at hlink ⊢
    split at hlink
    · cases hlink
    · next hkept =>
      refine ⟨hlink, fun hc => ?_⟩
      rw [if_neg]
      · exact hc
      · rintro rfl
        exact hkept ⟨hc, h.child_lt hc⟩

/-! ## Putting in -/

/-- A new node is linked nowhere. -/
theorem add (s : Content) : (t.add s).2.Linked gone := by
  have hsame : ∀ m, m ≠ t.nodes.size → (t.add s).2.node m = t.node m := fun m hm => by
    rw [node_add, if_neg hm]
  have hfresh : t.node t.nodes.size = .fresh .document := node_of_size_le _ _ (Nat.le_refl _)
  refine h.rewire (by simp) (fun m => ?_) (fun {p c} hc => ?_) (fun {p c} hlink hg hp => ?_)
    fun p => (children_add s).symm ▸ h.nodup p
  · rw [node_add]
    split
    · next hm => subst hm; rw [hfresh]; rfl
    · rfl
  · rw [children_add] at hc
    have hlt := h.child_lt hc
    refine ⟨size_add t s ▸ Nat.lt_succ_of_lt hlt, ?_, h.closed hc, fun hcycle => ?_⟩
    · rw [hsame c (Nat.ne_of_lt hlt)]
      exact h.child_link hc
    · exact h.acyclic hc (hcycle.mono fun q => children_add (t := t) s ▸ List.Subset.refl _)
  · rw [children_add]
    rw [node_add] at hlink
    split at hlink
    · cases hlink
    · exact h.listed hlink hg hp

/-- A new node is present, and nothing is below it. -/
theorem present_add (s : Content) : (t.add s).2.Present gone t.nodes.size :=
  ⟨by rw [size_add]; exact Nat.lt_succ_self _, fun hg => Nat.lt_irrefl _ (h.gone_lt hg)⟩

end

/-- A way down after nodes were hung in below `p` was there before, or it led to `p` and goes on
from one of them. -/
theorem under_of_hung {S : NodeId → Prop}
    (hchildren : ∀ {q x}, x ∈ (t'.node q).children → x ∈ (t.node q).children ∨ q = p ∧ S x)
    (hx : t'.Under c x) :
    t.Under c x ∨ t.Under c p ∧ ∃ s, S s ∧ t.Under s x := by
  induction hx with
  | self => exact .inl .self
  | @child q x _ hmem ih =>
    rcases hchildren hmem with hold | ⟨rfl, hs⟩
    · rcases ih with hq | ⟨hp, s, hs, hq⟩
      · exact .inl (hq.child hold)
      · exact .inr ⟨hp, s, hs, hq.child hold⟩
    · rcases ih with hq | ⟨hp, -⟩
      · exact .inr ⟨hq, x, hs, .self⟩
      · exact .inr ⟨hp, x, hs, .self⟩

/-- Hanging in makes no cycle, as long as `p` lies under none of the nodes that are hung in below
it. -/
theorem acyclic_of_hung {S : NodeId → Prop} (h : ∀ {q x}, x ∈ (t.node q).children → ¬ t.Under x q)
    (hchildren : ∀ {q x}, x ∈ (t'.node q).children → x ∈ (t.node q).children ∨ q = p ∧ S x)
    (hS : ∀ s, S s → ¬ t.Under s p) (hmem : x ∈ (t'.node q).children) : ¬ t'.Under x q := by
  intro hcycle
  rcases hchildren hmem with hold | ⟨rfl, hs⟩
  · rcases under_of_hung hchildren hcycle with hx | ⟨hx, s, hs, hq⟩
    · exact h hold hx
    · exact hS s hs ((hq.child hold).trans hx)
  · rcases under_of_hung hchildren hcycle with hx | ⟨hx, -⟩
    · exact hS x hs hx
    · exact hS x hs hx

/-- A node at the top can be hung in below any node that does not lie under it. -/
theorem hang (h : t.Linked gone) (hn : t.Present gone n) (htop : (t.node n).link = .top)
    (hp : t.Present gone p) (hnp : ¬ t.Under n p) {put : List NodeId → List NodeId}
    (hput : (put (t.node p).children).Perm (n :: (t.node p).children)) :
    (t.hang n p put).Linked gone := by
  have hunlisted : ∀ q, n ∉ (t.node q).children := fun q => h.unlisted_of_link htop nofun
  have hmem : ∀ {q x}, x ∈ ((t.hang n p put).node q).children ↔
      x ∈ (t.node q).children ∨ q = p ∧ x = n :=
    mem_children_hang hp.lt hput
  refine h.rewire (Nat.le_of_eq (size_hang put).symm) (fun m => by rw [node_hang])
    (fun {q x} hx => ?_)
    (fun {q x} hlink hg hq => ?_) fun q => ?_
  · have hacyclic := acyclic_of_hung (S := (· = n)) h.acyclic hmem.mp (fun s hs => hs ▸ hnp) hx
    rw [size_hang, link_hang put hn.lt]
    rcases hmem.mp hx with hold | ⟨rfl, rfl⟩
    · rw [if_neg (by rintro rfl; exact hunlisted q hold)]
      exact ⟨h.child_lt hold, h.child_link hold, h.closed hold, hacyclic⟩
    · rw [if_pos rfl]
      exact ⟨hn.lt, rfl, iff_of_false hn.here hp.here, hacyclic⟩
  · rw [link_hang put hn.lt] at hlink
    refine hmem.mpr ?_
    split at hlink
    · next he => exact .inr ⟨(Link.below.inj hlink).symm, he.symm⟩
    · exact .inl (h.listed hlink hg hq)
  · rw [children_hang put hp.lt]
    split
    · next he =>
      subst he
      exact hput.nodup_iff.mpr (List.nodup_cons.mpr ⟨hunlisted p, h.nodup p⟩)
    · exact h.nodup q

/-- A new node can be hung in anywhere. -/
theorem hang_add (h : t.Linked gone) (s : Content) (hp : t.Present gone p)
    (put : List NodeId → List NodeId) (hput : ∀ cs, (put cs).Perm (t.nodes.size :: cs)) :
    ((t.add s).2.hang t.nodes.size p put).Linked gone := by
  have hnode : (t.add s).2.node t.nodes.size = .fresh s := by rw [node_add, if_pos rfl]
  have hp' : (t.add s).2.Present gone p := ⟨size_add t s ▸ Nat.lt_succ_of_lt hp.lt, hp.here⟩
  refine (h.add s).hang (h.present_add s) (by rw [hnode]; rfl) hp' (fun hunder => ?_) (hput _)
  rcases hunder.eq_or_below with he | ⟨c, hc, -⟩
  · exact Nat.lt_irrefl _ (he ▸ hp.lt)
  · rw [hnode] at hc
    cases hc

/-- The children of a node can be handed over to any other node that does not lie below it. -/
theorem move (h : t.Linked gone) (hn : t.Present gone n) (hd : t.Present gone d) (hne : n ≠ d)
    (hnd : ¬ t.Under n d) (hmoved : Moved n d t t') : t'.Linked gone := by
  have hmem : ∀ {q x}, x ∈ (t'.node q).children ↔ q ≠ n ∧
      (x ∈ (t.node q).children ∨ q = d ∧ x ∈ (t.node n).children) :=
    hmoved.mem_children hne
  have hlink : ∀ x, (t'.node x).link = if x ∈ (t.node n).children then .below d else
      (t.node x).link := fun x => by
    rw [hmoved.node]
  refine h.rewire (Nat.le_of_eq hmoved.size.symm) (fun m => by rw [hmoved.node])
    (fun {q x} hx => ?_)
    (fun {q x} hl hg hq => ?_) fun q => ?_
  · have hacyclic := acyclic_of_hung (S := (· ∈ (t.node n).children)) h.acyclic
      (fun hx => (hmem.mp hx).2)
      (fun s hs hsd => hnd ((Under.of_mem_children hs).trans hsd)) hx
    rw [hmoved.size, hlink]
    obtain ⟨hqn, hold | ⟨rfl, hnew⟩⟩ := hmem.mp hx
    · rw [if_neg fun hc => hqn (h.parent_unique hold hc)]
      exact ⟨h.child_lt hold, h.child_link hold, h.closed hold, hacyclic⟩
    · rw [if_pos hnew]
      exact ⟨h.child_lt hnew, rfl, iff_of_false (h.present_child hn hnew).here hd.here, hacyclic⟩
  · rw [hlink] at hl
    split at hl
    · next hc =>
      obtain rfl := Link.below.inj hl
      exact hmem.mpr ⟨Ne.symm hne, .inr ⟨rfl, hc⟩⟩
    · next hc =>
      have hold := h.listed hl hg hq
      exact hmem.mpr ⟨fun he => hc (he ▸ hold), .inl hold⟩
  · rw [hmoved.node]
    dsimp only
    split
    · exact List.nodup_nil
    · split
      · exact List.nodup_append.mpr ⟨h.nodup d, h.nodup n,
          fun a ha b hb hab => hne (h.parent_unique hb (hab ▸ ha))⟩
      · exact h.nodup q

end Linked

/-! ## Letting go -/

theorem lt_size_of_destroyed (h : (t.node n).destroyed = true) : n < t.nodes.size := by
  refine Nat.lt_of_not_le fun hle => ?_
  rw [node_of_size_le _ _ hle] at h
  cases h

/-- A node that lay below one that was destroyed between two trees. -/
def Swept (t t' : Tree) (n : NodeId) : Prop :=
  ∃ d, (t.node d).destroyed = false ∧ (t'.node d).destroyed = true ∧ t.Under d n

/-- Two trees between which nodes were destroyed that nothing listed, or only what went with them.
-/
structure Dropped (t t' : Tree) : Prop where
  size : t'.nodes.size = t.nodes.size
  link (n : NodeId) : (t'.node n).link = (t.node n).link
  destroyed {n : NodeId} : (t.node n).destroyed = true → (t'.node n).destroyed = true
  children (p : NodeId) : (t'.node p).children = (t.node p).children ∨ (t'.node p).children = [] ∧
    t.Swept t' p
  lister {d p : NodeId} : (t.node d).destroyed = false → (t'.node d).destroyed = true →
    d ∈ (t.node p).children →
    t.Swept t' p

namespace Dropped

/-- Dropping adds no child. -/
theorem subset (h : t.Dropped t') : (t'.node p).children ⊆ (t.node p).children := by
  rcases h.children p with hp | ⟨hp, -⟩
  · exact hp ▸ List.Subset.refl _
  · exact hp ▸ List.nil_subset _

theorem trans {t'' : Tree} (h : t.Dropped t') (h' : t'.Dropped t'') : t.Dropped t'' := by
  have hfirst : ∀ {p}, t.Swept t' p → t.Swept t'' p :=
    fun ⟨d, hd, hd', hp⟩ => ⟨d, hd, h'.destroyed hd', hp⟩
  have hsecond : ∀ {p}, t'.Swept t'' p → t.Swept t'' p := by
    rintro p ⟨d, hd, hd', hp⟩
    exact ⟨d, Bool.eq_false_iff.mpr fun hc => Bool.eq_false_iff.mp hd (h.destroyed hc), hd',
      hp.mono fun _ => h.subset⟩
  refine ⟨h'.size.trans h.size, fun n => (h'.link n).trans (h.link n),
    fun hd => h'.destroyed (h.destroyed hd),
    fun p => ?_, fun {d p} hd hd' hmem => ?_⟩
  · rcases h'.children p with hp | ⟨hp, hswept⟩
    · rcases h.children p with hq | ⟨hq, hswept⟩
      · exact .inl (hp.trans hq)
      · exact .inr ⟨hp.trans hq, hfirst hswept⟩
    · exact .inr ⟨hp, hsecond hswept⟩
  · cases halive : (t'.node d).destroyed with
    | true => exact hfirst (h.lister hd halive hmem)
    | false =>
      rcases h.children p with hp | ⟨-, hswept⟩
      · exact hsecond (h'.lister halive hd' (hp ▸ hmem))
      · exact hfirst hswept

theorem refl : t.Dropped t :=
  ⟨rfl, fun _ => rfl, id, fun _ => .inl rfl, fun hd hd' _ => by rw [hd] at hd'; cases hd'⟩

/-- A node that nothing lists is dropped when it is destroyed. -/
theorem destroy (hlt : n < t.nodes.size) (halive : (t.node n).destroyed = false)
    (hunlisted : ∀ p, n ∉ (t.node p).children) : t.Dropped (t.destroy n) := by
  obtain ⟨emptied, hunder, -, hnode⟩ := destroy_eq t n
  have hdestroyed : ∀ m, ((t.destroy n).node m).destroyed = true ↔
      m = n ∨ (t.node m).destroyed = true := by
    intro m
    rw [hnode]
    by_cases hm : n = m
    · subst hm; simp [hlt]
    · simp [hm, Ne.symm hm]
  refine ⟨size_destroy, fun m => by rw [hnode], fun hd => (hdestroyed _).mpr (.inr hd), fun p => ?_,
    fun {d p} hd hd' hmem => ?_⟩
  · rw [hnode]
    dsimp only
    split
    · next hp => exact .inr ⟨rfl, n, halive, (hdestroyed n).mpr (.inl rfl), hunder p hp⟩
    · exact .inl rfl
  · rcases (hdestroyed d).mp hd' with rfl | hd'
    · exact absurd hmem (hunlisted p)
    · rw [hd] at hd'
      cases hd'

/-- Nodes that are destroyed together: none of them becomes listed, and each is destroyed once. -/
theorem foldl_destroy {us : List NodeId} (hus : us.Nodup) (hlt : ∀ u ∈ us, u < t.nodes.size)
    (halive : ∀ u ∈ us, (t.node u).destroyed = false)
    (hunlisted : ∀ u ∈ us, ∀ p, u ∉ (t.node p).children) :
    t.Dropped (us.foldl Tree.destroy t) := by
  induction us generalizing t with
  | nil => exact refl
  | cons u us ih =>
    obtain ⟨hu, hus⟩ := List.nodup_cons.mp hus
    have hstep := destroy (hlt u List.mem_cons_self) (halive u List.mem_cons_self)
      (hunlisted u List.mem_cons_self)
    refine hstep.trans (ih hus (fun v hv => ?_) (fun v hv => ?_) fun v hv p hmem => ?_)
    · exact hstep.size.symm ▸ hlt v (List.mem_cons_of_mem u hv)
    · have hne : u ≠ v := fun he => hu (he ▸ hv)
      rw [node_destroy]
      simpa [hne] using halive v (List.mem_cons_of_mem u hv)
    · exact hunlisted v (List.mem_cons_of_mem u hv) p (hstep.subset hmem)

/-- Rounds of releasing drop nodes. -/
theorem releaseWithin {held : NodeId → Bool} {fuel : Nat} :
    t.Dropped (t.releaseWithin held fuel) := by
  induction fuel generalizing t with
  | zero => exact refl
  | succ fuel ih =>
    unfold Tree.releaseWithin
    split
    · exact refl
    · have hnodup : (t.unreachable held).Nodup := List.nodup_range.filter _
      refine (foldl_destroy hnodup (fun u hu => ?_) (fun u hu => ?_) fun u hu => ?_).trans ih
      · exact (mem_unreachable.mp hu).1
      · exact (mem_unreachable.mp hu).2.2.1
      · exact (mem_unreachable.mp hu).2.2.2.1

/-- **Letting go destroys only what nothing lists, and what goes with it,** whatever is held. -/
theorem release (held : NodeId → Bool) : t.Dropped (t.release held) := releaseWithin

end Dropped

/-- **Letting go sets a branch aside as a whole.** -/
theorem Linked.dropped (h : t.Linked gone) (hdrop : t.Dropped t') : t'.Linked fun n => gone n ∨
    t.Swept t' n := by
  have hkept : ∀ {p}, ¬ t.Swept t' p → (t'.node p).children = (t.node p).children := fun hp =>
    (hdrop.children _).resolve_right fun hc => hp hc.2
  refine
    { gone_lt := ?_, alive := ?_, child_lt := ?_, child_link := ?_, closed := ?_, nodup :=
      ?_, listed := ?_, acyclic := ?_ }
  · rintro n (hg | ⟨d, hd, hd', hn⟩)
    · exact hdrop.size.symm ▸ h.gone_lt hg
    · rcases hn with _ | ⟨-, hmem⟩
      · exact lt_size_of_destroyed hd'
      · exact hdrop.size.symm ▸ h.child_lt hmem
  · intro n hn
    rw [not_or] at hn
    refine Bool.eq_false_iff.mpr fun hd => hn.2 ⟨n, h.alive hn.1, hd, .self⟩
  · intro p c hc
    exact hdrop.size.symm ▸ h.child_lt (hdrop.subset hc)
  · intro p c hc
    exact (hdrop.link c).trans (h.child_link (hdrop.subset hc))
  · intro p c hc
    have hc := hdrop.subset hc
    refine or_congr (h.closed hc) ⟨?_, ?_⟩
    · rintro ⟨d, hd, hd', hunder⟩
      cases hunder with
      | self => exact hdrop.lister hd hd' hc
      | child hq hmem => exact h.parent_unique hmem hc ▸ ⟨d, hd, hd', hq⟩
    · rintro ⟨d, hd, hd', hunder⟩
      exact ⟨d, hd, hd', hunder.child hc⟩
  · intro p
    rcases hdrop.children p with hp | ⟨hp, -⟩
    · exact hp ▸ h.nodup p
    · exact hp ▸ List.nodup_nil
  · intro p c hl hc hp
    rw [not_or] at hc
    have halive : (t.node p).destroyed = false :=
      Bool.eq_false_iff.mpr fun hd => Bool.eq_false_iff.mp hp (hdrop.destroyed hd)
    have hmem := h.listed (hdrop.link c ▸ hl) hc.1 halive
    rw [hkept fun ⟨d, hd, hd', hunder⟩ => hc.2 ⟨d, hd, hd', hunder.child hmem⟩]
    exact hmem
  · intro p c hc hcycle
    exact h.acyclic (hdrop.subset hc) (hcycle.mono fun _ => hdrop.subset)

end LiveSpec.Markup.Tree
