import LiveSpec.Proofs.Results
import LiveSpec.Proofs.Tree.Linked

/-!
# Where listed nodes hang

In a `Tree.Hung` tree each listed node hangs where it is listed. That is one of the two directions
of `Tree.Linked`, and one that needs no exception: it holds of nodes that were cut off and of nodes
that were let go.

It is enough to say where the way up of a live node goes while its own children are moved: not
through them, since a child hangs below the node itself (`Moved.reachesTop`).
-/

namespace LiveSpec.Markup.Tree

variable {t t' : Tree} {gone : NodeId → Prop} {n m p x c d : NodeId}
  {put : List NodeId → List NodeId}

/-- A tree in which each listed node hangs where it is listed. -/
structure Hung (t : Tree) : Prop where
  child_lt {p c : NodeId} : c ∈ (t.node p).children → c < t.nodes.size
  child_link {p c : NodeId} : c ∈ (t.node p).children → (t.node c).link = .below p

theorem Linked.hung (h : t.Linked gone) : t.Hung := ⟨h.child_lt, h.child_link⟩

theorem Coherent.hung (h : t.Coherent) : t.Hung := ⟨h.child_lt, h.child_link⟩

namespace Hung

variable (h : t.Hung)
include h

theorem parent_unique {q : NodeId} (hp : c ∈ (t.node p).children)
    (hq : c ∈ (t.node q).children) : p = q :=
  Link.below.inj ((h.child_link hp).symm.trans (h.child_link hq))

/-- What hangs at the top is listed nowhere. -/
theorem unlisted (hc : t.IsTop c) : c ∉ (t.node p).children := by
  intro hmem
  have hl := h.child_link hmem
  rw [hc.link] at hl
  cases hl

theorem above_ne_top (hc : c ∈ (t.node p).children) : t.above c ≠ .top := by
  unfold above
  rw [h.child_link hc]
  dsimp only
  split <;> simp

theorem add (s : Content) : (t.add s).2.Hung := by
  have hold : ∀ {p c}, c ∈ ((t.add s).2.node p).children →
      c ∈ (t.node p).children := fun {p c} hc => by
    rwa [children_add] at hc
  constructor
  · intro p c hc
    rw [size_add]
    exact Nat.lt_succ_of_lt (h.child_lt (hold hc))
  · intro p c hc
    rw [node_add_of_lt s (h.child_lt (hold hc))]
    exact h.child_link (hold hc)

omit h in
theorem of_sameShape (hs : t.SameShape t') (h : t.Hung) : t'.Hung := by
  constructor
  · intro p c hc
    rw [hs.children] at hc
    rw [hs.size]
    exact h.child_lt hc
  · intro p c hc
    rw [hs.children] at hc
    rw [hs.link]
    exact h.child_link hc

/-- A node at the top can be hung in anywhere. -/
theorem hang (hc : t.IsTop c) (hp : p < t.nodes.size)
    (hput : (put (t.node p).children).Perm (c :: (t.node p).children)) : (t.hang c p put).Hung := by
  constructor
  · intro q x hx
    rw [size_hang]
    rcases (mem_children_hang hp hput).mp hx with hx | ⟨-, rfl⟩
    · exact h.child_lt hx
    · exact hc.lt
  · intro q x hx
    rw [link_hang put hc.lt]
    rcases (mem_children_hang hp hput).mp hx with hx | ⟨rfl, rfl⟩
    · rw [if_neg fun he => h.unlisted hc (he ▸ hx)]
      exact h.child_link hx
    · exact if_pos rfl

theorem move (hne : n ≠ d) (hmoved : Moved n d t t') : t'.Hung := by
  constructor
  · intro q x hx
    rw [hmoved.size]
    obtain ⟨-, hx | ⟨-, hx⟩⟩ := (hmoved.mem_children hne).mp hx
    · exact h.child_lt hx
    · exact h.child_lt hx
  · intro q x hx
    rw [hmoved.node]
    dsimp only
    obtain ⟨hqn, hx | ⟨rfl, hx⟩⟩ := (hmoved.mem_children hne).mp hx
    · rw [if_neg fun hn => hqn (h.parent_unique hx hn)]
      exact h.child_link hx
    · exact if_pos hx

/-- Handing the children of a node over to itself changes nothing. -/
theorem moveChildren_self (hok : t.moveChildren n n = .ok t') : t' = t := by
  obtain ⟨_, -, hok⟩ := Except.bind_eq_ok.mp hok
  obtain ⟨_, -, hok⟩ := Except.bind_eq_ok.mp hok
  obtain rfl := Except.ok.inj hok
  refine ext_node ?_ fun m => ?_
  · exact (size_modifyChildren ..).trans ((size_setLinks ..).trans (size_modifyChildren ..))
  · show (((t.modifyChildren n fun _ => []).setLinks (t.node n).children
      (.below n)).modifyChildren n
      (· ++ (t.node n).children)).node m = _
    rw [node_modifyChildren, node_setLinks, node_modifyChildren, size_setLinks, size_modifyChildren]
    -- a child hung below the node before its link was written
    have hlink :
        m ∈ (t.node n).children → { t.node m with link := .below n } = t.node m := fun hm => by
      rw [← h.child_link hm]
    by_cases hnm : n = m ∧ m < t.nodes.size
    · obtain ⟨rfl, hlt⟩ := hnm
      by_cases hmem : n ∈ (t.node n).children
      · simpa [hlt, hmem] using hlink hmem
      · simp [hlt, hmem]
    · rw [if_neg hnm, if_neg hnm]
      split
      · next hm => exact hlink hm.1
      · rfl

/-! ## The way up while children are moved -/

/-- A way up that reaches the top reaches it after the children of one node were moved to a node at
the top. -/
theorem reachesTop_move (hmoved : Moved n d t t') (hd : t.IsTop d)
    (hdestroyed : (t.node d).destroyed = false) {fuel : Nat} (hx : t.reachesTop fuel x = true) :
    t'.reachesTop fuel x = true := by
  have hlink : ∀ y, (t'.node y).link = if y ∈ (t.node n).children then .below d else
      (t.node y).link := fun y => by
    rw [hmoved.node]
  have hgone : ∀ y, (t'.node y).destroyed = (t.node y).destroyed := fun y => by rw [hmoved.node]
  have htop : t'.above d = .top := by
    unfold above
    rw [hlink, if_neg (h.unlisted hd), hd.link]
  induction fuel generalizing x with
  | zero => cases hx
  | succ fuel ih =>
    by_cases hmem : x ∈ (t.node n).children
    · -- the old way went on to `n`, so at least one step is left for the new one, which ends at `d`
      have hup : t'.above x = .parent d := by
        unfold above
        rw [hlink, if_pos hmem]
        simp [hgone, hdestroyed]
      have hold : t.above x ≠ .top := h.above_ne_top hmem
      cases fuel with
      | zero => cases habove : t.above x <;> simp [reachesTop, habove] at hx hold
      | succ fuel => simp [reachesTop, hup, htop]
    · have hup : t'.above x = t.above x := by
        unfold above
        rw [hlink, if_neg hmem]
        cases (t.node x).link <;> simp [hgone]
      unfold reachesTop at hx ⊢
      rw [hup]
      cases habove : t.above x with
      | top => rfl
      | lost => simp [habove] at hx
      | parent p =>
        rw [habove] at hx
        exact ih hx

theorem isLive_move (hmoved : Moved n d t t') (hd : t.IsTop d)
    (hdestroyed : (t.node d).destroyed = false) (hx : t.isLive x = true) : t'.isLive x = true := by
  unfold isLive at hx ⊢
  rw [hmoved.size]
  exact h.reachesTop_move hmoved hd hdestroyed hx

end Hung

/-- The children of a live node can be moved to another node at the top. -/
theorem Hung.moveChildren_eq (h : t.Hung) (hn : t.isLive n = true) (hlt : n < t.nodes.size)
    (hd : t.IsTop d) (hne : n ≠ d) : ∃ t', t.moveChildren n d = .ok t' ∧ Moved n d t t' := by
  have hlive : t.isLive d = true := by
    unfold isLive reachesTop above
    rw [hd.link]
  refine ⟨_, ?_, moved_of_writes (fun _ hc => h.child_lt hc) hlt hd.lt hne⟩
  unfold moveChildren
  rw [ensureLive_bind_of_isLive hn, ensureLive_bind_of_isLive hlive]
  rfl

end LiveSpec.Markup.Tree
