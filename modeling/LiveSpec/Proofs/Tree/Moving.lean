import LiveSpec.Proofs.Tree.Edits

/-!
# What stands when nodes are moved

Painting moves the children of a failed element into a new one, and hangs that one into the element.
In the middle, the children stand below a node that hangs at the top. Through both edits what stood
before stands, and nothing else does (`standing_moveChildren_iff`, `standing_hang_iff`).
-/

namespace LiveSpec.Markup.Tree

variable {t t' : Tree} {n m p q r x c d : NodeId}

/-! ## Hanging in -/

theorem Under.mono (h : ∀ p, (t.node p).children ⊆ (t'.node p).children) (hx : t.Under n x) :
    t'.Under n x := by
  induction hx with
  | self => exact .self
  | child _ hc ih => exact .child ih (h _ hc)

/-- What lies under one top node lies under no other. -/
theorem Coherent.not_under_of_isTop (ht : t.Coherent) (hr : t.IsTop r) (hc : t.IsTop c)
    (hne : r ≠ c) (hx : t.Under r x) : ¬ t.Under c x := by
  intro hcx
  rcases ht.under_total ⟨r, hr, hx⟩ hcx hx with h | h
  · obtain rfl | ⟨b, hb, hbr⟩ := h.eq_or_below
    · exact hne rfl
    · cases hbr with
      | self => exact ht.top_not_listed hr hb
      | child _ hlast => exact ht.top_not_listed hr hlast
  · cases h with
    | self => exact hne rfl
    | child _ hlast => exact ht.top_not_listed hc hlast

section

variable {put : List NodeId → List NodeId}

/-- A loose node, hung below one that stands elsewhere, takes nothing away from what stands. -/
theorem standing_hang_iff (hc : t.Loose c) (hp : t.Standing p) (hplt : p < t.nodes.size)
    (hcp : ¬ t.Under c p) (hput : (put (t.node p).children).Perm (c :: (t.node p).children)) :
    (t.hang c p put).Standing x ↔ t.Standing x := by
  refine ⟨standing_of_standing_hang hc hplt hput, fun hx => ?_⟩
  have hsub : ∀ q, (t.node q).children ⊆ ((t.hang c p put).node q).children := fun q y hy =>
    (mem_children_hang hplt hput).mpr (.inl hy)
  have htop : ∀ {r}, t.IsTop r → r ≠ c → (t.hang c p put).IsTop r := fun hr hne =>
    (isTop_hang_iff put hc.lt).mpr ⟨hr, hne⟩
  obtain ⟨r, hr, hrp⟩ := hp
  have hrc : r ≠ c := fun he => hcp (he ▸ hrp)
  have hp' : (t.hang c p put).Standing p := ⟨r, htop hr hrc, hrp.mono hsub⟩
  refine hx.of_closed (fun {q} hq => ?_) fun hq hy => hq.child (hsub _ hy)
  by_cases hqc : q = c
  · exact hp'.child ((mem_children_hang hplt hput).mpr (.inr ⟨rfl, hqc⟩))
  · exact (htop hq hqc).standing

end

/-! ## Moving children -/

/-- The nodes after the children of one node went to the end of another. -/
structure Moved (n d : NodeId) (t t' : Tree) : Prop where
  size : t'.nodes.size = t.nodes.size
  node (m : NodeId) : t'.node m =
    { t.node m with
      link := if m ∈ (t.node n).children then .below d else (t.node m).link
      children :=
        if m = n then [] else if m = d then (t.node d).children ++ (t.node n).children else
          (t.node m).children }

/-- The writes that move children: the list is emptied, the links turn, and the list goes to the end
of another. -/
theorem moved_of_writes (hlt : ∀ c ∈ (t.node n).children, c < t.nodes.size) (hn : n < t.nodes.size)
    (hd : d < t.nodes.size) (hne : n ≠ d) :
    Moved n d t
      (((t.modifyChildren n fun _ => []).setLinks (t.node n).children (.below d)).modifyChildren d
      (· ++ (t.node n).children)) := by
  refine ⟨(size_modifyChildren ..).trans ((size_setLinks ..).trans (size_modifyChildren ..)),
    fun m => ?_⟩
  rw [node_modifyChildren, node_setLinks, node_modifyChildren, size_setLinks, size_modifyChildren]
  by_cases hm : m < t.nodes.size
  · by_cases hmn : m = n
    · subst hmn
      by_cases hmem : m ∈ (t.node m).children <;> simp [hm, hmem, Ne.symm hne]
    · by_cases hmd : m = d
      · subst hmd
        by_cases hmem : m ∈ (t.node n).children <;> simp [hm, hmem, hmn, Ne.symm hmn]
      · by_cases hmem : m ∈ (t.node n).children <;> simp [hm, hmem, hmn, hmd, Ne.symm hmn,
          Ne.symm hmd]
  · have hmem : m ∉ (t.node n).children := fun h => hm (hlt m h)
    have hmn : m ≠ n := fun h => hm (h ▸ hn)
    have hmd : m ≠ d := fun h => hm (h ▸ hd)
    simp [hm, hmem, hmn, hmd]

/-- The children of a standing node can be moved to a top node. -/
theorem Coherent.moveChildren_eq (ht : t.Coherent) (hn : t.Standing n) (hd : t.IsTop d)
    (hne : n ≠ d) :
    ∃ t', t.moveChildren n d = .ok t' ∧ Moved n d t t' := by
  refine ⟨_, ?_, moved_of_writes (fun _ hc => ht.child_lt hc) (ht.standing_lt hn) hd.lt hne⟩
  unfold moveChildren
  rw [ensureLive_bind_of_isLive (ht.isLive_of_standing hn),
    ensureLive_bind_of_isLive (ht.isLive_of_standing hd.standing)]
  rfl

namespace Moved

variable (h : Moved n d t t')
include h

theorem mem_children (hne : n ≠ d) :
    x ∈ (t'.node p).children ↔ p ≠ n ∧ (x ∈ (t.node p).children ∨ p = d ∧
      x ∈ (t.node n).children) := by
  rw [h.node]
  dsimp only
  by_cases hpn : p = n
  · simp [hpn]
  · by_cases hpd : p = d
    · simp [hpd, Ne.symm hne]
    · simp [hpn, hpd]

theorem isTop_iff (ht : t.Coherent) : t'.IsTop x ↔ t.IsTop x := by
  constructor
  · intro hx
    have hl := hx.link
    rw [h.node] at hl
    dsimp only at hl
    split at hl
    · cases hl
    · exact ⟨h.size ▸ hx.lt, hl⟩
  · intro hx
    refine ⟨h.size.symm ▸ hx.lt, ?_⟩
    rw [h.node]
    dsimp only
    rw [if_neg (ht.top_not_listed hx)]
    exact hx.link

variable (ht : t.Coherent) (hn : t.Standing n) (hd : t.IsTop d) (hne : n ≠ d)
include ht hn hd hne

theorem standing_iff : t'.Standing x ↔ t.Standing x := by
  constructor
  · refine .of_closed (fun hr => ((h.isTop_iff ht).mp hr).standing) fun hp hc => ?_
    obtain ⟨-, hc | ⟨-, hc⟩⟩ := (h.mem_children hne).mp hc
    · exact hp.child hc
    · exact hn.child hc
  · have hd' : t'.Standing d := ((h.isTop_iff ht).mpr hd).standing
    refine .of_closed (fun hr => ((h.isTop_iff ht).mpr hr).standing) fun {p c} hp hc => ?_
    by_cases hpn : p = n
    · subst hpn
      exact hd'.child ((h.mem_children hne).mpr ⟨Ne.symm hne, .inr ⟨rfl, hc⟩⟩)
    · exact hp.child ((h.mem_children hne).mpr ⟨hpn, .inl hc⟩)

omit hd in
/-- The way down to the node whose children leave does not pass its children. -/
theorem under (hr : t.Under r x) (hx : t.Under x n) : t'.Under r x := by
  induction hr with
  | self => exact .self
  | @child p c _ hc ih =>
    refine .child (ih ((Under.of_mem_children hc).trans hx))
      ((h.mem_children hne).mpr ⟨?_, .inl hc⟩)
    rintro rfl
    exact ht.not_under_child hn hc hx

theorem coherent : t'.Coherent := by
  have hdestroyed : ∀ m, (t'.node m).destroyed = (t.node m).destroyed := fun m => by rw [h.node]
  have hlink : ∀ m, (t'.node m).link = if m ∈ (t.node n).children then .below d else
      (t.node m).link :=
    fun m => by rw [h.node]
  refine
    { root_content := ?_, root_top := ?_, top_alive := ?_, child_lt := ?_, child_link := ?_,
      child_alive := ?_, nodup := ?_, parent_lt := ?_, listed := ?_ }
  · rw [h.node]; exact ht.root_content
  · exact (h.isTop_iff ht).mpr ht.root_top
  · intro r hr; rw [hdestroyed]; exact ht.top_alive ((h.isTop_iff ht).mp hr)
  · intro p x hx
    rw [h.size]
    obtain ⟨-, hx | ⟨-, hx⟩⟩ := (h.mem_children hne).mp hx
    · exact ht.child_lt hx
    · exact ht.child_lt hx
  · intro p x hx
    obtain ⟨hpn, hx | ⟨rfl, hx⟩⟩ := (h.mem_children hne).mp hx
    · rw [hlink, if_neg fun hc => hpn (ht.parent_unique hx hc)]
      exact ht.child_link hx
    · rw [hlink, if_pos hx]
  · intro p x hx
    rw [hdestroyed]
    obtain ⟨-, hx | ⟨-, hx⟩⟩ := (h.mem_children hne).mp hx
    · exact ht.child_alive hx
    · exact ht.child_alive hx
  · intro p
    rw [h.node]
    dsimp only
    split
    · exact List.nodup_nil
    · split
      · -- the two lists that are joined belong to different nodes
        refine List.nodup_append.mpr ⟨ht.nodup d, ht.nodup n, fun a ha b hb hab => ?_⟩
        subst hab
        exact hne (ht.parent_unique hb ha)
      · exact ht.nodup p
  · intro x p hl
    rw [hlink] at hl
    rw [h.size]
    split at hl
    · cases hl; exact hd.lt
    · exact ht.parent_lt hl
  · intro x p hl hp
    rw [hlink] at hl
    have hp := (h.standing_iff ht hn hd hne).mp hp
    refine (h.mem_children hne).mpr ?_
    split at hl
    · next hmem =>
      cases hl
      exact ⟨Ne.symm hne, .inr ⟨rfl, hmem⟩⟩
    · next hmem =>
      have hx := ht.listed hl hp
      exact ⟨fun he => hmem (he ▸ hx), .inl hx⟩

end Moved
end LiveSpec.Markup.Tree
