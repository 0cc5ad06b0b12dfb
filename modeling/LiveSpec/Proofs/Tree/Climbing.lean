import LiveSpec.Proofs.Tree.Linked

/-!
# The way up

A node is live if the way up from it ends at the top. `Tree.Climb` counts the steps of such a way.
The count is unique, so a way up meets no node twice, and the liveness check, which gives up after
as many steps as the table has nodes, gives up on none (`isLive_iff_climb`).

`Tree.HangsUnder` follows the links alone, also to nodes that were destroyed. A way up is intact if
no node on it is cut off or destroyed (`Tree.Intact`). In a tree whose ways up make no cycle, the
nodes with an intact way up are the live ones (`Acyclic.isLive_iff`).
-/

namespace LiveSpec.Markup.Tree

variable {t t' : Tree} {x p a : NodeId} {k j fuel : Nat}

/-- The way up from a node ends at the top after so many steps. -/
inductive Climb (t : Tree) : NodeId → Nat → Prop
  | top {x : NodeId} (h : t.above x = .top) : Climb t x 0
  | step {x p : NodeId} {k : Nat} (h : t.above x = .parent p) (hp : Climb t p k) : Climb t x (k + 1)

theorem above_eq_top_iff : t.above x = .top ↔ (t.node x).link = .top := by
  unfold above
  cases (t.node x).link with
  | top => exact iff_of_true rfl rfl
  | cut => exact iff_of_false nofun nofun
  | below p =>
    refine iff_of_false (fun h => ?_) nofun
    dsimp only at h
    split at h <;> cases h

section

-- what hangs below a node hangs below one of the table
variable (hlt : ∀ {n p : NodeId}, (t.node n).link = .below p → p < t.nodes.size)

namespace Climb

theorem unique (h : t.Climb x k) (h' : t.Climb x j) : k = j := by
  induction h generalizing j with
  | top hup =>
    cases h' with
    | top => rfl
    | step hup' _ => exact absurd (hup.symm.trans hup') nofun
  | step hup _ ih =>
    cases h' with
    | top hup' => exact absurd (hup'.symm.trans hup) nofun
    | step hup' hp => exact congrArg (· + 1) (ih (Upward.parent.inj (hup.symm.trans hup') ▸ hp))

include hlt in
/-- The nodes on the way up, all different: each of them has its own number of steps left. -/
theorem exists_path (h : t.Climb x k) :
    ∃ l : List NodeId, l.length = k ∧ l.Nodup ∧ ∀ y ∈ l, y < t.nodes.size ∧
      ∃ j < k, t.Climb y j := by
  induction h with
  | top => exact ⟨[], rfl, List.nodup_nil, nofun⟩
  | @step x p k hup hp ih =>
    obtain ⟨l, hlen, hnodup, hl⟩ := ih
    have hnew : p ∉ l := fun hmem => by
      obtain ⟨-, j, hj, hpj⟩ := hl p hmem
      exact Nat.ne_of_lt hj (hpj.unique hp)
    refine ⟨p :: l, congrArg (· + 1) hlen, List.nodup_cons.mpr ⟨hnew, hnodup⟩, fun y hy => ?_⟩
    rcases List.mem_cons.mp hy with rfl | hy
    · exact ⟨hlt (above_eq_parent_iff.mp hup).1, k, Nat.lt_succ_self k, hp⟩
    · obtain ⟨hy, j, hj, hyj⟩ := hl y hy
      exact ⟨hy, j, Nat.lt_succ_of_lt hj, hyj⟩

include hlt in
/-- The pigeonhole: a way up has no more steps than the table has nodes. -/
theorem le_size (h : t.Climb x k) : k ≤ t.nodes.size := by
  obtain ⟨l, rfl, hnodup, hl⟩ := h.exists_path hlt
  have hsub : l ⊆ List.range t.nodes.size := fun y hy => List.mem_range.mpr (hl y hy).1
  simpa using hnodup.length_le_of_subset hsub

theorem reachesTop (h : t.Climb x k) (hk : k < fuel) : t.reachesTop fuel x = true := by
  induction h generalizing fuel with
  | top hup =>
    obtain ⟨fuel, rfl⟩ := Nat.exists_eq_succ_of_ne_zero (Nat.ne_zero_of_lt hk)
    rw [Tree.reachesTop, hup]
  | step hup _ ih =>
    obtain ⟨fuel, rfl⟩ := Nat.exists_eq_succ_of_ne_zero (Nat.ne_zero_of_lt hk)
    rw [Tree.reachesTop, hup]
    exact ih (Nat.lt_of_succ_lt_succ hk)

/-- A way up is there as well in a tree that has the same steps on it. -/
theorem of_above (h : t.Climb x k) (hsame : ∀ {y j}, t.Climb y j → t'.above y = t.above y) :
    t'.Climb x k := by
  induction h with
  | top hup => exact .top ((hsame (.top hup)).trans hup)
  | step hup hp ih => exact .step ((hsame (.step hup hp)).trans hup) ih

end Climb

theorem exists_climb_of_reachesTop (h : t.reachesTop fuel x = true) : ∃ k, t.Climb x k := by
  induction fuel generalizing x with
  | zero => cases h
  | succ fuel ih =>
    rw [reachesTop] at h
    cases hup : t.above x with
    | top => exact ⟨0, .top hup⟩
    | lost => rw [hup] at h; cases h
    | parent p =>
      rw [hup] at h
      obtain ⟨k, hk⟩ := ih h
      exact ⟨k + 1, .step hup hk⟩

include hlt in
/-- **A node is live if and only if the way up from it ends at the top.** -/
theorem isLive_iff_climb : t.isLive x = true ↔ ∃ k, t.Climb x k :=
  ⟨exists_climb_of_reachesTop, fun ⟨_, hk⟩ => hk.reachesTop (Nat.lt_succ_of_le (hk.le_size hlt))⟩

/-! ## Trees without cycles -/

/-- A tree in which no way up comes back to where it began. -/
def Acyclic (t : Tree) : Prop := ∀ n, ¬ Relation.TransGen (fun c p => t.above c = .parent p) n n

/-- The node `a` is `x`, or one that `x` hangs below, over any number of links. -/
def HangsUnder (t : Tree) (x a : NodeId) :
    Prop := Relation.ReflTransGen (fun c p => (t.node c).link = .below p) x a

theorem HangsUnder.self_or_link (h : t.HangsUnder x a) :
    a = x ∨ ∃ p, (t.node x).link = .below p ∧ t.HangsUnder p a := by
  rcases Relation.ReflTransGen.cases_head h with rfl | hstep
  · exact .inl rfl
  · exact .inr hstep

theorem HangsUnder.of_link (hl : (t.node x).link = .below p) (h : t.HangsUnder p a) :
    t.HangsUnder x a :=
  Relation.ReflTransGen.head hl h

/-- None of the nodes that `x` hangs under, itself included, is cut off or destroyed. -/
def Intact (t : Tree) (x : NodeId) : Prop :=
  ∀ a, t.HangsUnder x a → (t.node a).link ≠ .cut ∧ (t.node a).destroyed = false

theorem Intact.parent (h : t.Intact x) (hl : (t.node x).link = .below p) : t.Intact p := fun a ha =>
  h a (.of_link hl ha)

include hlt in
/-- A tree in which each node hangs below an earlier one has no cycle. -/
theorem acyclic_of_lt (h : ∀ c < t.nodes.size, ∀ p < t.nodes.size, (t.node c).link = .below p →
    p < c) : t.Acyclic := by
  have hup : ∀ {c p}, t.above c = .parent p → p < c := fun {c p} hcp => by
    have hl := (above_eq_parent_iff.mp hcp).1
    refine h c (Nat.lt_of_not_le fun hle => ?_) p (hlt hl) hl
    rw [node_of_size_le _ _ hle] at hl
    cases hl
  have hchain : ∀ {a b}, Relation.TransGen (fun c p => t.above c = .parent p) a b →
      b < a := fun hab => by
    induction hab with
    | single hcp => exact hup hcp
    | tail _ hcp ih => exact Nat.lt_trans (hup hcp) ih
  exact fun n hn => Nat.lt_irrefl n (hchain hn)

/-- A way up that ends at the top is intact. -/
theorem Climb.intact (h : t.Climb x k) (hx : (t.node x).destroyed = false) : t.Intact x := by
  intro a ha
  induction h with
  | top hup =>
    rw [above_eq_top_iff] at hup
    rcases ha.self_or_link with rfl | ⟨p, hl, -⟩
    · exact ⟨hup ▸ nofun, hx⟩
    · exact absurd (hup.symm.trans hl) nofun
  | step hup _ ih =>
    obtain ⟨hlink, hp⟩ := above_eq_parent_iff.mp hup
    rcases ha.self_or_link with rfl | ⟨q, hl, ha⟩
    · exact ⟨hlink ▸ nofun, hx⟩
    · obtain rfl := Link.below.inj (hlink.symm.trans hl)
      exact ih hp ha

/-- A node goes up to the top if its way is intact and the node above it goes up to the top. -/
theorem Intact.exists_climb_of_above (h : t.Intact x)
    (hup : ∀ p, t.above x = .parent p → ∃ k, t.Climb p k) :
    ∃ k, t.Climb x k := by
  cases hl : (t.node x).link with
  | top => exact ⟨0, .top (above_eq_top_iff.mpr hl)⟩
  | cut => exact absurd hl (h x .refl).1
  | below p =>
    have habove := above_eq_parent_iff.mpr ⟨hl, (h.parent hl p .refl).2⟩
    obtain ⟨k, hk⟩ := hup p habove
    exact ⟨k + 1, .step habove hk⟩

include hlt in
/-- In a tree without cycles, an intact way up ends at the top. -/
theorem Acyclic.exists_climb (ht : t.Acyclic) (hx : t.Intact x) : ∃ k, t.Climb x k := by
  -- being strictly above is an order, as there is no cycle, and no descent in it is endless, as the
  -- table is finite
  let Above : NodeId → NodeId → Prop := fun y z => Relation.TransGen
    (fun c p => t.above c = .parent p) z y
  have horder : IsStrictOrder NodeId Above :=
    { irrefl := ht, trans := fun _ _ _ hab hbc => Relation.TransGen.trans hbc hab }
  have hwf : (Set.Iio t.nodes.size).WellFoundedOn Above := (Set.finite_Iio _).wellFoundedOn
  have hbelow : ∀ {y p}, t.Intact y → t.above y = .parent p → p < t.nodes.size ∧
      t.Intact p := fun hy hup => by
    have hl := (above_eq_parent_iff.mp hup).1
    exact ⟨hlt hl, hy.parent hl⟩
  have htable : ∀ p < t.nodes.size, t.Intact p → ∃ k, t.Climb p k := fun p hp =>
    hwf.induction (P := fun y => t.Intact y → ∃ k, t.Climb y k) hp fun y _ ih hy =>
      hy.exists_climb_of_above fun q hup => ih q (hbelow hy hup).1 (.single hup) (hbelow hy hup).2
  exact hx.exists_climb_of_above fun p hup => htable p (hbelow hx hup).1 (hbelow hx hup).2

include hlt in
/-- **In a tree without cycles a node is live if and only if its way up is intact.** -/
theorem Acyclic.isLive_iff (ht : t.Acyclic) (hx : (t.node x).destroyed = false) :
    t.isLive x = true ↔ t.Intact x := by
  rw [isLive_iff_climb hlt]
  exact ⟨fun ⟨_, hk⟩ => hk.intact hx, ht.exists_climb hlt⟩

end

end LiveSpec.Markup.Tree
