import LiveSpec.Proofs.Run.Alone
import LiveSpec.Proofs.Table.Layout

/-!
# How a run goes on

A run goes on (`RunState.Onward`) from a state to another one: the tree stays sound and its old
nodes stay what and where they were, and visits and outcomes are only added. Every deed at an
element of a sound tree is such a step (`Leads.of_deeds`).

Deeds at elements that are no rows also spare the rows of tables: a row that still stands after them
has the cells that it had, unless one of the elements is its child (`Spares.of_deeds`). This is why
the commands that run on the cells of one row leave the layout of the others alone.
-/

namespace LiveSpec

open Markup (NodeId Tree)
open TableLayout (cellsOf)

variable {φ : Type} {s s' s'' : RunState φ} {n : NodeId} {ns : List NodeId}

/-- A later state of a run. -/
structure RunState.Onward (s s' : RunState φ) : Prop where
  tree : s.tree.Onward s'.tree
  sound : s'.tree.Sound
  visits : s.visits <+: s'.visits
  outcomes : s.record.outcomes <+: s'.record.outcomes

theorem RunState.Onward.trans (h : s.Onward s') (h' : s'.Onward s'') : s.Onward s'' :=
  ⟨h.tree.trans h'.tree, h'.sound, h.visits.trans h'.visits, h.outcomes.trans h'.outcomes⟩

/-- A state in which something was noted, and nothing else was done. -/
structure Notes (s s' : RunState φ) : Prop where
  tree : s'.tree = s.tree
  visits : s.visits <+: s'.visits
  outcomes : s.record.outcomes <+: s'.record.outcomes

instance : IsPreorder (RunState φ) Notes where
  refl _ := ⟨rfl, List.prefix_rfl, List.prefix_rfl⟩
  trans _ _ _ h h' := ⟨h'.tree.trans h.tree, h.visits.trans h'.visits, h.outcomes.trans h'.outcomes⟩

theorem Notes.of_reports (h : Reports n s s') : Notes s s' := by
  obtain ⟨xs, -, hxs⟩ := h.outcomes
  exact ⟨h.tree, h.visits ▸ List.prefix_rfl, hxs ▸ List.prefix_append ..⟩

theorem Notes.of_quiet (h : Quiet s s') : Notes s s' :=
  ⟨h.tree, h.visits ▸ List.prefix_rfl, h.record ▸ List.prefix_rfl⟩

theorem Notes.onward (h : Notes s s') (hs : s.tree.Sound) : s.Onward s' :=
  ⟨h.tree ▸ .refl, h.tree ▸ hs, h.visits, h.outcomes⟩

/-- A change of the tree alone. -/
theorem RunState.Onward.of_tree {t : Tree} (h : s.tree.Onward t) (ht : t.Sound) :
    s.Onward { s with tree := t } :=
  ⟨h, ht, List.prefix_rfl, List.prefix_rfl⟩

/-- What nobody held was let go, and nothing else was done. -/
structure Tidied (s s' : RunState φ) : Prop where
  tree : ∃ held, s'.tree = s.tree.release held
  visits : s'.visits = s.visits
  record : s'.record = s.record

theorem Tidied.released (h : Tidied s s') (hs : s.tree.Sound) : s.tree.Released s'.tree := by
  obtain ⟨held, ht⟩ := h.tree
  exact ht ▸ hs.released

theorem Tidied.onward (h : Tidied s s') (hs : s.tree.Sound) : s.Onward s' :=
  ⟨(h.released hs).onward, (h.released hs).sound hs, h.visits ▸ List.prefix_rfl,
    h.record ▸ List.prefix_rfl⟩

/-! ## Deeds at elements -/

/-- From a sound tree, with some nodes among its elements, the run goes on. -/
def Leads (ns : List NodeId) (s s' : RunState φ) : Prop :=
  s.tree.Sound → (∀ n ∈ ns, s.tree.isElement n = true) → s.Onward s'

instance : IsPreorder (RunState φ) (Leads ns) where
  refl _ hs _ := ⟨.refl, hs, List.prefix_rfl, List.prefix_rfl⟩
  trans _ _ _ h h' hs hn := by
    have hgo := h hs hn
    exact hgo.trans (h' hgo.sound fun n hmem => hgo.tree.element (hn n hmem))

/-- The state after a deed. -/
theorem Deed.onward (h : Deed n s s') (hs : s.tree.Sound) (hn : s.tree.isElement n = true) :
    s.Onward s' := by
  have hlt := Tree.lt_size_of_isElement hn
  cases h with
  | report r => exact (Notes.of_reports r).onward hs
  | fill text h => exact h ▸ .of_tree (hs.onward_setText hlt text) (hs.setText hlt text)
  | remove t ht h =>
    have hp := hs.pruned_remove hn ht
    exact h ▸ .of_tree hp.onward (hp.sound hs)
  | tidy held h =>
    have hr : s.tree.Released (s.tree.release held) := hs.released
    exact h ▸ .of_tree hr.onward (hr.sound hs)

theorem Leads.of_deeds (hn : n ∈ ns) (h : Deeds n s s') : Leads ns s s' := by
  induction h with
  | refl => exact refl_of (Leads ns) s
  | tail _ hd ih => exact trans_of (Leads ns) ih fun hs hns => hd.onward hs (hns n hn)

theorem Leads.of_notes (h : Notes s s') : Leads ns s s' := fun hs _ => h.onward hs

/-! ## Rows that are spared -/

/-- Some elements that are no rows. -/
def Rowless (t : Tree) (ns : List NodeId) : Prop :=
  ∀ n ∈ ns, t.isElement n = true ∧ t.isNamed n "tr" = false

theorem Rowless.mono {t t' : Tree} (h : Rowless t ns) (hgo : t.Onward t') :
    Rowless t' ns := fun n hn =>
  ⟨hgo.element (h n hn).1,
    (hgo.isNamed (Tree.lt_size_of_isElement (h n hn).1) "tr").trans (h n hn).2⟩

/-- The rows of a tree, less those that have one of some nodes for a child, keep their cells if they
stand. -/
def SparesRows (ns : List NodeId) (t t' : Tree) : Prop :=
  ∀ x, x < t.nodes.size → t.isNamed x "tr" = true → t'.Standing x →
    (∀ n ∈ ns, n ∉ (t.node x).children) →
    cellsOf t' x = cellsOf t x

theorem SparesRows.trans {t t' t'' : Tree} (hgo : t.Onward t') (hgo' : t'.Onward t'')
    (ht' : t'.Coherent) (ht'' : t''.Coherent) (hns : ∀ n ∈ ns, n < t.nodes.size)
    (h : SparesRows ns t t') (h' : SparesRows ns t' t'') :
    SparesRows ns t t'' := fun x hx hrow hs hout => by
  have hx' := Nat.lt_of_lt_of_le hx hgo.size_le
  have hs' := hgo'.standing ht' ht'' hx' hs
  rw [h' x hx' ((hgo.isNamed hx "tr").trans hrow) hs fun n hn hmem =>
    hout n hn (hgo.children hx (hns n hn) hmem)]
  exact h x hx hrow hs' hout

/-- From a sound tree, with some elements that are no rows, the run goes on and spares the rows. -/
def Spares (ns : List NodeId) (s s' : RunState φ) : Prop :=
  s.tree.Sound → Rowless s.tree ns → s.Onward s' ∧ SparesRows ns s.tree s'.tree

instance : IsPreorder (RunState φ) (Spares ns) where
  refl _ hs _ := ⟨⟨.refl, hs, List.prefix_rfl, List.prefix_rfl⟩, fun _ _ _ _ _ => rfl⟩
  trans _ _ _ h h' hs hn := by
    obtain ⟨hgo, hsp⟩ := h hs hn
    obtain ⟨hgo', hsp'⟩ := h' hgo.sound (hn.mono hgo.tree)
    exact ⟨hgo.trans hgo', hsp.trans hgo.tree hgo'.tree hgo.sound.toCoherent hgo'.sound.toCoherent
      (fun n hmem => Tree.lt_size_of_isElement (hn n hmem).1) hsp'⟩

theorem Spares.of_notes (h : Notes s s') : Spares ns s s' := fun hs _ =>
  ⟨h.onward hs, fun _ _ _ _ _ => by rw [h.tree]⟩

/-- A row that keeps its children keeps its cells. -/
theorem cellsOf_of_onward {t t' : Tree} {x : NodeId} (ht : t.Coherent) (hgo : t.Onward t')
    (h : (t'.node x).children = (t.node x).children) : cellsOf t' x = cellsOf t x :=
  TableLayout.cellsOf_congr h fun _ hc => hgo.content (ht.child_lt hc)

theorem Spares.of_deed (hmem : n ∈ ns) (h : Deed n s s') : Spares ns s s' := fun hs hns => by
  obtain ⟨hn, hrow⟩ := hns n hmem
  have hgo := h.onward hs hn
  refine ⟨hgo, fun x hx hxrow hsx hout => cellsOf_of_onward hs.toCoherent hgo.tree ?_⟩
  cases h with
  | report r => rw [r.tree]
  | fill text h =>
    have hne : x ≠ n := by
      rintro rfl
      rw [hrow] at hxrow
      cases hxrow
    rw [h]
    exact Tree.children_setText (Tree.lt_size_of_isElement hn) hx hne text
  | remove t ht h =>
    rw [h]
    exact Tree.children_remove ht (hout n hmem)
  | tidy held h =>
    have hr : s.tree.Released (s.tree.release held) := hs.released
    rw [h] at hsx ⊢
    rw [hr.node (hr.standing_iff.mp hsx)]

theorem Spares.of_deeds (hmem : n ∈ ns) (h : Deeds n s s') : Spares ns s s' := by
  induction h with
  | refl => exact refl_of (Spares ns) s
  | tail _ hd ih => exact trans_of (Spares ns) ih (.of_deed hmem hd)

end LiveSpec
