import LiveSpec.Proofs.Run.Onward
import LiveSpec.Proofs.Tree.Staying

/-!
# What a run leaves alone

Of the built-in commands only `echo` replaces the content of an element, and only a comparison of
rows adds to the children of one. So a node that stood at some moment of a run stands later on,
unless an `echo` was executed at it or above it, and its children are what they were, unless a row
that was recorded as missing is one of them (`Framed`). The visits of a run say where an `echo` was
executed, and its record which rows are new; both only grow, so that parts of a run that leave alone
what is neither can be joined (`Framed.trans`).
-/

namespace LiveSpec

open Markup (NodeId Tree)

variable {φ : Type} {s s' s'' : RunState φ} {n x : NodeId} {ns : List NodeId}

/-- An `echo` was executed at an element or above it. -/
def RunState.Echoed (s : RunState φ) (t : Tree) (x : NodeId) : Prop :=
  ∃ o, (Phase.execute, o) ∈ s.visits ∧ o.command = .echo ∧ t.Under o.element x

/-- A row that was added for an item is one of the children of an element. -/
def Record.AddsRow (r : Record) (t : Tree) (x : NodeId) : Prop :=
  ∃ row key, (⟨row, .missingRow key⟩ : Recorded) ∈ r.outcomes ∧ row ∈ (t.node x).children

/-- A later state, in which all that was there is left alone but for the targets of an `echo`, and
for rows that were added. -/
structure Framed (s s' : RunState φ) : Prop where
  onward : s.Onward s'
  elements : Adds (fun r => s'.tree.isElement r.element = true) s s'
  standing {x : NodeId} : s.tree.Standing x → ¬ s'.Echoed s.tree x → s'.tree.Standing x
  children {x : NodeId} : s.tree.Standing x → ¬ s'.Echoed s.tree x →
    (s'.tree.node x).children = (s.tree.node x).children ∨ s'.record.AddsRow s'.tree x

theorem RunState.Echoed.mono {t : Tree} (h : s.Echoed t x) (hv : s.visits <+: s'.visits) :
    s'.Echoed t x := by
  obtain ⟨o, ho, hc, hu⟩ := h
  exact ⟨o, hv.subset ho, hc, hu⟩

/-- What lies below an element now lay below it before. -/
theorem RunState.Echoed.before {t t' : Tree} (h : s.Echoed t' x) (hgo : t.Onward t')
    (ht : t.Coherent) (ht' : t'.Coherent) (hx : x < t.nodes.size) : s.Echoed t x := by
  obtain ⟨o, ho, hc, hu⟩ := h
  exact ⟨o, ho, hc, hgo.under ht ht' hx hu⟩

namespace Framed

/-- Where everything stays but what lies below a target of an `echo`. -/
theorem of_stays (hgo : s.Onward s')
    (helements : Adds (fun r => s'.tree.isElement r.element = true) s s')
    (h : ∀ x, s.tree.Standing x → ¬ s'.Echoed s.tree x → s.tree.Stays s'.tree x) : Framed s s' :=
  ⟨hgo, helements, fun hx hout => (h _ hx hout).standing,
    fun hx hout => .inl (h _ hx hout).children⟩

theorem of_notes (hs : s.tree.Sound) (h : Notes s s')
    (helements : Adds (fun r => s'.tree.isElement r.element = true) s s') :
    Framed s s' :=
  .of_stays (h.onward hs) helements fun _ hx _ => .of_eq h.tree hx

theorem refl (hs : s.tree.Sound) : Framed s s := .of_notes hs (refl_of Notes s) (refl_of (Adds _) s)

theorem trans (hs : s.tree.Sound) (h : Framed s s') (h' : Framed s' s'') : Framed s s'' := by
  have hbefore : ∀ {x}, ¬ s''.Echoed s.tree x → ¬ s'.Echoed s.tree x :=
    fun hout he => hout (he.mono h'.onward.visits)
  have hafter : ∀ {x}, s.tree.Standing x → ¬ s''.Echoed s.tree x →
      ¬ s''.Echoed s'.tree x := fun hx hout he =>
    hout (he.before h.onward.tree hs.toCoherent h.onward.sound.toCoherent (hs.standing_lt hx))
  refine ⟨h.onward.trans h'.onward, ?_, fun hx hout => ?_, fun {x} hx hout => ?_⟩
  · refine trans_of (Adds _) (h.elements.mono fun r hr => h'.onward.tree.element hr) h'.elements
  · exact h'.standing (h.standing hx (hbefore hout)) (hafter hx hout)
  · rcases h'.children (h.standing hx (hbefore hout)) (hafter hx hout) with hsame | hadds
    · rcases h.children hx (hbefore hout) with hfirst | ⟨row, key, hrecorded, hrow⟩
      · exact .inl (hsame.trans hfirst)
      · exact .inr ⟨row, key, h'.onward.outcomes.subset hrecorded, hsame ▸ hrow⟩
    · exact .inr hadds

end Framed

/-- From a sound tree, with some nodes among its elements, all but the targets of an `echo` is left
alone. -/
def Frames (ns : List NodeId) (s s' : RunState φ) : Prop :=
  s.tree.Sound → (∀ n ∈ ns, s.tree.isElement n = true) → Framed s s'

instance : IsPreorder (RunState φ) (Frames ns) where
  refl _ hs _ := .refl hs
  trans _ _ _ h h' hs hns := by
    have hframed := h hs hns
    exact hframed.trans hs (h' hframed.onward.sound fun n hn =>
      hframed.onward.tree.element (hns n hn))

namespace Frames

theorem of_quiet (h : Quiet s s') : Frames ns s s' :=
  fun hs _ => .of_notes hs (.of_quiet h) (.none h.record)

theorem of_reports (hn : n ∈ ns) (h : Reports n s s') : Frames ns s s' := fun hs hns => by
  refine .of_notes hs (.of_reports h) ((Adds.of_deeds (.of_reports h)).mono fun r hr => ?_)
  rw [hr, h.tree]
  exact hns n hn

theorem of_tidied (h : Tidied s s') : Frames ns s s' := fun hs _ =>
  .of_stays (h.onward hs) (.none h.record) fun _ hx _ => (h.released hs).stays hx

theorem visited (s : RunState φ) (p : Phase) (o : Occurrence) :
    Frames ns s { s with visits := s.visits ++ [(p, o)] } :=
  fun hs _ => .of_notes hs ⟨rfl, List.prefix_append .., List.prefix_rfl⟩ (.none rfl)

end Frames

namespace Run

variable [Fixture φ] {env : Surroundings} {o : Occurrence} {p : Phase}

/-- What an `echo` comes to: a report at its element, or a text in it when it is executed, after
which what nobody holds is let go. -/
theorem echo_spec {u : Unit} (h : (echo env o p).Yields s u s') : Reports o.element s s' ∨
    p = .execute ∧ ∃ text s₁, Quiet s s₁ ∧
      Tidied { s₁ with tree := s₁.tree.setText o.element text } s' := by
  cases p with
  | setup | verify =>
    obtain ⟨-, rfl⟩ := yields_pure.mp h
    exact .inl (refl_of (Reports _) _)
  | execute =>
    obtain ⟨_, s₁, hbind, h₁⟩ := yields_bind.mp h
    obtain ⟨answer, s₂, heval, h₂⟩ := yields_bind.mp h₁
    have hquiet : Quiet s s₂ :=
      trans_of Quiet (bindElement_quiet.keeps hbind) (evaluate_quiet.keeps heval)
    have hfilled : ∀ {text : String} {u : Unit},
        (do change fun t => t.setText o.element text; tidy : Run φ Unit).Yields s₂ u s' →
        ∃ text s₁, Quiet s s₁ ∧ Tidied { s₁ with tree := s₁.tree.setText o.element text } s' :=
      fun {text u} h => by
      obtain ⟨_, s₃, hfill, htidy⟩ := yields_bind.mp h
      cases yields_change.mp hfill
      exact ⟨text, s₂, hquiet, ⟨_, congrArg RunState.tree (yields_modify.mp htidy)⟩, by
        rw [yields_modify.mp htidy],
        by rw [yields_modify.mp htidy]⟩
    cases answer with
    | ok v => exact .inr ⟨rfl, hfilled h₂⟩
    | error cause =>
      dsimp only at h₂
      split at h₂
      · exact .inr ⟨rfl, hfilled h₂⟩
      · exact .inl (trans_of (Reports _) (.of_quiet hquiet) (recordException_reports.keeps h₂))

/-- An `echo` leaves alone all that does not lie in its element. -/
theorem echo_frames (hc : o.command = .echo) (ho : o.element ∈ ns) :
    Keeps (Frames ns) (visit p o (echo env o p) : Run φ Unit) := fun s u s' hy => by
  rw [yields_visit] at hy
  rcases echo_spec hy with hreports | ⟨rfl, text, s₁, hquiet, htidied⟩
  · exact trans_of (Frames ns) (.visited s p o) (.of_reports ho hreports)
  · intro hs hns
    have hlt := Tree.lt_size_of_isElement (hns _ ho)
    have htree : s₁.tree = s.tree := hquiet.tree
    have hfilled : s.tree.Onward (s₁.tree.setText o.element text) :=
      htree ▸ hs.toCoherent.onward_setText hlt text
    have hsound : (s₁.tree.setText o.element text).Sound := htree ▸ hs.setText hlt text
    have hreleased := htidied.released hsound
    have hrecord : s'.record = s.record := htidied.record.trans hquiet.record
    have hvisits : s'.visits = s.visits ++ [(.execute, o)] := htidied.visits.trans hquiet.visits
    refine .of_stays ⟨hfilled.trans hreleased.onward, hreleased.sound hsound,
      hvisits ▸ List.prefix_append ..,
      hrecord ▸ List.prefix_rfl⟩ (.none hrecord) fun x hx hout => ?_
    have hnot : ¬ s.tree.Under o.element x := fun hu => hout ⟨o, by simp [hvisits], hc, hu⟩
    have hstays : s.tree.Stays (s₁.tree.setText o.element text) x :=
      htree ▸ hs.stays_setText hlt hx hnot text
    exact hstays.trans (hreleased.stays hstays.standing)

/-- The part of a built-in command that compares no rows leaves alone all that is no target of an
`echo`. -/
theorem part_frames (hbuiltIn : o.command.isBuiltIn = true) (hrows : o.command ≠ .verifyRows)
    (ho : o.element ∈ ns) :
    Keeps (Frames ns) (visit p o (part env o p) : Run φ Unit) := by
  by_cases hc : o.command = .echo
  · have hpart : (part env o p : Run φ Unit) = echo env o p := by
      unfold part
      rw [hc]
    rw [hpart]
    exact echo_frames hc ho
  · exact visit_keeps (fun s p => .visited s p o)
      ((part_reports hbuiltIn hc hrows).keeps.mono (.of_reports ho))

end Run
end LiveSpec
