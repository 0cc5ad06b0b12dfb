import LiveSpec.Proofs.Run.Framed
import LiveSpec.Proofs.Run.Work

/-!
# Work that stays where it is done

Of the built-in commands only `echo` changes the tree, and it changes what lies in its element. So
the calls of a row, as long as they are built in and no rows stand below their cells, leave alone
all that lies in no cell that an `echo` fills (`runRow_confined`). Extensions may do more: one that
removes its element changes the row as well.
-/

namespace LiveSpec

open Markup (NodeId Tree)

variable {φ : Type} {s s' s'' : RunState φ} {n x : NodeId} {ns es : List NodeId}

/-- From a state without rows below some elements, work is done there, and all stays but what lies
in those among them that may be filled. -/
def Confined (ns es : List NodeId) (s s' : RunState φ) : Prop :=
  Bare ns s → Works ns s s' ∧ ∀ x, s.tree.Standing x → (∀ n ∈ es, ¬ s.tree.Under n x) →
    s.tree.Stays s'.tree x

instance : IsPreorder (RunState φ) (Confined ns es) where
  refl _ _ := ⟨.refl, fun _ hx _ => .of_eq rfl hx⟩
  trans _ _ _ h h' hs := by
    obtain ⟨hworks, hstays⟩ := h hs
    obtain ⟨hworks', hstays'⟩ := h' (hs.works hworks)
    have hgo := hworks.onward hs.sound fun _ hn => hs.element hn
    refine ⟨hworks.trans hworks', fun x hx hout =>
      (hstays x hx hout).trans (hstays' x (hstays x hx hout).standing ?_)⟩
    intro n hn hu
    exact hout n hn (hgo.tree.under hs.sound.toCoherent hgo.sound.toCoherent
      (hs.sound.standing_lt hx) hu)

namespace Confined

theorem of_tree (hworks : Works ns s s') (h : s'.tree = s.tree) : Confined ns es s s' := fun _ =>
  ⟨hworks, fun _ hx _ => .of_eq h hx⟩

theorem of_reports (hn : n ∈ ns) (h : Reports n s s') : Confined ns es s s' :=
  .of_tree (.of_deeds hn (.of_reports h)) h.tree

theorem visited (s : RunState φ) (p : Phase) (o : Occurrence) :
    Confined ns es s { s with visits := s.visits ++ [(p, o)] } :=
  .of_tree (.single (.visit p o rfl)) rfl

end Confined

namespace Run

variable [Fixture φ] {env : Surroundings} {o : Occurrence} {p : Phase} {calls : List Occurrence}

theorem echo_confined (ho : o.element ∈ ns) (hfills : o.element ∈ es) :
    Keeps (Confined ns es) (echo env o p : Run φ Unit) := fun s u s' hy hs => by
  refine ⟨.of_deeds ho (echo_deeds.keeps hy), fun x hx hout => ?_⟩
  rcases echo_spec hy with hreports | ⟨-, text, s₁, hquiet, htidied⟩
  · exact .of_eq hreports.tree hx
  · have hlt := Tree.lt_size_of_isElement (hs.element ho)
    have htree : s₁.tree = s.tree := hquiet.tree
    have hstays : s.tree.Stays (s₁.tree.setText o.element text) x :=
      htree ▸ hs.sound.stays_setText hlt hx (hout _ hfills) text
    have hsound : (s₁.tree.setText o.element text).Sound := htree ▸ hs.sound.setText hlt text
    exact hstays.trans ((htidied.released hsound).stays hstays.standing)

theorem part_confined (hbuiltIn : o.command.isBuiltIn = true) (ho : o.element ∈ ns)
    (hfills : o.command = .echo → o.element ∈ es) :
    Keeps (Confined ns es) (part env o p : Run φ Unit) := by
  by_cases hecho : o.command = .echo
  · unfold part
    rw [hecho]
    exact echo_confined ho (hfills hecho)
  · by_cases hrows : o.command = .verifyRows
    · unfold part
      rw [hrows]
      exact fun s _ s' hy hs => Confined.of_reports ho (verifyRows_reports ho hs hy) hs
    · exact (part_reports hbuiltIn hecho hrows).keeps.mono (.of_reports ho)

/-- **The calls of a row leave alone what does not lie in a cell that is filled**, if they are built
in. -/
theorem runRow_confined {between : Run φ Unit} (hbetween : Keeps (Confined ns es) between)
    (hcalls : ∀ c ∈ calls, c.command.isBuiltIn = true ∧ c.element ∈ ns ∧
      (c.command = .echo → c.element ∈ es)) :
    Keeps (Confined ns es) (runRow env calls between : Run φ Unit) :=
  runRow_keeps Confined.visited
    (fun c hc _ => part_confined (hcalls c hc).1 (hcalls c hc).2.1 (hcalls c hc).2.2) hbetween

end Run
end LiveSpec
