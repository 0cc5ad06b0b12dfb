import LiveSpec.Proofs.Graph.Structure
import LiveSpec.Proofs.Phases.Order

/-!
# A graph without one of its calls

`CallGraph.without` deletes a call from a graph. If no calls stand inside it, all the others keep
their places: a run comes to them in the same order as before (`CallGraph.schedule_without`). In the
document, the elements of the others lie outside the branch of the deleted call, since a call in
there would stand inside it (`Mirrors.not_under`).
-/

namespace LiveSpec

open Markup (NodeId Tree)

namespace Call

mutual
/-- A call in which a call is deleted, if it is not that one itself. -/
def without (o : Occurrence) : Call → List Call
  | .mk head cs => if head = o then [] else [.mk head (withoutAll o cs)]
/-- Calls among and in which a call is deleted. -/
def withoutAll (o : Occurrence) : List Call → List Call
  | [] => []
  | c :: cs => without o c ++ withoutAll o cs
end

/-! ## Orders of several calls -/

theorem orderAll_nil (p : Phase) : orderAll p [] = [] := by cases p <;> rfl

theorem orderAll_cons (p : Phase) (c : Call) (cs : List Call) :
    orderAll p (c :: cs) = c.order p ++ orderAll p cs := by
  cases p <;> rfl

theorem orderAll_append (p : Phase) (cs cs' : List Call) :
    orderAll p (cs ++ cs') = orderAll p cs ++ orderAll p cs' := by
  induction cs with
  | nil => rw [orderAll_nil, List.nil_append, List.nil_append]
  | cons c cs ih => rw [List.cons_append, orderAll_cons, orderAll_cons, ih, List.append_assoc]

theorem bindingOrder_append (b : Bool) (cs cs' : List Call) :
    bindingOrder b (cs ++ cs') = bindingOrder b cs ++ bindingOrder b cs' := by
  rw [bindingOrder_eq, bindingOrder_eq, bindingOrder_eq, List.filter_append, List.flatMap_append]

/-- The order in which a phase comes to a call and those inside it. -/
theorem order_mk (p : Phase) (o : Occurrence) (cs : List Call) : (Call.mk o cs).order p =
    match p with
    | .setup => o :: orderAll .setup cs
    | .execute =>
      if o.command = .execute then bindingOrder true cs ++ o :: bindingOrder false cs else
        o :: orderAll .execute cs
    | .verify => orderAll .verify cs ++ [o] := by
  cases p with
  | setup => rfl
  | execute => exact executionOrder.eq_def _
  | verify => rfl

/-- A call with nothing inside is alone in every order. -/
theorem order_alone (p : Phase) (o : Occurrence) : (Call.mk o []).order p = [o] := by
  rw [order_mk]
  cases p with
  | setup => rfl
  | execute =>
    dsimp only
    split <;> rfl
  | verify => rfl

/-- A call that no other has around it has none inside. -/
theorem nil_of_childless {o : Occurrence} {cs : List Call}
    (h : ∀ x, (some o, x) ∉ linksAll (some o) cs) : cs = [] := by
  cases cs with
  | nil => rfl
  | cons c cs =>
    obtain ⟨x, inside⟩ := c
    refine absurd ?_ (h x)
    rw [linksAll, links]
    exact List.mem_append_left _ List.mem_cons_self

/-! ## The order without a call -/

variable {o : Occurrence}

mutual
/-- Deleting a call with nothing inside takes it out of the order, and leaves the others in their
places. -/
theorem order_without (p : Phase) : (c : Call) → (around : Option Occurrence) →
    (∀ x, (some o, x) ∉ c.links around) →
    orderAll p (c.without o) = (c.order p).filter (· ≠ o)
  | .mk head cs, around, h => by
    have hcs : ∀ x, (some o, x) ∉ linksAll (some head) cs :=
      fun x hx => h x (by rw [links]; exact .tail _ hx)
    unfold without
    by_cases hhead : head = o
    · subst hhead
      rw [if_pos rfl, nil_of_childless hcs, orderAll_nil, order_alone]
      simp
    · rw [if_neg hhead, orderAll_cons, orderAll_nil, List.append_nil, order_mk, order_mk]
      have hall : ∀ p, orderAll p (withoutAll o cs) = (orderAll p cs).filter (· ≠ o) := fun p =>
        orderAll_withoutAll p cs (some head) hcs
      have hbinding : ∀ b, bindingOrder b (withoutAll o cs) = (bindingOrder b cs).filter
          (· ≠ o) := fun b =>
        bindingOrder_withoutAll b cs (some head) hcs
      cases p with
      | setup => simp [hall, hhead]
      | execute =>
        dsimp only
        split
        · simp [hbinding, hhead]
        · simp [hall, hhead]
      | verify => simp [hall, hhead]
theorem orderAll_withoutAll (p : Phase) : (cs : List Call) → (around : Option Occurrence) →
    (∀ x, (some o, x) ∉ linksAll around cs) →
    orderAll p (withoutAll o cs) = (orderAll p cs).filter (· ≠ o)
  | [], _, _ => by
    unfold withoutAll
    rw [orderAll_nil]
    rfl
  | c :: cs, around, h => by
    unfold withoutAll
    rw [orderAll_append, orderAll_cons, List.filter_append,
      order_without p c around fun x hx => h x (List.mem_append_left _ hx),
      orderAll_withoutAll p cs around fun x hx => h x (List.mem_append_right _ hx)]
theorem bindingOrder_withoutAll (b : Bool) : (cs : List Call) → (around : Option Occurrence) →
    (∀ x, (some o, x) ∉ linksAll around cs) → bindingOrder b (withoutAll o cs) =
    (bindingOrder b cs).filter (· ≠ o)
  | [], _, _ => rfl
  | c :: cs, around, h => by
    have hc : bindingOrder b (c.without o) =
        (if c.head.command.binds == b then c.executionOrder else []).filter (· ≠ o) := by
      have horder := order_without .execute c around fun x hx => h x (List.mem_append_left _ hx)
      obtain ⟨head, inside⟩ := c
      unfold without at horder ⊢
      by_cases hhead : head = o
      · rw [if_pos hhead] at horder ⊢
        split
        · exact horder
        · rfl
      · rw [if_neg hhead] at horder ⊢
        rw [orderAll_cons, orderAll_nil, List.append_nil] at horder
        rw [bindingOrder, bindingOrder, List.append_nil]
        show (if head.command.binds == b then _ else []) = List.filter _
            (if head.command.binds == b then _ else [])
        split
        · exact horder
        · rfl
    unfold withoutAll
    rw [bindingOrder_append, hc, bindingOrder_withoutAll b cs around fun x hx =>
      h x (List.mem_append_right _ hx)]
    rw [bindingOrder, List.filter_append]
end

end Call

namespace CallGraph

variable {g : CallGraph} {c o : Occurrence}

/-- The graph in which a call is deleted. -/
def without (g : CallGraph) (c : Occurrence) : CallGraph := ⟨Call.withoutAll c g.roots⟩

/-- Says that no call stands directly inside a call. -/
def Childless (g : CallGraph) (c : Occurrence) : Prop := ∀ o, (some c, o) ∉ g.links

theorem orderAll_without (h : g.Childless c) (p : Phase) :
    Call.orderAll p (g.without c).roots = (Call.orderAll p g.roots).filter (· ≠ c) :=
  Call.orderAll_withoutAll p g.roots none h

theorem walk_without (h : g.Childless c) : (g.without c).walk = g.walk.filter (· ≠ c) :=
  orderAll_without h .setup

/-- **A run over the graph without a call comes to the others as before.** -/
theorem schedule_without (h : g.Childless c) : (g.without c).schedule = g.schedule.filter fun v =>
    v.2 ≠ c := by
  unfold schedule
  rw [List.filter_flatMap]
  refine List.flatMap_congr fun p _ => ?_
  rw [orderAll_without h, List.filter_map]
  rfl

/-! ## The branch of a call -/

variable {t : Tree} {r : Registry} {root : NodeId}

namespace Mirrors

theorem element_inj (h : g.Mirrors t r root) (ho : o ∈ g.walk) (hc : c ∈ g.walk)
    (heq : o.element = c.element) :
    o = c :=
  List.inj_on_of_nodup_map h.once ho hc heq

/-- The elements of other calls are not in the branch of a call without calls inside it. -/
theorem not_under (ht : t.Coherent) (h : g.Mirrors t r root) (hroot : t.root = .ok root)
    (hc : c ∈ g.walk) (hchildless : g.Childless c) (ho : o ∈ g.walk) (hne : o ≠ c) :
    ¬ t.Under c.element o.element := by
  intro hunder
  have hstands : t.Standing o.element :=
    (ht.depth_root hroot).standing.under (h.elements.mp (List.mem_map_of_mem ho)).1.under
  obtain ⟨d, hd⟩ := hstands.depth
  -- the call around such a call would be another one, nearer to the top
  induction d using Nat.strong_induction_on generalizing o with
  | _ d ih =>
    have hcarries := (h.elements.mp (List.mem_map_of_mem hc)).2
    have haround : Around t r c.element o.element :=
      ⟨hcarries, hunder, fun heq => hne (h.element_inj ho hc heq.symm)⟩
    obtain ⟨⟨q?, o'⟩, hlink, rfl⟩ := List.mem_map.mp (h.linked ▸ ho : o ∈ g.links.map Prod.snd)
    cases q? with
    | none => exact h.outermost hlink c.element haround
    | some q =>
      obtain ⟨hq, hnearest⟩ := h.around hlink
      have hqc : q ≠ c := fun heq => hchildless o' (heq ▸ hlink)
      have hqstands := ht.standing_of_under hnearest.under hstands
      obtain ⟨k, hk⟩ := hqstands.depth
      obtain ⟨j, hj, hzero⟩ := hk.under hnearest.under
      have hdepth := ht.depth_unique hd hj
      have hpos : j ≠ 0 := fun hj0 => hnearest.ne (hzero hj0).symm
      exact ih k (by omega) hq hqc (hnearest.nearest haround) hqstands hk

/-- The element of a call is a child of something that stands. -/
theorem listed (ht : t.Coherent) (h : g.Mirrors t r root) (hroot : t.root = .ok root)
    (hc : c ∈ g.walk) :
    ∃ p, t.Standing p ∧ c.element ∈ (t.node p).children := by
  have hlisted : root ∈ (t.node Tree.documentId).children :=
    (Tree.mem_elementsOf.mp (Tree.mem_elementsOf_of_root hroot)).1
  cases (h.elements.mp (List.mem_map_of_mem hc)).1.under with
  | self => exact ⟨Tree.documentId, ht.root_top.standing, hlisted⟩
  | child hp hc => exact ⟨_, (ht.depth_root hroot).standing.under hp, hc⟩

end Mirrors

end CallGraph
end LiveSpec
