import LiveSpec.Proofs.Outcome.Strokes
import LiveSpec.Proofs.Tree.Alike
import LiveSpec.Proofs.Tree.Order
import LiveSpec.Run.State

/-!
# Painting what was cut off

An outcome of an element that was removed from the document cannot be shown any more: the element
gets a class, or nothing at all, and the painting of the outcome may end in a complaint
(`paintOne_of_stale`). No painting of a live element looks at an element that was cut off. So it
does the same to two trees that differ at most in the attributes of such elements, and leaves two
trees of this kind (`paintOne_alike`); along a list of outcomes, those of elements that were cut off
make no difference to the document (`paint_live_only`).
-/

namespace LiveSpec.Painting

open Markup (NodeId Tree TreeError)
open Markup.Tree

variable {gone : NodeId → Prop} {t s s' : Tree} {n c : NodeId} {α β : Type}

/-! ## Edits of trees that are alike -/

/-- An edit that does the same to trees that are alike, and leaves them alike. -/
def Agrees (gone : NodeId → Prop) (m : Edit α) : Prop :=
  ∀ s s' : Tree, Alike gone s s' → (m.run s').1 = (m.run s).1 ∧ Alike gone (m.run s).2 (m.run s').2

namespace Agrees

/-- An answer alone looks at nothing. -/
theorem pure (a : α) : Agrees gone (Pure.pure a : Edit α) := fun _ _ h => ⟨rfl, h⟩

/-- Edits in sequence agree if each of them does. -/
theorem bind {m : Edit α} {f : α → Edit β} (hm : Agrees gone m) (hf : ∀ a, Agrees gone (f a)) :
    Agrees gone (m >>= f) := by
  intro s s' h
  rw [run_bind, run_bind]
  obtain ⟨hanswer, hafter⟩ := hm s s' h
  generalize m.run s = x at hanswer hafter
  generalize m.run s' = x' at hanswer hafter
  obtain ⟨answer, u⟩ := x
  obtain ⟨answer', u'⟩ := x'
  cases hanswer
  cases answer with
  | ok a => exact hf a u u' hafter
  | error e => exact ⟨rfl, hafter⟩

theorem addClass (n : NodeId) (w : String) : Agrees gone (edit fun t => t.addClass n w) :=
  fun _ _ h => ⟨rfl, h.modifyAttributes n _⟩

/-- Making nodes gives the same numbers. -/
theorem make {f : Tree → NodeId × Tree}
    (hf : ∀ {s s' : Tree}, Alike gone s s' → (f s').1 = (f s).1 ∧ Alike gone (f s).2 (f s').2) :
    Agrees gone (make f) := by
  intro s s' h
  exact ⟨congrArg Except.ok (hf h).1, (hf h).2⟩

/-- An edit of the structure ends alike. -/
theorem attempt {f : Tree → Except TreeError Tree}
    (hf : ∀ {s s' : Tree}, Alike gone s s' → EndsAlike gone (f s) (f s')) :
    Agrees gone (attempt f) := by
  intro s s' h
  have hends := hf h
  cases hok : f s with
  | ok u =>
    cases hok' : f s' with
    | ok u' =>
      rw [hok, hok'] at hends
      rw [run_attempt_ok hok, run_attempt_ok hok']
      cases hends with
      | ok hu => exact ⟨rfl, hu⟩
    | error e =>
      rw [hok, hok'] at hends
      cases hends
  | error e =>
    cases hok' : f s' with
    | ok u' =>
      rw [hok, hok'] at hends
      cases hends
    | error e' =>
      rw [hok, hok'] at hends
      rw [run_attempt_error hok, run_attempt_error hok']
      cases hends
      exact ⟨rfl, h⟩

theorem ensureLive (n : NodeId) : Agrees gone (ensureLive n) := by
  intro s s' h
  cases hlive : s.isLive n with
  | true =>
    rw [run_ensureLive hlive, run_ensureLive ((h.isLive n).trans hlive)]
    exact ⟨rfl, h⟩
  | false =>
    rw [run_ensureLive_of_stale hlive, run_ensureLive_of_stale ((h.isLive n).trans hlive), h.name]
    exact ⟨rfl, h⟩

theorem textElement (name class_ text : String) : Agrees gone (textElement name class_ text) :=
  .bind (.make fun h => h.newElementWithText name text) fun n =>
    .bind (.addClass n class_) fun _ => .pure n

theorem paintFrames (trace : NodeId) (frames : List String) :
    Agrees gone (paintFrames trace frames) := by
  induction frames with
  | nil => exact .pure ()
  | cons frame frames ih =>
    refine .bind (.textElement _ _ _) fun entry => ?_
    exact .bind (.attempt fun h => h.appendChild _ _) fun _ => ih

/-- A failure is painted alike on a node whose attributes are the same. -/
theorem paintFailure (hn : ¬ gone n) (actual : String) : Agrees gone (paintFailure n actual) := by
  intro s s' h
  unfold Painting.paintFailure
  rw [run_get_bind, run_get_bind, h.hasClass hn]
  by_cases hfailed : s.hasClass n "failure" = true
  · rw [if_pos hfailed]
    exact ⟨rfl, h⟩
  · rw [if_neg hfailed]
    refine Agrees.bind (.addClass _ _) (fun _ => .bind (.ensureLive n) fun _ => ?_) s s' h
    refine .bind (.make fun h => h.newElement "del") fun expected =>
      .bind (.addClass _ _) fun _ => ?_
    refine .bind (.attempt fun h => h.moveChildren _ _) fun _ =>
      .bind (.attempt fun h => h.appendChild _ _) fun _ => ?_
    exact .bind (.textElement _ _ _) fun found => .attempt fun h => h.insertAfter _ _

end Agrees

/-- A message is shown in both trees or in neither, if the children keep their attributes. -/
theorem showsMessage_alike (h : Alike gone s s') {cs : List NodeId} (hcs : ∀ c ∈ cs, ¬ gone c)
    (message : String) :
    showsMessage s' cs message = showsMessage s cs message := by
  unfold showsMessage
  refine Bool.eq_iff_iff.mpr ?_
  simp only [List.any_eq_true]
  refine exists_congr fun c => and_congr_right fun hc => ?_
  rw [h.hasClass (hcs c hc), h.text]

/-- An exception is painted alike at a live element. -/
theorem paintException_alike (h : Alike gone s s') (hlive : s.isLive n = true)
    (hcs : ∀ c ∈ (s.node n).children, ¬ gone c)
    (expression : String) (error : EvaluationError) :
    ((paintException n expression error).run s').1 = ((paintException n expression error).run s).1 ∧
      Alike gone ((paintException n expression error).run s).2
        ((paintException n expression error).run s').2 := by
  have hsame : showsMessage s' (s.elementsOf n) error.message = showsMessage s
      (s.elementsOf n) error.message :=
    showsMessage_alike h (fun c hc => hcs c (mem_elementsOf.mp hc).1) _
  unfold paintException
  rw [run_get_bind, run_get_bind, run_bind, run_bind, h.childElements,
    childElements_of_isLive hlive]
  show ((ite (showsMessage s' (s.elementsOf n) error.message = true) _ _ : Edit Unit).run s').1 =
      ((ite (showsMessage s (s.elementsOf n) error.message = true) _ _ : Edit Unit).run s).1 ∧
      Alike gone
      ((ite (showsMessage s (s.elementsOf n) error.message = true) _ _ : Edit Unit).run s).2
      ((ite (showsMessage s' (s.elementsOf n) error.message = true) _ _ : Edit Unit).run s').2
  rw [hsame]
  by_cases hshows : showsMessage s (s.elementsOf n) error.message = true
  · rw [if_pos hshows]
    exact ⟨rfl, h⟩
  · rw [if_neg hshows]
    refine Agrees.bind (.addClass _ _) (fun _ => .bind (.textElement _ _ _) fun span => ?_) s s' h
    refine .bind (.attempt fun h => h.appendChild _ _) fun _ => ?_
    refine .bind (.make fun h => h.newElement "div") fun trace => ?_
    refine .bind (.addClass _ _) fun _ =>
      .bind (.make fun h => h.newElementWithText _ _) fun line => ?_
    refine .bind (.attempt fun h => h.appendChild _ _) fun _ => .bind (.paintFrames _ _) fun _ => ?_
    exact .attempt fun h => h.appendChild _ _

/-! ## One outcome -/

/-- An outcome at a live element that differs nowhere near is painted alike. -/
theorem paintOne_alike {r : Recorded} (h : Alike gone s s') (hlive : s.isLive r.element = true)
    (hr : ¬ gone r.element) (hcs : ∀ c ∈ (s.node r.element).children, ¬ gone c) :
    ((paintOne r).run s').1 = ((paintOne r).run s).1 ∧
      Alike gone ((paintOne r).run s).2 ((paintOne r).run s').2 := by
  cases ho : r.outcome with
  | success | missingRow | surplusRow =>
    simp only [paintOne, ho]
    exact Agrees.addClass _ _ s s' h
  | failure expected actual =>
    simp only [paintOne, ho]
    exact Agrees.paintFailure hr actual s s' h
  | exception expression error =>
    simp only [paintOne, ho]
    exact paintException_alike h hlive hcs expression error

/-- What stands is painted without complaint. -/
theorem paintOne_answer_of_standing {r : Recorded} (hs : s.Coherent) (hr : s.Standing r.element)
    (he : s.isElement r.element = true) : ((paintOne r).run s).1 = .ok () := by
  cases ho : r.outcome with
  | success | missingRow | surplusRow =>
    simp only [paintOne, ho]
    rfl
  | failure expected actual =>
    simp only [paintOne, ho]
    cases hnew : s.hasClass r.element "failure" with
    | true => rw [run_paintFailure_of_hasClass hnew]
    | false =>
      obtain ⟨_, _, hrun, -⟩ := paintFailure_leads hs hr he actual hnew
      rw [hrun]
  | exception expression error =>
    simp only [paintOne, ho]
    cases hshows : showsMessage s (s.elementsOf r.element) error.message with
    | true => rw [run_paintException_of_shows (hs.isLive_of_standing hr) hshows]
    | false =>
      obtain ⟨_, _, hrun, -⟩ := paintException_leads hs hr he expression hshows
      rw [hrun]

/-- What was cut off gets a class at most, and all that painting it can complain of is that it was
cut off. -/
theorem paintOne_of_stale {r : Recorded} (hlive : s.isLive r.element = false)
    (hr : gone r.element) :
    Alike gone s ((paintOne r).run s).2 ∧
      ∀ e, ((paintOne r).run s).1 = .error e →
        e = .stale (((paintOne r).run s).2.name r.element) := by
  have hclass : ∀ w, Alike gone s (s.addClass r.element w) := fun w => .of_modifyAttributes hr _
  cases ho : r.outcome with
  | success | missingRow | surplusRow =>
    simp only [paintOne, ho]
    exact ⟨hclass _, fun e he => by cases he⟩
  | failure expected actual =>
    simp only [paintOne, ho]
    cases hnew : s.hasClass r.element "failure" with
    | true =>
      rw [run_paintFailure_of_hasClass hnew]
      exact ⟨.refl s, fun e he => by cases he⟩
    | false =>
      have hrun : (paintFailure r.element actual).run s =
          (.error (.stale ((s.addClass r.element "failure").name r.element)),
            s.addClass r.element "failure") := by
        unfold paintFailure
        rw [run_get_bind, if_neg (by simp [hnew]), run_bind]
        show (ensureLive r.element >>= _ : Edit Unit).run (s.addClass r.element "failure") = _
        rw [run_bind, run_ensureLive_of_stale (((hclass "failure").isLive r.element).trans hlive)]
      rw [hrun]
      exact ⟨hclass _, fun e he => (Except.error.inj he).symm⟩
  | exception expression error =>
    simp only [paintOne, ho]
    have hrun : (paintException r.element expression error).run s =
        (.error (.stale (s.name r.element)), s) := by
      have hchildren : s.childElements r.element = .error (.stale (s.name r.element)) :=
        ensureLive_bind_of_stale hlive
      unfold paintException
      rw [run_get_bind, run_bind, hchildren]
      rfl
    rw [hrun]
    exact ⟨.refl s, fun e he => (Except.error.inj he).symm⟩

/-! ## A list of outcomes -/

/-- A tree that was painted: the nodes that were there stand or not as before. -/
structure Onto (u s : Tree) : Prop where
  coherent : s.Coherent
  size_le : u.nodes.size ≤ s.nodes.size
  standing_iff {x : NodeId} : x < u.nodes.size → (s.Standing x ↔ u.Standing x)

/-- A node that was cut off. -/
def Lost (u : Tree) (x : NodeId) : Prop := x < u.nodes.size ∧ u.isLive x = false

namespace Onto

variable {u : Tree} {r : Recorded} {x : NodeId}

/-- Nothing was painted yet. -/
theorem refl (hu : u.Coherent) : Onto u u := ⟨hu, Nat.le_refl _, fun _ => .rfl⟩

/-- Painting makes no node live or stale. -/
theorem isLive (hs : Onto u s) (hu : u.Coherent) (hx : x < u.nodes.size) :
    s.isLive x = u.isLive x := by
  rw [Bool.eq_iff_iff, hs.coherent.isLive_iff (Nat.lt_of_lt_of_le hx hs.size_le), hu.isLive_iff hx]
  exact hs.standing_iff hx

/-- What stands was not cut off. -/
theorem not_lost (hs : Onto u s) (hu : u.Coherent) (hx : s.Standing x) :
    ¬ Lost u x := fun ⟨hlt, hlive⟩ => by
  have hstanding := (hs.standing_iff hlt).mp hx
  rw [hu.isLive_of_standing hstanding] at hlive
  cases hlive

/-- Painting one more outcome lets the nodes stand as they did. -/
theorem paintOne (hs : Onto u s) (he : s.isElement r.element = true) :
    Onto u ((paintOne r).run s).2 := by
  have ho := (painted_paintOne hs.coherent he).overlaid hs.coherent
  refine ⟨ho.coherent, Nat.le_trans hs.size_le ho.size_le, fun hx => ?_⟩
  exact (ho.standing_iff (Nat.lt_of_lt_of_le hx hs.size_le)).trans (hs.standing_iff hx)

end Onto

/-- Each outcome has its own diagnostic, if it has one at all. -/
theorem diagnostics_cons (r : Recorded) (rest : List Recorded) : (paint s (r :: rest)).2 =
    (match ((paintOne r).run s).1 with
      | .ok () => []
      | .error e => [⟨((paintOne r).run s).2.describe r.element, e.message⟩]) ++
    (paint ((paintOne r).run s).2 rest).2 := by
  rw [paint]
  cases h : (paintOne r).run s with
  | mk answer s' => cases answer <;> rfl

section

variable {u : Tree} {os : List Recorded} (hu : u.Coherent) (hs : Onto u s)
  (hlt : ∀ r ∈ os, r.element < u.nodes.size) (hos : ∀ r ∈ os, s.isElement r.element = true)
include hu hs hlt hos

omit hu hlt in
/-- Painting a list lets the nodes stand as they did. -/
theorem onto_paint : Onto u (paint s os).1 := by
  induction os generalizing s with
  | nil => exact hs
  | cons r os ih =>
    rw [paint_cons]
    exact ih (hs.paintOne (hos r List.mem_cons_self)) fun x hx => (paintOne_grows r s).isElement
      (hos x (List.mem_cons_of_mem r hx))

/-- What is painted at nodes that were cut off makes no difference to the rest. -/
theorem paint_live_alike (h : Alike (Lost u) s s') :
    Alike (Lost u) (paint s os).1 (paint s' (os.filter fun r => u.isLive r.element)).1 ∧
      (paint s' (os.filter fun r => u.isLive r.element)).2 = [] := by
  induction os generalizing s s' with
  | nil => exact ⟨h, rfl⟩
  | cons r os ih =>
    have hr := hlt r List.mem_cons_self
    have he := hos r List.mem_cons_self
    have hlive := hs.isLive hu hr
    have ih {u' : Tree} (hafter : Alike (Lost u) ((paintOne r).run s).2 u') :=
      ih (hs.paintOne he) (fun x hx => hlt x (List.mem_cons_of_mem r hx))
        (fun x hx => (paintOne_grows r s).isElement (hos x (List.mem_cons_of_mem r hx))) hafter
    rw [paint_cons]
    cases hur : u.isLive r.element with
    | true =>
      rw [hur] at hlive
      have hstanding := (hs.coherent.isLive_iff (lt_size_of_isElement he)).mp hlive
      obtain ⟨hanswer, hafter⟩ := paintOne_alike h hlive (hs.not_lost hu hstanding)
        fun c hc => hs.not_lost hu (hstanding.child hc)
      obtain ⟨halike, hnone⟩ := ih hafter
      rw [List.filter_cons_of_pos (p := fun r : Recorded => u.isLive r.element) hur, paint_cons,
        diagnostics_cons,
        hanswer, paintOne_answer_of_standing hs.coherent hstanding he]
      exact ⟨halike, hnone⟩
    | false =>
      rw [hur] at hlive
      rw [List.filter_cons_of_neg (p := fun r : Recorded => u.isLive r.element) (by simp [hur])]
      exact ih ((paintOne_of_stale hlive ⟨hr, hur⟩).1.symm.trans h)

/-- Painting complains of nodes that were cut off only. -/
theorem mem_diagnostics {d : Diagnostic} (hd : d ∈ (paint s os).2) :
    ∃ before r after, os = before ++ r :: after ∧
    u.isLive r.element = false ∧ d = ⟨(paint s (before ++ [r])).1.describe r.element,
      (TreeError.stale ((paint s (before ++ [r])).1.name r.element)).message⟩ := by
  induction os generalizing s with
  | nil => cases hd
  | cons r os ih =>
    have hr := hlt r List.mem_cons_self
    have he := hos r List.mem_cons_self
    have hlive := hs.isLive hu hr
    rw [diagnostics_cons] at hd
    rcases List.mem_append.mp hd with hfirst | hrest
    · refine ⟨[], r, os, rfl, ?_⟩
      cases hur : u.isLive r.element with
      | true =>
        rw [hur] at hlive
        have hstanding := (hs.coherent.isLive_iff (lt_size_of_isElement he)).mp hlive
        rw [paintOne_answer_of_standing hs.coherent hstanding he] at hfirst
        cases hfirst
      | false =>
        rw [hur] at hlive
        cases hanswer : ((paintOne r).run s).1 with
        | ok =>
          rw [hanswer] at hfirst
          cases hfirst
        | error e =>
          rw [hanswer] at hfirst
          have hgone : Lost u r.element := ⟨hr, hur⟩
          have he' := (paintOne_of_stale hlive hgone).2 e hanswer
          rw [List.nil_append, paint_cons]
          exact ⟨rfl, he' ▸ List.mem_singleton.mp hfirst⟩
    · obtain ⟨before, r', after, rfl, hstale, rfl⟩ := ih (hs.paintOne he)
        (fun x hx => hlt x (List.mem_cons_of_mem r hx))
        (fun x hx => (paintOne_grows r s).isElement (hos x (List.mem_cons_of_mem r hx))) hrest
      refine ⟨r :: before, r', after, rfl, hstale, ?_⟩
      rw [List.cons_append, paint_cons]

end

/-! ## The document -/

/-- Removing elements one by one leaves a coherent tree. -/
theorem removeAll_coherent {ns : List NodeId} {u : Tree} (ht : t.Coherent)
    (hns : ∀ n ∈ ns, t.isElement n = true) (h : Run.removeAll t ns = .ok u) : u.Coherent := by
  induction ns generalizing t with
  | nil => exact Except.ok.inj h ▸ ht
  | cons n ns ih =>
    obtain ⟨t₁, hremove, hrest⟩ := Except.bind_eq_ok.mp h
    have hpruned := ht.pruned_remove (hns n List.mem_cons_self) hremove
    refine ih (hpruned.coherent ht) (fun m hm => ?_) hrest
    exact (isElement_congr (hpruned.content m)).trans (hns m (List.mem_cons_of_mem n hm))

/-- **One bad element never spoils the painting.** Whatever was removed from a document, and
whatever outcomes are painted then: the document reads as if only those outcomes had been painted
whose elements are still live. All nodes are the same, down to the attributes of nodes that were cut
off; the live nodes are those that were live before; and what the painting complains of are outcomes
of elements that are not live, each named as it looks when its turn has come. -/
theorem paint_live_only {ns : List NodeId} {u : Tree} {os : List Recorded} (ht : t.Coherent)
    (hns : ∀ n ∈ ns, t.isElement n = true) (hu : Run.removeAll t ns = .ok u)
    (hos : ∀ r ∈ os, u.isElement r.element = true) :
    (paint u os).1.html = (paint u (os.filter fun r => u.isLive r.element)).1.html ∧
    Alike (fun x => x < u.nodes.size ∧ u.isLive x = false) (paint u os).1
      (paint u (os.filter fun r => u.isLive r.element)).1 ∧
    (paint u (os.filter fun r => u.isLive r.element)).2 = [] ∧
    (∀ x < u.nodes.size, (paint u os).1.isLive x = u.isLive x) ∧
    ∀ d ∈ (paint u os).2, ∃ before r after, os = before ++ r :: after ∧ u.isLive r.element = false ∧
      d = ⟨(paint u (before ++ [r])).1.describe r.element,
        (TreeError.stale ((paint u (before ++ [r])).1.name r.element)).message⟩ := by
  have hu := removeAll_coherent ht hns hu
  have hlt : ∀ r ∈ os, r.element < u.nodes.size := fun r hr => lt_size_of_isElement (hos r hr)
  have honto := onto_paint (.refl hu) hos
  obtain ⟨halike, hnone⟩ := paint_live_alike hu (.refl hu) hlt hos (.refl u)
  refine ⟨?_, halike, hnone, fun x hx => honto.isLive hu hx,
    fun d => mem_diagnostics hu (.refl hu) hlt hos⟩
  refine (halike.html fun m hm => honto.not_lost hu ?_).symm
  exact ⟨documentId, honto.coherent.root_top, hm⟩

namespace Sample

/-- A `div` with a paragraph, in which a word is bold, and a word behind it. -/
def division : Tree :=
  ⟨#[⟨.document, [1], .top, false⟩, ⟨.element "div" [], [2, 5], .below 0, false⟩,
    ⟨.element "p" [], [3], .below 1, false⟩,
    ⟨.element "b" [], [4], .below 2, false⟩, ⟨.text "x", [], .below 3, false⟩,
    ⟨.element "i" [], [6], .below 1, false⟩,
    ⟨.text "y", [], .below 5, false⟩]⟩

theorem division_sound : division.Sound := sound_of_agrees rfl (by decide) (by decide)

/-- The `div` without its paragraph. -/
def shortened : Tree :=
  ⟨#[⟨.document, [1], .top, false⟩, ⟨.element "div" [], [5], .below 0, false⟩,
    ⟨.element "p" [], [3], .cut, false⟩,
    ⟨.element "b" [], [4], .below 2, false⟩, ⟨.text "x", [], .below 3, false⟩,
    ⟨.element "i" [], [6], .below 1, false⟩,
    ⟨.text "y", [], .below 5, false⟩]⟩

/-- Outcomes of the bold word, of the `div` around it, of the paragraph and of the other word. -/
def scattered : List Recorded :=
  [⟨3, .failure "x" "z"⟩, ⟨1, .failure "xy" "zy"⟩, ⟨2, .exception "f()" (.thrown "f()" "boom" [])⟩,
    ⟨5, .success⟩]

end Sample

theorem paint_live_only_scattered : Run.removeAll Sample.division [2] = .ok Sample.shortened ∧
    (paint Sample.shortened Sample.scattered).1.html =
      (paint Sample.shortened [⟨1, .failure "xy" "zy"⟩, ⟨5, .success⟩]).1.html ∧
    (paint Sample.shortened [⟨1, .failure "xy" "zy"⟩, ⟨5, .success⟩]).2 = [] ∧
    (paint Sample.shortened Sample.scattered).1.isLive 5 = true ∧
    ∀ d ∈ (paint Sample.shortened Sample.scattered).2,
      ∃ r ∈ Sample.scattered, Sample.shortened.isLive r.element = false := by
  have hremoved : Run.removeAll Sample.division [2] = .ok Sample.shortened := rfl
  have helements : ∀ r ∈ Sample.scattered, Sample.shortened.isElement r.element = true := by decide
  obtain ⟨hhtml, -, hnone, hlive, hdiagnostics⟩ :=
    paint_live_only Sample.division_sound.toCoherent (by decide) hremoved
    helements
  have hfilter : (Sample.scattered.filter fun r => Sample.shortened.isLive r.element) =
      [⟨1, .failure "xy" "zy"⟩, ⟨5, .success⟩] := rfl
  rw [hfilter] at hhtml hnone
  refine ⟨hremoved, hhtml, hnone, (hlive 5 (by decide)).trans rfl, fun d hd => ?_⟩
  obtain ⟨before, r, after, heq, hstale, -⟩ := hdiagnostics d hd
  exact ⟨r, heq ▸ by simp, hstale⟩

end LiveSpec.Painting
