import LiveSpec.Outcome.Painting
import LiveSpec.Proofs.Tree.Classes
import LiveSpec.Proofs.Tree.Contents

/-!
# Painting a second time

An outcome marks its element: all but an exception by a class, and an exception by a message in the
element. Classes are never taken away (`Grows`), so a second painting leaves alone what carries a
class. It paints an exception again where its message cannot be found in the element any more, and
nothing else (`paint_again_iff`).
-/

namespace LiveSpec.Painting

open Markup (NodeId Tree TreeError)
open Markup.Tree (SameContents)

variable {t t' : Tree} {n : NodeId} {w : String} {α β : Type}

/-! ## Edits, step by step -/

/-- Edits run one after the other; the first that fails ends the run and keeps what was done. -/
theorem run_bind (m : Edit α) (f : α → Edit β) (t : Tree) :
    (m >>= f).run t =
      match m.run t with
      | (.ok a, t') => (f a).run t'
      | (.error e, t') => (.error e, t') := by
  show (ExceptT.bindCont f (m.run t).1).run (m.run t).2 = _
  cases h : m.run t with
  | mk r t' => cases r <;> rfl

theorem run_get_bind (f : Tree → Edit α) (t : Tree) :
    ((MonadState.get : Edit Tree) >>= f).run t = (f t).run t := rfl

/-- An edit of the structure that succeeds puts its tree in place. -/
theorem run_attempt_ok {f : Tree → Except TreeError Tree} (h : f t = .ok t') :
    (attempt f).run t = (.ok (), t') := by
  unfold attempt
  rw [run_get_bind, h]
  rfl

/-- One that fails leaves the tree as it was. -/
theorem run_attempt_error {f : Tree → Except TreeError Tree} {e : TreeError} (h : f t = .error e) :
    (attempt f).run t = (.error e, t) := by
  unfold attempt
  rw [run_get_bind, h]
  rfl

theorem run_ensureLive (h : t.isLive n = true) : (ensureLive n).run t = (.ok (), t) := by
  unfold ensureLive
  rw [run_get_bind, Tree.ensureLive, if_pos h]
  rfl

/-- Painting stops at an element that is gone, with the tree untouched. -/
theorem run_ensureLive_of_stale (h : t.isLive n = false) :
    (ensureLive n).run t = (.error (.stale (t.name n)), t) := by
  unfold ensureLive
  rw [run_get_bind, Tree.ensureLive, if_neg (by simp [h])]
  rfl

/-- A relation between trees that an edit keeps, whether it succeeds or fails. -/
def Keeps (R : Tree → Tree → Prop) (m : Edit α) : Prop := ∀ t, R t (m.run t).2

/-- A tree to which painting has added nodes and classes. -/
structure Grows (t t' : Tree) : Prop extends t.SameElements t' where
  size_le : t.nodes.size ≤ t'.nodes.size
  hasClass {n : NodeId} {w : String} : t.hasClass n w = true → t'.hasClass n w = true

instance : IsPreorder Tree Grows where
  refl _ := ⟨.refl, Nat.le_refl _, id⟩
  trans _ _ _ h h' :=
    ⟨h.toSameElements.trans h'.toSameElements, Nat.le_trans h.size_le h'.size_le,
      h'.hasClass ∘ h.hasClass⟩

/-- An edit that keeps every content grows the tree. -/
theorem Grows.of_sameContents (h : t.SameContents t') : Grows t t' where
  toSameElements := .of_sameContents h
  size_le := h.size_le
  hasClass {n w} hn := by
    have hlt := Tree.lt_size_of_isElement (Tree.isElement_of_hasClass hn)
    unfold Tree.hasClass Tree.attributes at hn ⊢
    rwa [h.content hlt]

/-- Adding a class of one word grows the tree: it takes no class and no text away. -/
theorem Grows.of_addClass (hw : IsWord w) : Grows t (t.addClass n w) where
  toSameElements := .of_addClass w
  size_le := Nat.le_of_eq (Tree.size_modifyAttributes _).symm
  hasClass hm := by simp [Tree.hasClass_addClass hw, hm]

namespace Keeps

section

variable {R : Tree → Tree → Prop} [IsPreorder Tree R]

theorem pure (a : α) : Keeps R (Pure.pure a : Edit α) := fun t => refl_of R t

/-- A relation that is transitive is kept by edits in sequence if each keeps it. -/
theorem bind {m : Edit α} {f : α → Edit β} (hm : Keeps R m) (hf : ∀ a, Keeps R (f a)) :
    Keeps R (m >>= f) := by
  intro t
  rw [run_bind]
  cases h : m.run t with
  | mk r t' =>
    have ht' : R t t' := by simpa [h] using hm t
    cases r with
    | ok a => exact trans_of R ht' (hf a t')
    | error e => exact ht'

end

theorem addClass (hw : IsWord w) : Keeps Grows (edit fun t => t.addClass n w) :=
  fun _ => .of_addClass hw

/-- Making nodes grows the tree. -/
theorem make {f : Tree → NodeId × Tree} (hf : ∀ t, SameContents t (f t).2) : Keeps Grows (make f) :=
  fun t => .of_sameContents (hf t)

/-- So does every edit of the structure, whether it succeeds or not. -/
theorem attempt {f : Tree → Except TreeError Tree}
    (hf : ∀ {t t'}, f t = .ok t' → SameContents t t') :
    Keeps Grows (attempt f) := by
  intro t
  cases h : f t with
  | ok t' =>
    rw [run_attempt_ok h]
    exact .of_sameContents (hf h)
  | error e =>
    rw [run_attempt_error h]
    exact refl_of Grows t

theorem ensureLive : Keeps Grows (ensureLive n) := by
  intro t
  cases h : t.isLive n with
  | true =>
    rw [run_ensureLive h]
    exact refl_of Grows t
  | false =>
    rw [run_ensureLive_of_stale h]
    exact refl_of Grows t

/-- An element with a class and a text is made without touching another. -/
theorem textElement {name s : String} (hw : IsWord w) : Keeps Grows (textElement name w s) :=
  bind (make fun _ => Tree.sameContents_newElementWithText name s) fun _ =>
    bind (addClass hw) fun _ => pure _

end Keeps

/-! ## Painting one outcome

What the painting of an outcome does first, and that it goes on without taking anything away. -/

theorem sameContents_newElement (name : String) (t : Tree) : t.SameContents (t.newElement name).2 :=
  Tree.sameContents_add _

/-- An element that is marked as failed already is passed over. -/
theorem run_paintFailure_of_hasClass {actual : String} (h : t.hasClass n "failure" = true) :
    (paintFailure n actual).run t = (.ok (), t) := by
  unfold paintFailure
  rw [run_get_bind, if_pos h]
  rfl

/-- Painting a failure sets the class first, and whatever follows only grows the tree. -/
theorem run_paintFailure (actual : String) (h : t.hasClass n "failure" = false) :
    ∃ rest : Edit Unit, Keeps Grows rest ∧ (paintFailure n actual).run t = rest.run
      (t.addClass n "failure") := by
  refine ⟨?rest, ?grows, ?run⟩
  case run =>
    unfold paintFailure
    rw [run_get_bind, if_neg (by simp [h]), run_bind]
    rfl
  case grows =>
    refine .bind .ensureLive fun _ => .bind
      (.make (sameContents_newElement "del")) fun expected => ?_
    refine .bind (.addClass (isWord_of (by cbv))) fun _ => ?_
    refine .bind (.attempt Tree.sameContents_moveChildren) fun _ => ?_
    refine .bind (.attempt Tree.sameContents_appendChild) fun _ => ?_
    refine .bind (.textElement (isWord_of (by cbv))) fun found => ?_
    exact .attempt Tree.sameContents_insertAfter

/-- A trace is painted frame by frame, and each only grows the tree. -/
theorem paintFrames_grows {trace : NodeId} {frames : List String} :
    Keeps Grows (paintFrames trace frames) := by
  induction frames with
  | nil => exact .pure ()
  | cons frame frames ih =>
    refine .bind (.textElement (isWord_of (by cbv))) fun entry => ?_
    exact .bind (.attempt Tree.sameContents_appendChild) fun _ => ih

section

variable {expression : String} {error : EvaluationError}

theorem run_paintException_of_stale (h : t.isLive n = false) :
    ((paintException n expression error).run t).2 = t := by
  have hchildren : t.childElements n = .error (.stale (t.name n)) := Tree.ensureLive_bind_of_stale h
  unfold paintException
  rw [run_get_bind, run_bind, hchildren]
  rfl

/-- An element that shows the message already is passed over. -/
theorem run_paintException_of_shows (h : t.isLive n = true)
    (hshows : showsMessage t (t.elementsOf n) error.message = true) :
    (paintException n expression error).run t = (.ok (), t) := by
  unfold paintException
  rw [run_get_bind, run_bind, Tree.childElements_of_isLive h]
  show (ite (showsMessage t (t.elementsOf n) error.message = true) _ _ : Edit Unit).run t = _
  rw [if_pos hshows]
  rfl

/-- Painting an exception sets the class and makes the message first; what follows only grows the
tree. -/
theorem run_paintException (expression : String) (h : t.isLive n = true)
    (hshows : showsMessage t (t.elementsOf n) error.message = false) :
    ∃ rest : Edit Unit, Keeps Grows rest ∧ (paintException n expression error).run t =
      rest.run ((t.addClass n "exception").newElementWithText "span" error.message).2 := by
  refine ⟨?rest, ?grows, ?run⟩
  case run =>
    unfold paintException
    rw [run_get_bind, run_bind, Tree.childElements_of_isLive h]
    show (ite (showsMessage t (t.elementsOf n) error.message = true) _ _ : Edit Unit).run t = _
    rw [if_neg (by simp [hshows]), run_bind]
    show ((textElement "span" "exceptionMessage" error.message >>= _ : Edit Unit)).run
        (t.addClass n "exception") = _
    rw [textElement, bind_assoc, run_bind]
    rfl
  case grows =>
    refine .bind (.bind (.addClass (isWord_of (by cbv))) fun _ => .pure _) fun span => ?_
    refine .bind (.attempt Tree.sameContents_appendChild) fun _ => ?_
    refine .bind (.make (sameContents_newElement "div")) fun trace => ?_
    refine .bind (.addClass (isWord_of (by cbv))) fun _ => ?_
    refine .bind (.make fun _ => Tree.sameContents_newElementWithText _ _) fun line => ?_
    refine .bind (.attempt Tree.sameContents_appendChild) fun _ => ?_
    exact .bind paintFrames_grows fun _ => .attempt Tree.sameContents_appendChild

end

/-- The class by which the painter knows that an outcome has been painted; an exception is known by
its message. -/
def marker : Outcome → Option String
  | .success => some "success"
  | .failure _ _ => some "failure"
  | .exception _ _ => none
  | .missingRow _ => some "missing"
  | .surplusRow _ => some "surplus"

/-- An outcome whose class is there. -/
def Marked (t : Tree) (r : Recorded) : Prop :=
  ∀ w, marker r.outcome = some w → t.hasClass r.element w = true

/-- An outcome that is marked stays marked, whatever is painted later. -/
theorem Marked.mono {r : Recorded} (h : Marked t r) (hgrows : Grows t t') : Marked t' r :=
  fun w hw => hgrows.hasClass (h w hw)

/-- The message of an exception is shown in its element, as far as the painter can look into it. -/
def Shown (t : Tree) (r : Recorded) : Prop :=
  ∀ expression error, r.outcome = .exception expression error → t.isLive r.element = true →
    showsMessage t (t.elementsOf r.element) error.message = true

/-- Painting one outcome only grows the tree, also where it is refused half way. -/
theorem paintOne_grows (r : Recorded) (t : Tree) : Grows t ((paintOne r).run t).2 := by
  unfold paintOne
  split
  · exact .of_addClass (isWord_of (by cbv))
  · cases h : t.hasClass r.element "failure" with
    | true =>
      rw [run_paintFailure_of_hasClass h]
      exact refl_of Grows t
    | false =>
      obtain ⟨rest, hrest, hrun⟩ := run_paintFailure _ h
      rw [hrun]
      exact trans_of Grows (.of_addClass (isWord_of (by cbv))) (hrest _)
  · next expression error _ =>
    cases hlive : t.isLive r.element with
    | false =>
      rw [run_paintException_of_stale hlive]
      exact refl_of Grows t
    | true =>
      cases hshows : showsMessage t (t.elementsOf r.element) error.message with
      | true =>
        rw [run_paintException_of_shows hlive hshows]
        exact refl_of Grows t
      | false =>
        obtain ⟨rest, hrest, hrun⟩ := run_paintException _ hlive hshows
        rw [hrun]
        have hspan : Grows (t.addClass r.element "exception") _ :=
          .of_sameContents (Tree.sameContents_newElementWithText "span" error.message)
        exact trans_of Grows (.of_addClass (isWord_of (by cbv))) (trans_of Grows hspan (hrest _))
  · exact .of_addClass (isWord_of (by cbv))
  · exact .of_addClass (isWord_of (by cbv))

/-- An outcome is marked once it has been painted. -/
theorem marked_paintOne {r : Recorded} (hr : t.isElement r.element = true) :
    Marked ((paintOne r).run t).2 r := by
  intro w hw
  have hadd : ∀ {v : String}, IsWord v → (t.addClass r.element v).hasClass r.element v =
      true := fun {v} hv => by
    simp [Tree.hasClass_addClass hv, hr]
  cases ho : r.outcome with
  | success =>
    obtain rfl : "success" = w := by simpa [ho, marker] using hw
    simp only [paintOne, ho]
    exact hadd (isWord_of (by cbv))
  | failure expected actual =>
    obtain rfl : "failure" = w := by simpa [ho, marker] using hw
    simp only [paintOne, ho]
    cases h : t.hasClass r.element "failure" with
    | true => rwa [run_paintFailure_of_hasClass h]
    | false =>
      obtain ⟨rest, hrest, hrun⟩ := run_paintFailure actual h
      rw [hrun]
      exact (hrest _).hasClass (hadd (isWord_of (by cbv)))
  | exception expression error => simp [ho, marker] at hw
  | missingRow expected =>
    obtain rfl : "missing" = w := by simpa [ho, marker] using hw
    simp only [paintOne, ho]
    exact hadd (isWord_of (by cbv))
  | surplusRow actual =>
    obtain rfl : "surplus" = w := by simpa [ho, marker] using hw
    simp only [paintOne, ho]
    exact hadd (isWord_of (by cbv))

/-- What is marked and shown is not painted again. -/
theorem paintOne_of_shown {r : Recorded} (hm : Marked t r) (hs : Shown t r) :
    ((paintOne r).run t).2 = t := by
  cases ho : r.outcome with
  | success =>
    simp only [paintOne, ho]
    exact Tree.addClass_of_hasClass (hm _ (by simp [ho, marker]))
  | failure expected actual =>
    simp only [paintOne, ho]
    rw [run_paintFailure_of_hasClass (hm _ (by simp [ho, marker]))]
  | exception expression error =>
    simp only [paintOne, ho]
    cases hlive : t.isLive r.element with
    | false => exact run_paintException_of_stale hlive
    | true => rw [run_paintException_of_shows hlive (hs _ _ ho hlive)]
  | missingRow expected =>
    simp only [paintOne, ho]
    exact Tree.addClass_of_hasClass (hm _ (by simp [ho, marker]))
  | surplusRow actual =>
    simp only [paintOne, ho]
    exact Tree.addClass_of_hasClass (hm _ (by simp [ho, marker]))

/-- A message that is not found is painted, and that makes new nodes. -/
theorem size_lt_of_not_shown {r : Recorded} (hs : ¬ Shown t r) :
    t.nodes.size < ((paintOne r).run t).2.nodes.size := by
  simp only [Shown, not_forall] at hs
  obtain ⟨expression, error, ho, hlive, hshows⟩ := hs
  obtain ⟨rest, hrest, hrun⟩ := run_paintException expression hlive (by simpa using hshows)
  simp only [paintOne, ho, hrun]
  refine Nat.lt_of_lt_of_le ?_ (hrest _).size_le
  simp [Tree.newElementWithText, Tree.newElement, Tree.appendText_eq, Tree.size_hang, Tree.addClass]

/-! ## Painting a list -/

/-- Outcomes are painted one at a time, from the first on. -/
theorem paint_cons (r : Recorded) (rest : List Recorded) :
    (paint t (r :: rest)).1 = (paint ((paintOne r).run t).2 rest).1 := by
  rw [paint]
  cases h : (paintOne r).run t with
  | mk result t' => cases result <;> rfl

/-- Painting two lists is painting the second over the first. -/
theorem paint_append (os os' : List Recorded) :
    (paint t (os ++ os')).1 = (paint (paint t os).1 os').1 := by
  induction os generalizing t with
  | nil => rfl
  | cons r os ih =>
    rw [List.cons_append, paint_cons, paint_cons]
    exact ih

/-- Painting a list only grows the tree. -/
theorem paint_grows (os : List Recorded) (t : Tree) : Grows t (paint t os).1 := by
  induction os generalizing t with
  | nil => exact refl_of Grows t
  | cons r os ih =>
    rw [paint_cons]
    exact trans_of Grows (paintOne_grows r t) (ih _)

/-- After a painting each outcome is marked. -/
theorem marked_paint {os : List Recorded} (hos : ∀ r ∈ os, t.isElement r.element = true) :
    ∀ r ∈ os, Marked (paint t os).1 r := by
  induction os generalizing t with
  | nil => intro r hr; cases hr
  | cons r os ih =>
    intro r' hr'
    rw [paint_cons]
    rcases List.mem_cons.mp hr' with rfl | hr'
    · exact (marked_paintOne (hos _ (by simp))).mono (paint_grows _ _)
    · refine ih (fun x hx => ?_) r' hr'
      exact (paintOne_grows _ _).isElement (hos x (List.mem_cons_of_mem _ hx))

/-- What is marked is painted again only for an exception that does not show. -/
theorem paint_eq_self_iff {os : List Recorded} (hm : ∀ r ∈ os, Marked t r) :
    (paint t os).1 = t ↔ ∀ r ∈ os, Shown t r := by
  constructor
  · intro h
    induction os with
    | nil => intro r hr; cases hr
    | cons r os ih =>
      rw [paint_cons] at h
      have hr : Shown t r := by
        by_contra hs
        have hlt := size_lt_of_not_shown hs
        have hle := (paint_grows os ((paintOne r).run t).2).size_le
        rw [h] at hle
        omega
      rw [paintOne_of_shown (hm r (by simp)) hr] at h
      intro r' hr'
      rcases List.mem_cons.mp hr' with rfl | hr'
      · exact hr
      · exact ih (fun x hx => hm x (List.mem_cons_of_mem _ hx)) h r' hr'
  · intro h
    induction os with
    | nil => rfl
    | cons r os ih =>
      rw [paint_cons, paintOne_of_shown (hm r (by simp)) (h r (by simp))]
      exact ih (fun x hx => hm x (List.mem_cons_of_mem _ hx)) fun x hx =>
        h x (List.mem_cons_of_mem _ hx)

/-- **A second painting changes nothing exactly if the first one left each message where it can be
found.** -/
theorem paint_again_iff {os : List Recorded} (hos : ∀ r ∈ os, t.isElement r.element = true) :
    (paint (paint t os).1 os).1 = (paint t os).1 ↔ ∀ r ∈ os, Shown (paint t os).1 r :=
  paint_eq_self_iff (marked_paint hos)

end LiveSpec.Painting
