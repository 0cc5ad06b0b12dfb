import LiveSpec.Proofs.Outcome.Repainting
import LiveSpec.Proofs.Tree.Coating

/-!
# Taking the paint off

With the paint taken off, a painted document is what it was, but for the attribute `class`
(`erased_paint`), and there the words of the painted outcomes stand behind the others.

A tree stays `Coated` in each edit of the painter, also in one that fails, for a failure leaves the
tree alone (`Painting.Ends`). Only in the middle of a failed assertion it is not: there the children
of the element are below a `del` that hangs nowhere yet. Nothing can fail before it is hung in, for
the element is as live as it was (`Hung.isLive_move`).
-/

namespace LiveSpec

namespace Painting

open Markup Markup.Tree

variable {t s s' : Tree} {n c p : NodeId} {w : String} {α β : Type} {ok : NodeId → String → Prop}
  {r : Recorded} {os : List Recorded}

/-! ## Edits of a tree under paint -/

/-- An edit that ends in `Q` if it succeeds, and in `I` if it fails. -/
structure Ends (I : Tree → Prop) (m : Edit α) (t : Tree) (Q : α → Tree → Prop) : Prop where
  ok {a : α} {s : Tree} : m.run t = (.ok a, s) → Q a s
  error {e : TreeError} {s : Tree} : m.run t = (.error e, s) → I s

namespace Ends

variable {I : Tree → Prop} {Q : α → Tree → Prop} {R : β → Tree → Prop}

/-- A first step that succeeds. -/
theorem step {m : Edit α} {f : α → Edit β} {a : α} (hrun : m.run t = (.ok a, s))
    (h : Ends I (f a) s R) :
    Ends I (m >>= f) t R := by
  have hbind : (m >>= f).run t = (f a).run s := by rw [run_bind, hrun]
  constructor
  · intro b s' hb
    exact h.ok (hbind ▸ hb)
  · intro e s' he
    exact h.error (hbind ▸ he)

/-- An edit that is refused ends where it stands. -/
theorem stop {m : Edit α} {e : TreeError} (hrun : m.run t = (.error e, s)) (h : I s) :
    Ends I m t Q := by
  constructor
  · intro a s' ha
    rw [hrun] at ha
    cases ha
  · intro e' s' he
    rw [hrun] at he
    cases he
    exact h

/-- Edits in sequence end well if each does. -/
theorem bind {m : Edit α} {f : α → Edit β} (hm : Ends I m t Q)
    (hf : ∀ a s, Q a s → Ends I (f a) s R) :
    Ends I (m >>= f) t R := by
  cases hrun : m.run t with
  | mk r s =>
    cases r with
    | ok a => exact .step hrun (hf a s (hm.ok hrun))
    | error e => exact .stop (by rw [run_bind, hrun]) (hm.error hrun)

/-- An edit that is done ends well if its result is right. -/
theorem done {m : Edit α} {a : α} (hrun : m.run t = (.ok a, s)) (h : Q a s) : Ends I m t Q := by
  constructor
  · intro b s' hb
    rw [hrun] at hb
    cases hb
    exact h
  · intro e s' he
    rw [hrun] at he
    cases he

theorem pure {a : α} (h : Q a t) : Ends I (Pure.pure a) t Q := .done rfl h

/-- A top is appended, or the edit is refused. -/
theorem appendChild {Q : Unit → Tree → Prop} (hc : t.IsTop c) (hfail : I t)
    (h : Q () (t.hang c p (· ++ [c]))) :
    Ends I (attempt fun t => t.appendChild p c) t Q := by
  cases hlive : t.isLive p with
  | true => exact .done (run_attempt_ok (appendChild_eq hc hlive)) h
  | false =>
    exact .stop (e := .stale (t.name p))
      (run_attempt_error (Tree.ensureLive_bind_of_stale hlive)) hfail

/-- A node at the top is put behind one that hangs below `p`, if it can be. -/
theorem insertAfter {x : NodeId} {Q : Unit → Tree → Prop} (hc : t.IsTop c)
    (hx : (t.node x).link = .below p) (hfail : I t) (h : Q () (t.hang c p (putAfter x c))) :
    Ends I (attempt fun t => t.insertAfter x c) t Q := by
  cases hlive : t.isLive x with
  | false =>
    exact .stop (e := .stale (t.name x))
      (run_attempt_error (Tree.ensureLive_bind_of_stale hlive)) hfail
  | true =>
    cases hdestroyed : (t.node p).destroyed with
    | false =>
      exact .done
        (run_attempt_ok (insertAfter_eq hc hlive (above_eq_parent_iff.mpr ⟨hx, hdestroyed⟩))) h
    | true =>
      have hup : t.above x = .lost := by
        unfold above
        rw [hx]
        exact if_pos hdestroyed
      refine .stop (e := .missing "parent") (run_attempt_error ?_) hfail
      unfold Tree.insertAfter
      rw [Tree.ensureLive_bind_of_isLive hlive, hup]
      rfl

/-- The children of an element go to a node at the top, if the element is live. -/
theorem moveChildren {d : NodeId} {Q : Unit → Tree → Prop} (ht : t.Hung) (hn : n < t.nodes.size)
    (hd : t.IsTop d) (hne : n ≠ d) (hfail : I t)
    (h : t.isLive n = true → ∀ s, Moved n d t s → Q () s) :
    Ends I (attempt fun t => t.moveChildren n d) t Q := by
  cases hlive : t.isLive n with
  | true =>
    obtain ⟨s, hs, hmoved⟩ := ht.moveChildren_eq hlive hn hd hne
    exact .done (run_attempt_ok hs) (h hlive s hmoved)
  | false =>
    exact .stop (e := .stale (t.name n))
      (run_attempt_error (Tree.ensureLive_bind_of_stale hlive)) hfail

/-- Wherever it ends, the invariant holds. -/
theorem run {m : Edit α} (h : Ends I m t Q) (hQ : ∀ a s, Q a s → I s) : I (m.run t).2 := by
  cases hm : m.run t with
  | mk r s =>
    cases r with
    | ok a => exact hQ a s (h.ok hm)
    | error e => exact h.error hm

end Ends

/-- A node that was made beside a tree under paint, and hangs nowhere yet. -/
structure Bud (ok : NodeId → String → Prop) (t s : Tree) (c : NodeId) (name : String)
    (s' : Tree) : Prop where
  coated : Coated ok t s'
  size_le : s.nodes.size ≤ s'.nodes.size
  node {m : NodeId} : m < s.nodes.size → s'.node m = s.node m
  new : s.nodes.size ≤ c
  isTop : s'.IsTop c
  name_eq : s'.name c = name
  alive : (s'.node c).destroyed = false

/-- A new element is a bud without children. -/
theorem bud_newElement (h : Coated ok t s) (name : String) :
    Bud ok t s s.nodes.size (Text.asciiLower name) (s.newElement name).2 ∧
      ((s.newElement name).2.node s.nodes.size).children = [] := by
  have hnode :
      (s.newElement name).2.node s.nodes.size = .fresh (.element (Text.asciiLower name) []) := by
    show (s.add _).2.node s.nodes.size = _
    rw [node_add, if_pos rfl]
  refine ⟨⟨h.add _, ?_, fun hm => node_add_of_lt _ hm, Nat.le_refl _, ⟨?_, ?_⟩, ?_, ?_⟩, ?_⟩
  · show s.nodes.size ≤ (s.add _).2.nodes.size
    simp
  · show s.nodes.size < (s.add _).2.nodes.size
    simp
  · rw [hnode]
    rfl
  · unfold Tree.name
    rw [hnode]
    rfl
  · rw [hnode]
    rfl
  · rw [hnode]
    rfl

/-- So is a new element with a text, which is no `del`. -/
theorem bud_newElementWithText (h : Coated ok t s) (name text : String)
    (hname : Text.asciiLower name ≠ "del") :
    Bud ok t s s.nodes.size (Text.asciiLower name) (s.newElementWithText name text).2 := by
  obtain ⟨hbud, -⟩ := bud_newElement h name
  show Bud ok t s s.nodes.size (Text.asciiLower name)
      ((s.newElement name).2.appendText s.nodes.size text)
  generalize (s.newElement name).2 = s₁ at hbud ⊢
  have hlt := hbud.isTop.lt
  have hne : s.nodes.size ≠ s₁.nodes.size := Nat.ne_of_lt hlt
  have htop : (s₁.add (.text text)).2.IsTop s₁.nodes.size :=
    ⟨by simp, by rw [node_add, if_pos rfl]; rfl⟩
  have hold : (s₁.add (.text text)).2.node s.nodes.size = s₁.node s.nodes.size :=
    node_add_of_lt _ hlt
  have hnode := fun m => node_hang_add (m := m) (.text text) (· ++ [s₁.nodes.size]) hlt
  rw [appendText_eq]
  refine ⟨?_, ?_, fun {m} hm => ?_, Nat.le_refl _, ⟨?_, ?_⟩, ?_, ?_⟩
  · refine (hbud.coated.add _).hang_new htop (Nat.le_trans h.size_le hbud.size_le) ?_ h.size_le ?_
      (List.perm_append_singleton ..)
    · rw [size_add]
      exact Nat.lt_succ_of_lt hlt
    · rwa [name_congr (congrArg Node.content hold), hbud.name_eq]
  · rw [size_hang, size_add]
    exact Nat.le_succ_of_le hbud.size_le
  · rw [hnode, if_neg (Nat.ne_of_lt (Nat.lt_trans hm hlt)), if_neg (Nat.ne_of_lt hm)]
    exact hbud.node hm
  · rw [size_hang, size_add]
    exact Nat.lt_succ_of_lt hlt
  · rw [hnode, if_neg hne, if_pos rfl]
    exact hbud.isTop.link
  · rw [← hbud.name_eq]
    refine name_congr ?_
    rw [hnode, if_neg hne, if_pos rfl]
  · rw [hnode, if_neg hne, if_pos rfl]
    exact hbud.alive

namespace Bud

variable {name : String} (h : Bud ok t s c name s')
include h

/-- A bud may be given a class. -/
theorem addClass (hw : IsWord w) (hold : t.nodes.size ≤ s.nodes.size) :
    Bud ok t s c name (s'.addClass c w) := by
  have hshape : s'.SameShape (s'.addClass c w) := modifyAttributes_sameShape _
  have hclt : ¬ c < t.nodes.size := Nat.not_lt.mpr (Nat.le_trans hold h.new)
  refine ⟨h.coated.addClass hw fun hlt => absurd hlt hclt, hshape.size.symm ▸ h.size_le,
    fun {m} hm => ?_, h.new,
    ⟨hshape.size.symm ▸ h.isTop.lt, ?_⟩, ?_, ?_⟩
  · rw [Tree.addClass, node_modifyAttributes, if_neg (Nat.ne_of_gt (Nat.lt_of_lt_of_le hm h.new))]
    exact h.node hm
  · rw [hshape.link, h.isTop.link]
  · rw [name_addClass, h.name_eq]
  · rw [hshape.destroyed, h.alive]

/-- It has it then. -/
theorem hasClass_addClass (hw : IsWord w) (hname : name ≠ "") :
    (s'.addClass c w).hasClass c w = true := by
  have hn : s'.isElement c = true := by
    have hne : s'.name c ≠ "" := h.name_eq ▸ hname
    unfold Tree.name at hne
    unfold isElement
    split
    · rfl
    · next hnot =>
      split at hne
      · next hcontent => exact absurd hcontent (hnot _ _)
      · exact absurd rfl hne
  simp [Tree.hasClass_addClass hw, hn]

/-- What was a top before the bud is one still. -/
theorem isTop_old {m : NodeId} (hm : s.IsTop m) : s'.IsTop m :=
  ⟨Nat.lt_of_lt_of_le hm.lt h.size_le, (congrArg Node.link (h.node hm.lt)).trans hm.link⟩

end Bud

section

variable {I : Tree → Prop} {name text : String}

/-- An element with a class and a text ends as a bud, or is refused half way. -/
theorem ends_textElement (h : Coated ok t s) (hw : IsWord w) (hname : Text.asciiLower name ≠ "del")
    (hne : Text.asciiLower name ≠ "") :
    Ends I (textElement name w text) s fun c s' =>
      Bud ok t s c (Text.asciiLower name) s' ∧ s'.hasClass c w = true := by
  have hbud := bud_newElementWithText h name text hname
  exact .step rfl (.step rfl (.pure ⟨hbud.addClass hw h.size_le, hbud.hasClass_addClass hw hne⟩))

/-- The frames go into a node that hangs nowhere yet. -/
theorem ends_paintFrames {trace : NodeId} {frames : List String} (h : Coated ok t s)
    (htrace : s.IsTop trace) (hnew : t.nodes.size ≤ trace) (hname : s.name trace ≠ "del") :
    Ends (Coated ok t) (paintFrames trace frames) s fun _ s' =>
      Coated ok t s' ∧ s'.IsTop trace ∧ (s'.node trace).content = (s.node trace).content := by
  induction frames generalizing s with
  | nil => exact .pure ⟨h, htrace, rfl⟩
  | cons frame frames ih =>
    refine .bind (ends_textElement h (isWord_of (by cbv)) (by cbv) (by cbv)) ?_
    rintro entry s₁ ⟨hentry, -⟩
    have hold := hentry.node htrace.lt
    have htrace₁ := hentry.isTop_old htrace
    have hcontent₁ : (s₁.node trace).content = (s.node trace).content := by rw [hold]
    have hname₁ : s₁.name trace ≠ "del" := name_congr hcontent₁ ▸ hname
    have hne : trace ≠ entry := Nat.ne_of_lt (Nat.lt_of_lt_of_le htrace.lt hentry.new)
    have h₂ :=
      hentry.coated.hang_new hentry.isTop (Nat.le_trans h.size_le hentry.new) htrace₁.lt hnew hname₁
      (f := (· ++ [entry])) (List.perm_append_singleton ..)
    have hcontent₂ :
        ((s₁.hang entry trace (· ++ [entry])).node trace).content = (s.node trace).content := by
      rw [node_hang]
      exact hcontent₁
    have htrace₂ : (s₁.hang entry trace (· ++ [entry])).IsTop trace :=
      (isTop_hang_iff _ hentry.isTop.lt).mpr ⟨htrace₁, hne⟩
    refine .bind (Q := fun _ s' => Coated ok t s' ∧ s'.IsTop trace ∧
      (s'.node trace).content = (s.node trace).content)
      (.appendChild hentry.isTop hentry.coated ⟨h₂, htrace₂, hcontent₂⟩) ?_
    rintro - s₂ ⟨h₂, htrace₂, hcontent₂⟩
    have hend := ih h₂ htrace₂ (name_congr hcontent₂ ▸ hname)
    rwa [hcontent₂] at hend

/-- **A painted exception adds notes.** -/
theorem coated_paintException (h : Coated ok t s) (hn : n < t.nodes.size) (hok : ok n "exception")
    (expression : String) (error : EvaluationError) :
    Coated ok t ((paintException n expression error).run s).2 := by
  cases hlive : s.isLive n with
  | false => rwa [run_paintException_of_stale hlive]
  | true =>
    cases hshows : showsMessage s (s.elementsOf n) error.message with
    | true => rwa [run_paintException_of_shows hlive hshows]
    | false =>
      suffices hends : Ends (Coated ok t) (paintException n expression error) s fun _ =>
          Coated ok t from
        hends.run fun _ _ => id
      refine .step (a := s) rfl (.step (a := s.elementsOf n) (s := s) ?_ ?_)
      · exact congrArg (·, s) (Tree.childElements_of_isLive hlive)
      rw [if_neg (by simp [hshows])]
      refine .step (a := ()) (s := s.addClass n "exception") rfl ?_
      have h₁ : Coated ok t (s.addClass n "exception") :=
        h.addClass (isWord_of (by cbv)) fun _ => hok
      generalize s.addClass n "exception" = s₁ at h₁ ⊢
      -- the message
      refine .bind (ends_textElement h₁ (isWord_of (by cbv)) (by cbv) (by cbv)) ?_
      rintro a s₂ ⟨ha, hclass⟩
      have hnote : s₂.isNote a = true := by simp [isNote, hclass]
      have h₃ := ha.coated.hang_note ha.isTop (Nat.le_trans h₁.size_le ha.new) hn
        (by rw [ha.name_eq]; cbv) hnote
        (f := (· ++ [a])) ⟨(s₂.node n).children, [], by simp, rfl⟩
      refine .bind (Q := fun _ => Coated ok t) (.appendChild ha.isTop ha.coated h₃) ?_
      rintro - s₃ h₃
      -- the frames
      refine .step (a := s₃.nodes.size) rfl (.step (a := ()) rfl ?_)
      have hb :=
        (bud_newElement h₃ "div").1.addClass (w := "stackTrace") (isWord_of (by cbv)) h₃.size_le
      have hbclass := (bud_newElement h₃ "div").1.hasClass_addClass (w := "stackTrace")
        (isWord_of (by cbv)) (by cbv)
      show Ends _ _ ((s₃.newElement "div").2.addClass s₃.nodes.size "stackTrace") _
      generalize (s₃.newElement "div").2.addClass s₃.nodes.size "stackTrace" = s₄ at hb hbclass ⊢
      refine .step (a := s₄.nodes.size) rfl ?_
      have hline := bud_newElementWithText hb.coated "p"
        ("While evaluating expression: " ++ expression) (by cbv)
      show Ends _ _ (s₄.newElementWithText "p" ("While evaluating expression: " ++ expression)).2 _
      generalize (s₄.newElementWithText "p" ("While evaluating expression: " ++ expression)).2 =
        s₅ at hline ⊢
      have hcontent₅ : (s₅.node s₃.nodes.size).content = (s₄.node s₃.nodes.size).content := by
        rw [hline.node hb.isTop.lt]
      have htop₅ := hline.isTop_old hb.isTop
      have hname₅ : s₅.name s₃.nodes.size ≠ "del" := by
        rw [name_congr hcontent₅, hb.name_eq]
        cbv
      have hne : s₃.nodes.size ≠ s₄.nodes.size := Nat.ne_of_lt hb.isTop.lt
      have h₆ := hline.coated.hang_new hline.isTop
        (Nat.le_trans hb.coated.size_le hline.new) htop₅.lt h₃.size_le hname₅
        (f := (· ++ [s₄.nodes.size])) (List.perm_append_singleton ..)
      have hcontent₆ : ((s₅.hang s₄.nodes.size s₃.nodes.size (· ++ [s₄.nodes.size])).node
          s₃.nodes.size).content =
          (s₄.node s₃.nodes.size).content := by
        rw [node_hang]
        exact hcontent₅
      have htop₆ :
          (s₅.hang s₄.nodes.size s₃.nodes.size (· ++ [s₄.nodes.size])).IsTop s₃.nodes.size :=
        (isTop_hang_iff _ hline.isTop.lt).mpr ⟨htop₅, hne⟩
      refine .bind (Q := fun _ s' => Coated ok t s' ∧ s'.IsTop s₃.nodes.size ∧
          (s'.node s₃.nodes.size).content = (s₄.node s₃.nodes.size).content)
        (.appendChild hline.isTop hline.coated ⟨h₆, htop₆, hcontent₆⟩) ?_
      rintro - s₆ ⟨h₆, htop₆, hcontent₆⟩
      have hname₆ : s₆.name s₃.nodes.size ≠ "del" := by
        rw [name_congr hcontent₆, hb.name_eq]
        cbv
      refine .bind (ends_paintFrames h₆ htop₆ h₃.size_le hname₆) ?_
      rintro - s₇ ⟨h₇, htop₇, hcontent₇⟩
      have hnote₇ : s₇.isNote s₃.nodes.size = true := by
        rw [isNote_congr (hcontent₇.trans hcontent₆)]
        simp [isNote, hbclass]
      have hname₇ : s₇.name s₃.nodes.size ≠ "del" := name_congr hcontent₇ ▸ hname₆
      refine .appendChild htop₇ h₇ ?_
      exact h₇.hang_note htop₇ h₃.size_le hn hname₇ hnote₇ ⟨(s₇.node n).children, [], by simp, rfl⟩

/-- **A painted failure wraps what was there**, once. -/
theorem coated_paintFailure (h : Coated ok t s) (hn : n < t.nodes.size) (hok : ok n "failure")
    (he : s.isElement n = true) (actual : String) :
    Coated ok t ((paintFailure n actual).run s).2 := by
  cases hclass : s.hasClass n "failure" with
  | true => rwa [run_paintFailure_of_hasClass hclass]
  | false =>
    suffices hends : Ends (Coated ok t) (paintFailure n actual) s fun _ =>
        Coated ok t from hends.run fun _ _ => id
    refine .step (a := s) rfl ?_
    rw [if_neg (by simp [hclass])]
    refine .step (a := ()) rfl ?_
    -- an element that did not fail before contains no wrapper
    have hword : IsWord "failure" := isWord_of (by cbv)
    have hfirst : ∀ c ∈ (s.node n).children, t.nodes.size ≤ c → s.name c ≠ "del" := by
      intro c hc hge hdel
      have hfailed := h.failed hn hc hge hdel
      rw [hclass] at hfailed
      cases hfailed
    have h₁ : Coated ok t (s.addClass n "failure") := h.addClass hword fun _ => hok
    have hfailed₁ : (s.addClass n "failure").hasClass n "failure" = true := by
      simp [Tree.hasClass_addClass hword, he]
    have hfirst₁ : ∀ c ∈ ((s.addClass n "failure").node n).children, t.nodes.size ≤ c →
        (s.addClass n "failure").name c ≠ "del" := by
      intro c hc hge
      have hshape : s.SameShape (s.addClass n "failure") := modifyAttributes_sameShape _
      rw [hshape.children] at hc
      rw [name_addClass]
      exact hfirst c hc hge
    show Ends _ _ (s.addClass n "failure") _
    generalize s.addClass n "failure" = s₁ at h₁ hfailed₁ hfirst₁ ⊢
    cases hlive : s₁.isLive n with
    | false => exact .stop (by rw [run_bind, run_ensureLive_of_stale hlive]) h₁
    | true =>
      refine .step (run_ensureLive hlive) ?_
      -- what was expected
      refine .step (a := s₁.nodes.size) rfl (.step (a := ()) rfl ?_)
      have hd :=
        (bud_newElement h₁ "del").1.addClass (w := "expected") (isWord_of (by cbv)) h₁.size_le
      have hshape : (s₁.newElement "del").2.SameShape
          ((s₁.newElement "del").2.addClass s₁.nodes.size "expected") :=
        modifyAttributes_sameShape _
      have hempty := (hshape.children s₁.nodes.size).trans (bud_newElement h₁ "del").2
      show Ends _ _ ((s₁.newElement "del").2.addClass s₁.nodes.size "expected") _
      generalize (s₁.newElement "del").2.addClass s₁.nodes.size "expected" = s₂ at hd hempty ⊢
      have hnlt : n < s₁.nodes.size := Nat.lt_of_lt_of_le hn h₁.size_le
      have hnode₂ : s₂.node n = s₁.node n := hd.node hnlt
      have hdel : s₂.name s₁.nodes.size = "del" := hd.name_eq.trans (by cbv)
      have hfailed₂ : s₂.hasClass n "failure" = true := by
        unfold hasClass attributes at hfailed₁ ⊢
        rwa [hnode₂]
      have hfirst₂ : ∀ c ∈ (s₂.node n).children, t.nodes.size ≤ c → s₂.name c ≠ "del" := by
        intro c hc hge
        rw [hnode₂] at hc
        rw [name_congr (congrArg Node.content (hd.node (h₁.child_lt hc)))]
        exact hfirst₁ c hc hge
      refine .bind (Q := fun _ s => s₂.isLive n = true ∧ Moved n s₁.nodes.size s₂ s)
        (.moveChildren hd.coated.toHung (Nat.lt_of_lt_of_le hnlt hd.size_le) hd.isTop
          (Nat.ne_of_lt hnlt) hd.coated
          fun hlive s hmoved => ⟨hlive, hmoved⟩) ?_
      -- between the two edits nothing can fail: the element is as live as it was
      rintro - s₃ ⟨hlive₂, hmoved⟩
      have hlive₃ := hd.coated.toHung.isLive_move hmoved hd.isTop hd.alive hlive₂
      have htop₃ : s₃.IsTop s₁.nodes.size := by
        refine ⟨hmoved.size.symm ▸ hd.isTop.lt, ?_⟩
        rw [hmoved.node]
        dsimp only
        rw [if_neg (hd.coated.unlisted hd.isTop), hd.isTop.link]
      refine .step (run_attempt_ok (appendChild_eq htop₃ hlive₃)) ?_
      have h₄ := hd.coated.wrap hn hd.isTop h₁.size_le hdel hempty hfailed₂ hfirst₂ hmoved
      have hlink₄ : ((s₃.hang s₁.nodes.size n (· ++ [s₁.nodes.size])).node s₁.nodes.size).link =
          .below n := by
        rw [link_hang _ htop₃.lt, if_pos rfl]
      have hlt₄ : s₁.nodes.size < (s₃.hang s₁.nodes.size n (· ++ [s₁.nodes.size])).nodes.size := by
        rw [size_hang]
        exact htop₃.lt
      generalize s₃.hang s₁.nodes.size n (· ++ [s₁.nodes.size]) = s₄ at h₄ hlink₄ hlt₄ ⊢
      -- what was found
      refine .bind (ends_textElement h₄ (isWord_of (by cbv)) (by cbv) (by cbv)) ?_
      rintro i s₅ ⟨hi, -⟩
      have hlink₅ : (s₅.node s₁.nodes.size).link = .below n := by rw [hi.node hlt₄, hlink₄]
      have hins : s₅.name i = "ins" := hi.name_eq.trans (by cbv)
      refine .insertAfter hi.isTop hlink₅ hi.coated ?_
      exact hi.coated.hang_note hi.isTop (Nat.le_trans h₄.size_le hi.new) hn (by simp [hins])
        (by simp [isNote, hins])
        (exists_putAfter ..)

end

/-! ## Painting outcomes -/

/-- The class that the painter writes for an outcome. -/
def className : Outcome → String
  | .success => "success"
  | .failure _ _ => "failure"
  | .exception _ _ => "exception"
  | .missingRow _ => "missing"
  | .surplusRow _ => "surplus"

/-- Painting one outcome leaves the tree coated. -/
theorem coated_paintOne (h : Coated ok t s) (hr : r.element < t.nodes.size)
    (he : s.isElement r.element = true) (hok : ok r.element (className r.outcome)) :
    Coated ok t ((paintOne r).run s).2 := by
  cases ho : r.outcome with
  | success =>
    simp only [paintOne, ho]
    exact h.addClass (isWord_of (by cbv)) fun _ => by simpa [ho, className] using hok
  | failure expected actual =>
    simp only [paintOne, ho]
    exact coated_paintFailure h hr (by simpa [ho, className] using hok) he actual
  | exception expression error =>
    simp only [paintOne, ho]
    exact coated_paintException h hr (by simpa [ho, className] using hok) expression error
  | missingRow expected =>
    simp only [paintOne, ho]
    exact h.addClass (isWord_of (by cbv)) fun _ => by simpa [ho, className] using hok
  | surplusRow actual =>
    simp only [paintOne, ho]
    exact h.addClass (isWord_of (by cbv)) fun _ => by simpa [ho, className] using hok

/-- So does painting a list. -/
theorem coated_paint (h : Coated ok t s) (hos : ∀ r ∈ os, t.isElement r.element = true)
    (hgrows : Grows t s) (hok : ∀ r ∈ os, ok r.element (className r.outcome)) :
    Coated ok t (paint s os).1 := by
  induction os generalizing s with
  | nil => exact h
  | cons r os ih =>
    have hr := hos r (by simp)
    rw [paint_cons]
    refine ih ?_ (fun x hx => hos x (List.mem_cons_of_mem _ hx)) ?_ fun x hx =>
      hok x (List.mem_cons_of_mem _ hx)
    · exact coated_paintOne h (lt_size_of_isElement hr) (hgrows.isElement hr) (hok r (by simp))
    · exact trans_of Grows hgrows (paintOne_grows r s)

/-- **Painting can be undone.** With each `del` that painting added unwrapped, and each `ins`,
message and trace left out, the tree is the one that was painted: the same nodes below the same
parents in the same order, with the same attributes apart from `class`. The words of that attribute
are those that were there, in their order, and behind them classes of outcomes of the element. -/
theorem erased_paint (ht : t.Hung) (hos : ∀ r ∈ os, t.isElement r.element = true) :
    ((paint t os).1.erased t.nodes.size).unclassed = t.unclassed ∧
    ∀ n < t.nodes.size, ∃ ws,
      ((paint t os).1.attributes n).classes = (t.attributes n).classes ++ ws ∧
      ∀ w ∈ ws, ∃ r ∈ os, r.element = n ∧ className r.outcome = w := by
  have hcoated : Coated (fun n w => ∃ r ∈ os, r.element = n ∧ className r.outcome = w) t
      (paint t os).1 :=
    coated_paint (.refl ht) hos (refl_of Grows t) fun r hr => ⟨r, hr, rfl, rfl⟩
  exact ⟨hcoated.unclassed_erased, fun n hn => hcoated.classes hn⟩

namespace Sample

/-- A paragraph with a bold word and a text. -/
def paragraph : Tree :=
  ⟨#[⟨.document, [1], .top, false⟩, ⟨.element "p" [("class", "note")], [2, 4], .below 0, false⟩,
    ⟨.element "b" [], [3], .below 1, false⟩, ⟨.text "x", [], .below 2, false⟩,
    ⟨.text " y", [], .below 1, false⟩]⟩

theorem paragraph_sound : paragraph.Sound := sound_of_agrees rfl (by decide) (by decide)

/-- Outcomes of the paragraph and of the word in it. -/
def nested : List Recorded :=
  [⟨2, .exception "f()" (.thrown "f()" "boom" [])⟩, ⟨1, .failure "x y" "z"⟩, ⟨2, .failure "x" "w"⟩,
    ⟨1, .success⟩]

end Sample

/-- The word fails inside of the paragraph that fails, and both are found again. -/
theorem erased_paint_nested :
    Sample.paragraph.Hung ∧ (∀ r ∈ Sample.nested, Sample.paragraph.isElement r.element = true) ∧
    ((paint Sample.paragraph Sample.nested).1.erased 5).unclassed = Sample.paragraph.unclassed ∧
    ∀ n < 5, ∃ ws, ((paint Sample.paragraph Sample.nested).1.attributes n).classes =
      (Sample.paragraph.attributes n).classes ++ ws ∧
      ∀ w ∈ ws, ∃ r ∈ Sample.nested, r.element = n ∧ className r.outcome = w := by
  have hhung := Sample.paragraph_sound.toCoherent.hung
  have hos : ∀ r ∈ Sample.nested, Sample.paragraph.isElement r.element = true := by decide
  obtain ⟨htree, hclasses⟩ := erased_paint hhung hos
  exact ⟨hhung, hos, htree, hclasses⟩

end Painting
end LiveSpec
