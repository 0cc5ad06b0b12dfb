import LiveSpec.Markup.Construction
import LiveSpec.Proofs.Results

/-!
# What the rules of reading keep

From the head on, the rules of reading change a document under construction in a few ways only:
content is hung in, open elements are closed or opened again, another part is entered, and some
things are remembered. A property that all of these keep is `Closed`, and every rule keeps it,
whether it takes the lexeme or hands it on (`Closed.rule`). If the rules before the head keep it as
well, so does the reading of any text (`read_keeps`).
-/

namespace LiveSpec.Markup.Builder

open Markup.Tree

variable {P : Builder → Prop} {b b' : Builder} {name : String} {as : Attributes} {l : Lexeme}

/-- A property of documents under construction that is kept from the head on. -/
structure Closed (P : Builder → Prop) : Prop where
  addBelow {b : Builder} {n : NodeId} (s : String) : P b → n ∈ documentId :: b.openElements →
    P (b.addBelow n (.comment s))
  addComment {b : Builder} (s : String) : P b → P (b.addComment s)
  addText {b : Builder} (cs : List Char) : P b → P (b.addText cs)
  openElement {b : Builder} (name : String) (as : Attributes) : P b → P (b.openElement name as)
  openText {b : Builder} (name : String) (as : Attributes) (manner : Manner) :
    P b → P (b.openText name as manner)
  mergeAttributes {b : Builder} (n : NodeId) (as : Attributes) : P b → P (b.mergeAttributes n as)
  fewer {b : Builder} {ns : List NodeId} : P b → ns ⊆ b.openElements →
    P { b with openElements := ns }
  again {b : Builder} {n : NodeId} : P b → b.headElement = some n →
    P { b with openElements := n :: b.openElements }
  enter {b : Builder} {part : Part} : P b → part ∉ Part.textOnly :: dropsBlanks → P (b.enter part)
  reenter {b : Builder} : P b → P b.reenter
  leaveText {b : Builder} : P b → b.part = .textOnly →
    P { b with part := b.outerPart, manner := .markup }
  form {b : Builder} (f : Option NodeId) : P b → P { b with formElement := f }
  newline {b : Builder} (drops : Bool) : P b → P { b with dropsNewline := drops }
  manner {b : Builder} (m : Manner) : P b → P { b with manner := m }
  aside {b : Builder} (isAside : Bool) : P b → P { b with aside := isAside }

/-- What a rule leads to has the property. -/
def Step.All (P : Builder → Prop) : Step → Prop
  | .done b | .again b => P b

/-- A choice between two steps is good if both are. -/
theorem Step.All.ite {q : Prop} [Decidable q] {x y : Step} (hx : x.All P) (hy : y.All P) :
    (if q then x else y).All P := by
  split
  · exact hx
  · exact hy

/-- And so is a choice between two constructions. -/
theorem keeps_ite {q : Prop} [Decidable q] (h : P b) (h' : P b') : P (if q then b else b') := by
  split
  · exact h
  · exact h'

/-- What is left open was open. -/
theorem closeNearest?_subset {rest ns : List NodeId} (hrest : b.closeNearest? name ns = some rest) :
    rest ⊆ ns := by
  induction ns with
  | nil => cases hrest
  | cons n ns ih =>
    unfold closeNearest? at hrest
    split at hrest
    · obtain rfl := Option.some.inj hrest
      exact List.subset_cons_self _ _
    · split at hrest
      · cases hrest
      · exact List.subset_cons_of_subset _ (ih hrest)

namespace Closed

variable (hP : Closed P) (h : P b)
include hP h

/-! ## Closing -/

/-- Closing elements is one of the moves that are kept. -/
theorem pop : P b.pop := hP.fewer h (List.tail_subset _)

theorem popThrough (names : List String) : P (b.popThrough names) :=
  hP.fewer h (List.Subset.trans (List.tail_subset _) (List.dropWhile_subset _))

theorem popTo (names : List String) : P (b.popTo names) := hP.fewer h (List.dropWhile_subset _)

/-- Elements whose end tag may be left out are closed. -/
theorem popOptional (keep : String) : P (b.popOptional keep) := hP.fewer h (List.dropWhile_subset _)

theorem close (names : List String) : P (b.close names) := hP.popThrough (hP.popOptional h "") names

/-- A paragraph is closed if one is open. -/
theorem closeParagraph : P b.closeParagraph := by
  unfold Builder.closeParagraph
  exact keeps_ite (hP.popThrough (hP.popOptional h "p") ["p"]) h

/-- An element is opened and closed at once. -/
theorem addElement (name : String) (as : Attributes) : P (b.addElement name as) :=
  hP.pop (hP.openElement name as h)

/-- An element is opened, and another part is entered. -/
theorem openPart (name : String) (as : Attributes) {part : Part}
    (hpart : part ∉ Part.textOnly :: dropsBlanks) :
    P ((b.openElement name as).enter part) := hP.enter (hP.openElement name as h) hpart

/-! ## Head and body -/

/-- What belongs into the head is opened or added there. -/
theorem headElement? (hb' : b.headElement? name as = some b') : P b' := by
  unfold Builder.headElement? at hb'
  split at hb'
  · exact Option.some.inj hb' ▸ hP.addElement h name as
  split at hb'
  · exact Option.some.inj hb' ▸ hP.openText _ _ _ h
  split at hb'
  · exact Option.some.inj hb' ▸ hP.openText _ _ _ h
  split at hb'
  · exact Option.some.inj hb' ▸ hP.openText _ _ _ h
  · cases hb'

theorem leaveHead : P b.leaveHead := hP.enter (hP.pop h) (by decide)

/-- The rule inside the head, one case for each lexeme. -/
theorem inHead (l : Lexeme) : (b.inHead l).All P := by
  have hleft := hP.leaveHead h
  unfold Builder.inHead
  split
  · exact hP.addComment _ h
  · exact h
  · exact hP.mergeAttributes _ _ h
  · exact h
  · split
    · next hb' => exact hP.headElement? h hb'
    · exact hleft
  · exact hleft
  · exact .ite hleft h
  · exact hleft

theorem openBody (as : Attributes) : P (b.openBody as) := hP.openPart h "body" as (by decide)

/-- The rule between head and body. The head is opened once more for what belongs there. -/
theorem afterHead (l : Lexeme) : (b.afterHead l).All P := by
  have hbody := hP.openBody h
  unfold Builder.afterHead
  split
  · exact hP.addComment _ h
  · exact h
  · exact hP.mergeAttributes _ _ h
  · exact hbody _
  · exact h
  · exact h
  · split
    · next n hn =>
      split
      · -- an element that belongs into the head is read with the head open again
        next b' hb' =>
          exact hP.fewer (hP.headElement? (hP.again h hn) hb') (List.filter_subset_self _)
      · exact hbody _
    · exact hbody _
  · exact .ite (hbody _) h
  · exact hbody _

/-- An item of a list closes the one before it. -/
theorem openItem (name : String) (as : Attributes) (names : List String) :
    P (b.openItem name as names) := by
  unfold Builder.openItem
  refine hP.openElement _ _ (hP.closeParagraph ?_)
  split
  · exact hP.popThrough (hP.popOptional h _) _
  · exact h

/-- A start tag inside the body, one case for each group of names. -/
theorem startInBody (name : String) (as : Attributes) : (b.startInBody name as).All P := by
  have hparagraph := hP.closeParagraph h
  unfold Builder.startInBody
  refine .ite (hP.mergeAttributes _ _ h) <| .ite ?body <| .ite (hP.openElement _ _ hparagraph) <|
    .ite (hP.openElement _ _ (keeps_ite (hP.pop hparagraph) hparagraph)) <|
    .ite (hP.newline true (hP.openElement _ _ hparagraph)) <| .ite (.ite h ?form) <|
      .ite (hP.openItem h ..) <|
    .ite (hP.openItem h ..) <| .ite (hP.manner .endless (hP.openElement _ _ hparagraph)) <|
    .ite (hP.openElement _ _ (keeps_ite (hP.close h _) h)) <|
    .ite (hP.openPart (keeps_ite h hparagraph) _ _ (by decide)) <| .ite (hP.addElement h ..) <|
    .ite (hP.addElement hparagraph ..) <| .ite (hP.addElement h ..) <|
      .ite (hP.newline true (hP.openText _ _ _ h)) <|
    .ite (hP.openText _ _ _ hparagraph) <| .ite (hP.openText _ _ _ h) <|
      .ite (hP.openPart h _ _ ?choice) <|
    .ite (hP.openElement _ _ (keeps_ite (hP.pop h) h)) <|
    .ite (hP.openElement _ _ (keeps_ite (hP.popOptional h _) h)) <|
    .ite (hP.openElement _ _ (keeps_ite (hP.popOptional h _) h)) <| .ite h ?other
  case body =>
    split
    · exact .ite (hP.mergeAttributes _ _ h) h
    · exact h
  case form => exact hP.form _ (hP.openElement _ _ hparagraph)
  case choice => split <;> decide
  case other =>
    split
    · next hb' => exact hP.headElement? h hb'
    · exact hP.openElement _ _ h

/-- An end tag inside the body closes elements at most. -/
theorem endInBody (name : String) : (b.endInBody name).All P := by
  have hafter : P (b.enter .afterBody) := hP.enter h (by decide)
  have hclosed : ∀ names, P (b.close names) := hP.close h
  have hitem : ∀ keep names, P ((b.popOptional keep).popThrough names) := fun keep names =>
    hP.popThrough (hP.popOptional h keep) names
  unfold Builder.endInBody
  refine .ite (.ite hafter h) <| .ite (.ite hafter h) <| .ite (.ite (hclosed _) h) <| .ite ?form <|
    .ite (.ite (hP.closeParagraph h) (hP.addElement h ..)) <| .ite (.ite (hitem _ _) h) <|
      .ite (.ite (hitem _ _) h) <|
    .ite (.ite (hclosed _) h) <| .ite (.ite (hclosed _) h) <| .ite (hP.addElement h ..) ?other
  case form =>
    split
    · exact .ite (hP.fewer (hP.popOptional (hP.form none h) "") (List.filter_subset_self _))
        (hP.form none h)
    · exact h
  case other =>
    split
    · next hrest => exact hP.fewer h (closeNearest?_subset hrest)
    · exact h

theorem inBody (l : Lexeme) : (b.inBody l).All P := by
  cases l with
  | text cs => exact hP.addText cs h
  | comment s => exact hP.addComment s h
  | startTag name as => exact hP.startInBody h name as
  | endTag name => exact hP.endInBody h name
  | doctype | finish => exact h

/-- The rule inside an element that holds text alone leaves it at the end. -/
theorem inText (htext : b.part = .textOnly) (l : Lexeme) : (b.inText l).All P := by
  have hleft : P { b.pop with part := b.outerPart, manner := .markup } :=
    hP.leaveText (hP.pop h) htext
  cases l with
  | text cs => exact hP.addText cs h
  | _ => exact hleft

/-! ## Tables -/

/-- What a table cannot hold goes through the rule of the body. -/
theorem besideTable (l : Lexeme) : (b.besideTable l).All P := by
  have hbody := hP.inBody (hP.aside true h) l
  unfold Builder.besideTable
  split
  · next hdone =>
    rw [hdone] at hbody
    exact hP.aside false hbody
  · next hagain =>
    rw [hagain] at hbody
    exact hP.aside false hbody

/-- The rule inside a table, and with it those of its parts. -/
theorem inTable (l : Lexeme) : (b.inTable l).All P := by
  have hbeside := hP.besideTable h l
  have hcleared := hP.popTo h ["table", "template", "html"]
  have hleft : P (b.popThrough ["table"]).reenter := hP.reenter (hP.popThrough h _)
  have hpart : ∀ name as, ∀ {part : Part}, part ∉ Part.textOnly :: dropsBlanks →
      P (((b.popTo ["table", "template", "html"]).openElement name as).enter part) :=
    hP.openPart hcleared
  cases l with
  | text cs => exact .ite (hP.addText cs h) hbeside
  | comment s => exact hP.addComment s h
  | doctype => exact h
  | finish => exact hP.inBody h .finish
  | startTag name as =>
    exact .ite (hpart _ _ (by decide)) <| .ite (hpart _ _ (by decide)) <|
      .ite (hpart _ _ (by decide)) <|
      .ite (hpart _ _ (by decide)) <| .ite (hpart _ _ (by decide)) <| .ite (.ite hleft h) <|
      .ite (hP.openText _ _ _ h) <| .ite (hP.openText _ _ _ h) <| .ite (hP.addElement h ..) <|
      .ite (.ite h (hP.form _ (hP.pop (hP.openElement _ _ h)))) hbeside
  | endTag name => exact .ite (.ite hleft h) <| .ite h hbeside

theorem inCaption (l : Lexeme) : (b.inCaption l).All P := by
  have hbody := hP.inBody h l
  have hleft : P ((b.close ["caption"]).enter .table) := hP.enter (hP.close h _) (by decide)
  cases l with
  | startTag name as => exact .ite (.ite hleft h) hbody
  | endTag name => exact .ite (.ite hleft h) <| .ite (.ite hleft h) <| .ite h hbody
  | _ => exact hbody

theorem inColumns (l : Lexeme) : (b.inColumns l).All P := by
  have hleft : P (b.pop.enter .table) := hP.enter (hP.pop h) (by decide)
  unfold Builder.inColumns
  dsimp only
  split
  · exact hP.addComment _ h
  · exact h
  · exact hP.addElement h ..
  · exact .ite hleft h
  · exact h
  · exact hP.inBody h _
  · exact Step.All.ite hleft h

theorem inRows (l : Lexeme) : (b.inRows l).All P := by
  have htable := hP.inTable h l
  have hcleared := hP.popTo h ["tbody", "tfoot", "thead", "template", "html"]
  have hleft : P ((b.popTo ["tbody", "tfoot", "thead", "template", "html"]).pop.enter .table) :=
    hP.enter (hP.pop hcleared) (by decide)
  cases l with
  | startTag name as =>
    exact .ite (hP.openPart hcleared _ _ (by decide)) <|
      .ite (hP.openPart hcleared _ _ (by decide)) <|
      .ite (.ite hleft h) htable
  | endTag name => exact .ite (.ite hleft h) <| .ite (.ite hleft h) <| .ite h htable
  | _ => exact htable

theorem inRow (l : Lexeme) : (b.inRow l).All P := by
  have htable := hP.inTable h l
  have hcleared := hP.popTo h ["tr", "template", "html"]
  have hleft : P ((b.popTo ["tr", "template", "html"]).pop.enter .rows) :=
    hP.enter (hP.pop hcleared) (by decide)
  cases l with
  | startTag name as =>
    exact .ite (hP.openPart hcleared _ _ (by decide)) <| .ite (.ite hleft h) htable
  | endTag name =>
    exact .ite (.ite hleft h) <| .ite (.ite hleft h) <| .ite (.ite hleft h) <| .ite h htable
  | _ => exact htable

/-- The rule inside a cell leaves the cell or is that of the body. -/
theorem inCell (l : Lexeme) : (b.inCell l).All P := by
  have hbody := hP.inBody h l
  have hleft : ∀ names, P ((b.close names).enter .row) :=
    fun names => hP.enter (hP.close h names) (by decide)
  cases l with
  | startTag name as => exact .ite (.ite (hleft _) h) hbody
  | endTag name => exact .ite (.ite (hleft _) h) <| .ite h <| .ite (.ite (hleft _) h) hbody
  | _ => exact hbody

/-! ## Choices, and after the body -/

/-- The rule inside a choice. -/
theorem inChoice (l : Lexeme) : (b.inChoice l).All P := by
  have hleft : P (b.popThrough ["select"]).reenter := hP.reenter (hP.popThrough h _)
  have houter : P (if b.currentName = "option" then b.pop else b) := keeps_ite (hP.pop h) h
  cases l with
  | text cs => exact hP.addText cs h
  | comment s => exact hP.addComment s h
  | doctype => exact h
  | finish => exact hP.inBody h .finish
  | startTag name as =>
    exact .ite (hP.openElement _ _ houter) <|
      .ite (hP.openElement _ _ (keeps_ite (hP.pop houter) houter)) <|
      .ite (.ite hleft h) <| .ite (.ite hleft h) <| .ite (hP.openText _ _ _ h) h
  | endTag name =>
    have hinner : P (if b.currentName = "option" &&
        b.nameOf ((b.openElements.drop 1).headD documentId) = "optgroup"
      then b.pop else b) := keeps_ite (hP.pop h) h
    exact .ite (keeps_ite (hP.pop hinner) hinner) <| .ite houter <| .ite (.ite hleft h) h

theorem inChoiceInTable (l : Lexeme) : (b.inChoiceInTable l).All P := by
  have hchoice := hP.inChoice h l
  have hleft : P (b.popThrough ["select"]).reenter := hP.reenter (hP.popThrough h _)
  cases l with
  | startTag name as => exact .ite hleft hchoice
  | endTag name => exact .ite (.ite hleft h) hchoice
  | _ => exact hchoice

/-- The rules after the body may go back to it. -/
theorem afterBody (l : Lexeme) : (b.afterBody l).All P := by
  have hback : P (b.enter .body) := hP.enter h (by decide)
  unfold Builder.afterBody
  split
  · exact .ite (hP.inBody h _) hback
  · exact hP.addBelow _ h List.getLastD_mem_cons
  · exact h
  · exact h
  · exact hP.inBody h _
  · exact hP.enter h (by decide)
  · exact hback

theorem afterHtml (l : Lexeme) : (b.afterHtml l).All P := by
  have hback : P (b.enter .body) := hP.enter h (by decide)
  unfold Builder.afterHtml
  split
  · exact .ite (hP.inBody h _) hback
  · exact hP.addBelow _ h List.mem_cons_self
  · exact h
  · exact h
  · exact hP.inBody h _
  · exact hback

/-- **Every rule from the head on keeps the property.** -/
theorem rule (hpart : b.part ∉ dropsBlanks) (l : Lexeme) : (b.rule l).All P := by
  unfold Builder.rule
  cases hb : b.part with
  | start | beforeHtml | beforeHead => simp [hb, dropsBlanks] at hpart
  | head => exact hP.inHead h l
  | afterHead => exact hP.afterHead h l
  | body => exact hP.inBody h l
  | textOnly => exact hP.inText h hb l
  | table => exact hP.inTable h l
  | caption => exact hP.inCaption h l
  | columns => exact hP.inColumns h l
  | rows => exact hP.inRows h l
  | row => exact hP.inRow h l
  | cell => exact hP.inCell h l
  | choice => exact hP.inChoice h l
  | choiceInTable => exact hP.inChoiceInTable h l
  | afterBody => exact hP.afterBody h l
  | afterHtml => exact hP.afterHtml h l

end Closed

/-! ## The whole text -/

section Reading

variable (hrule : ∀ {b : Builder} (l : Lexeme), P b → (b.rule l).All P)
include hrule

/-- However often a lexeme is handed on, what all rules keep is kept. -/
theorem follow_keeps (fuel : Nat) (l : Lexeme) (h : P b) : P (b.follow fuel l) := by
  induction fuel generalizing b with
  | zero => exact h
  | succ fuel ih =>
    have hnext := hrule l h
    unfold follow
    split
    · next hdone => exact (hdone ▸ hnext : Step.All P (.done _))
    · next hagain => exact ih (hagain ▸ hnext : Step.All P (.again _))

variable (hnewline : ∀ {b : Builder} (drops : Bool), P b → P { b with dropsNewline := drops })
  (htext : ∀ {b : Builder} (cs : List Char), P b → b.part ∉ dropsBlanks → P (b.addText cs))
include hnewline htext

/-- A text is taken in two parts at most, the blanks at its start and the rest. -/
theorem takeText_keeps (cs : List Char) (h : P b) : P (b.takeText cs) := by
  have hready := hnewline false h
  have hfollow {b : Builder} (l : Lexeme) (h : P b) : P (b.follow b.patience l) :=
    follow_keeps hrule _ l h
  unfold takeText
  dsimp only
  split
  · next hkeeps =>
    have hlate : b.part ∉ dropsBlanks := by
      simp only [keepsBlanks, List.contains_iff_mem, List.mem_cons, List.not_mem_nil,
        or_false] at hkeeps
      rcases hkeeps with he | he | he <;> rw [he] <;> decide
    exact keeps_ite (htext _ hready hlate) (hfollow _ (htext _ hready hlate))
  split
  · exact keeps_ite hready (hfollow _ hready)
  · next hlate =>
    have hlate : b.part ∉ dropsBlanks := by simpa using hlate
    refine keeps_ite ?_ (keeps_ite hready (hfollow _ hready))
    exact follow_keeps hrule _ _ (htext _ hready hlate)

/-- A lexeme is taken by the rules that it is handed to. -/
theorem take_keeps (l : Lexeme) (h : P b) : P (b.take l) := by
  cases l with
  | text cs => exact takeText_keeps hrule hnewline htext cs h
  | _ => exact follow_keeps hrule _ _ (hnewline false h)

/-- **The reading of a text keeps** what every rule keeps, and text that is added from the head on.
-/
theorem read_keeps (fuel : Nat) (cs : List Char) (h : P b) : P (b.read fuel cs) := by
  have htake {b : Builder} (l : Lexeme) (h : P b) : P (b.take l) :=
    take_keeps hrule hnewline htext l h
  induction fuel generalizing b cs with
  | zero => exact h
  | succ fuel ih =>
    cases cs with
    | nil => exact htake .finish h
    | cons c cs =>
      unfold read
      split
      · exact ih _ (htake _ h)
      · exact ih _ h

end Reading

end LiveSpec.Markup.Builder
