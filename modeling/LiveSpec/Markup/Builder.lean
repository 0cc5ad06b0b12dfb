import LiveSpec.Markup.Lexer
import LiveSpec.Markup.Tree

/-!
# A document under construction

While a document is read, the elements that are still open form a stack. `Builder` holds it beside
the tree that grows, and the operations on it: opening and closing elements, asking which element is
open in which scope, and placing text.

Content that a table cannot hold is placed in front of the table (`Builder.place`).

There is no list of active formatting elements beside the stack, no stack of template parts and no
namespace of an element: what the standard does with these is left out, as `Construction` says.
-/

namespace LiveSpec.Markup

/-- What part of a document is being read. -/
inductive Part where
  | start
  | beforeHtml
  | beforeHead
  | head
  | afterHead
  | body
  /-- Inside an element that holds text alone. -/
  | textOnly
  | table
  | caption
  | columns
  | rows
  | row
  | cell
  | choice
  | choiceInTable
  | afterBody
  | afterHtml
deriving DecidableEq, Inhabited

/-- A document under construction. The innermost open element comes first. -/
structure Builder where
  tree : Tree
  openElements : List NodeId
  part : Part
  /-- The part to return to from an element that holds text alone. -/
  outerPart : Part
  headElement : Option NodeId
  formElement : Option NodeId
  oldLayout : Bool
  /-- Whether content goes in front of the innermost table. -/
  aside : Bool
  /-- Whether a line feed at the start of the next text is dropped. -/
  dropsNewline : Bool
  manner : Manner
deriving Inhabited

namespace Builder

/-- The construction of an empty document. -/
def empty : Builder := ⟨.empty, [], .start, .start, none, none, false, false, false, .markup⟩

/-- Changes to another part of the document. -/
def enter (b : Builder) (part : Part) : Builder := { b with part := part }

/-! ## The open elements -/

/-- The name of an element. -/
def nameOf (b : Builder) (n : NodeId) : String := b.tree.name n

/-- The innermost open element. -/
def current (b : Builder) : NodeId := b.openElements.headD Tree.documentId

/-- The name of the innermost open element. -/
def currentName (b : Builder) : String := b.nameOf b.current

/-- Closes the innermost open element. -/
def pop (b : Builder) : Builder := { b with openElements := b.openElements.tail }

/-- Closes elements up to one of the names, which is closed as well. -/
def popThrough (b : Builder) (names : List String) : Builder :=
  { b with openElements := (b.openElements.dropWhile fun n => !names.contains (b.nameOf n)).tail }

/-- Closes elements up to one of the names, which stays open. -/
def popTo (b : Builder) (names : List String) : Builder :=
  { b with openElements := b.openElements.dropWhile fun n => !names.contains (b.nameOf n) }

/-- The elements that hide what is open outside of them. -/
def scopeEnds : List String :=
  ["applet", "caption", "html", "table", "td", "th", "marquee", "object", "template"]

/-- The elements that hide what is open outside of a list item. -/
def listScopeEnds : List String := "ol" :: "ul" :: scopeEnds

/-- The elements that hide an open paragraph. -/
def buttonScopeEnds : List String := "button" :: scopeEnds

/-- The elements that hide what is open outside of a table. -/
def tableScopeEnds : List String := ["html", "table", "template"]

/-- Says whether an element of one of the names is open, up to the next element that ends the scope.
-/
def openWithin (b : Builder) (names ends : List String) : List NodeId → Bool
  | [] => false
  | n :: rest =>
    let name := b.nameOf n
    names.contains name || (!ends.contains name && openWithin b names ends rest)

/-- Says whether an element of one of the names is open in the usual scope. -/
def isOpen (b : Builder) (names : List String) : Bool := b.openWithin names scopeEnds b.openElements

/-- Says whether an element of one of the names is open in the innermost table. -/
def isOpenInTable (b : Builder) (names : List String) : Bool :=
  b.openWithin names tableScopeEnds b.openElements

/-- Says whether a choice is open: only its own groups and options lie inside it. -/
def choiceIsOpen (b : Builder) : Bool :=
  match b.openElements.dropWhile fun n => ["optgroup", "option"].contains (b.nameOf n) with
  | n :: _ => b.nameOf n == "select"
  | [] => false

/-- The elements whose end tag may be left out. -/
def optionalEnds : List String :=
  ["dd", "dt", "li", "optgroup", "option", "p", "rb", "rp", "rt", "rtc"]

/-- Closes elements whose end tag may be left out, but none of the name `keep`. -/
def popOptional (b : Builder) (keep : String) : Builder :=
  { b with openElements := b.openElements.dropWhile fun n =>
      optionalEnds.contains (b.nameOf n) && b.nameOf n != keep }

/-- Closes an open element of one of the names with all inside it. -/
def close (b : Builder) (names : List String) : Builder := (b.popOptional "").popThrough names

/-- Closes an open paragraph. -/
def closeParagraph (b : Builder) : Builder :=
  if b.openWithin ["p"] buttonScopeEnds b.openElements then
    (b.popOptional "p").popThrough ["p"] else b

/-- The elements that end the search for what an end tag closes. -/
def specialNames : List String :=
  ["address", "applet", "area", "article", "aside", "base", "basefont", "bgsound", "blockquote", "body",
    "br", "button", "caption", "center", "col", "colgroup", "dd", "details", "dir", "div", "dl", "dt",
    "embed", "fieldset", "figcaption", "figure", "footer", "form", "frame", "frameset", "h1", "h2", "h3",
    "h4", "h5", "h6", "head", "header", "hgroup", "hr", "html", "iframe", "img", "input", "isindex", "li",
    "link", "listing", "main", "marquee", "menu", "meta", "nav", "noembed", "noframes", "noscript",
    "object", "ol", "p", "param", "plaintext", "pre", "script", "section", "select", "source", "style",
    "summary", "table", "tbody", "td", "template", "textarea", "tfoot", "th", "thead", "title", "tr",
    "track", "ul", "wbr", "xmp"]

/-! ## Placing content -/

/-- The parts of a table that hold no content themselves. -/
def tableParts : List String := ["table", "tbody", "tfoot", "thead", "tr"]

/-- A list with `x` put directly before `a`. -/
def putBefore (a x : NodeId) : List NodeId → List NodeId
  | [] => [x]
  | b :: rest => if b = a then x :: b :: rest else b :: putBefore a x rest

/-- Hangs a new node where content goes: at the end of the innermost open element, or in front of
the innermost table. -/
def place (b : Builder) (n : NodeId) : Builder :=
  let atEnd : Builder := { b with tree := b.tree.hang n b.current (· ++ [n]) }
  if b.aside && tableParts.contains b.currentName then
    match b.openElements.find? fun m => b.nameOf m == "table" with
    | some table =>
      match b.tree.above table with
      | .parent p => { b with tree := b.tree.hang n p (putBefore table n) }
      | _ => atEnd
    | none => atEnd
  else atEnd

/-- The text node that new text joins: the last child where the text goes. -/
def textBefore? (b : Builder) : Option NodeId :=
  let last? : Option NodeId :=
    if b.aside && tableParts.contains b.currentName then
      match b.openElements.find? fun m => b.nameOf m == "table" with
      | some table =>
        match b.tree.above table with
        | .parent p => ((b.tree.node p).children.takeWhile (· != table)).getLast?
        | _ => none
      | none => none
    else (b.tree.node b.current).children.getLast?
  last?.filter fun n =>
    match (b.tree.node n).content with
    | .text _ => true
    | _ => false

/-- Adds text to a text node. -/
def lengthen (t : Tree) (n : NodeId) (s : String) : Tree :=
  t.modify n fun x =>
    match x.content with
    | .text old => { x with content := .text (old ++ s) }
    | _ => x

/-- Adds text to the document. -/
def addText (b : Builder) (cs : List Char) : Builder :=
  if cs.isEmpty then b
  else
    match b.textBefore? with
    | some n => { b with tree := lengthen b.tree n (.ofList cs) }
    | none =>
      let (n, t) := b.tree.add (.text (.ofList cs))
      { b with tree := t }.place n

/-- Adds a node at the end of another. -/
def addBelow (b : Builder) (parent : NodeId) (content : Content) : Builder :=
  let (n, t) := b.tree.add content
  { b with tree := t.hang n parent (· ++ [n]) }

/-- Adds a comment where content goes. -/
def addComment (b : Builder) (s : String) : Builder :=
  let (n, t) := b.tree.add (.comment s)
  { b with tree := t }.place n

/-- Adds an element and leaves it open. -/
def openElement (b : Builder) (name : String) (as : Attributes) : Builder :=
  let (n, t) := b.tree.add (.element name as)
  let b := { b with tree := t }.place n
  { b with openElements := n :: b.openElements }

/-- Adds an element without content. -/
def addElement (b : Builder) (name : String) (as : Attributes) : Builder :=
  (b.openElement name as).pop

/-- Adds the attributes that an element does not have yet. -/
def mergeAttributes (b : Builder) (n : NodeId) (as : Attributes) : Builder :=
  { b with tree := b.tree.modifyAttributes n fun old =>
      as.foldl (fun acc (k, v) => Lexeme.addAttribute acc k v) old }

/-- Opens an element that holds text alone, read in a manner of its own. -/
def openText (b : Builder) (name : String) (as : Attributes) (manner : Manner) : Builder :=
  let b' := b.openElement name as
  { b' with part := .textOnly, outerPart := b.part, manner := manner }

/-- The part of the document that the open elements, from the innermost on, lie in. -/
def partOf (b : Builder) : List NodeId → Part
  | [] => .body
  | n :: rest =>
    let name := b.nameOf n
    if name = "select" then
      if rest.any fun m => b.nameOf m == "table" then .choiceInTable else .choice
    else if (name = "td" || name = "th") && !rest.isEmpty then .cell
    else if name = "tr" then .row
    else if name = "tbody" || name = "thead" || name = "tfoot" then .rows
    else if name = "caption" then .caption
    else if name = "colgroup" then .columns
    else if name = "table" then .table
    else if name = "head" && !rest.isEmpty then .head
    else if name = "body" then .body
    else if name = "html" then if b.headElement.isSome then .afterHead else .beforeHead
    else partOf b rest

/-- Returns to the part of the document that the open elements lie in. -/
def reenter (b : Builder) : Builder := b.enter (b.partOf b.openElements)

end Builder
end LiveSpec.Markup
