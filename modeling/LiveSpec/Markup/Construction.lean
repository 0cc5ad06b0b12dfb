import LiveSpec.Markup.Builder

/-!
# Reading a document

Each part of a document has its rule for the next lexeme. A rule changes the construction and either
takes the lexeme or hands it on to the part that it changed to. `Builder.read` follows such
hand-overs; a lexeme is handed on a few times at most.

What is missing is supplied: the outermost element, head and body, the parts of a table around a row
or a cell. Text that cannot stand where it is found is moved in front of the table.

## What is left out

The rules are those of the HTML standard with scripts on, for the part of the language that
specifications are written in. They leave out:

* the list of active formatting elements. Elements like `b`, `i` and `a` are nested like all others:
  one that is closed together with an outer element is not opened again after it, and an end tag
  that crosses other elements closes these too and copies nothing;
* foreign content. Elements of SVG and MathML are ordinary elements in lower case, the slash at the
  end of a start tag closes none of them, and a section of character data is a comment;
* the contents of a `template`, which are the children of its element here and no fragment of their
  own;
* sets of frames: their start tags are passed over.

Within this part the rules follow the standard step by step. Beyond it the tree is another one than
that of the standard, but still a tree as the other modules need it: what they rely on holds for
every text and is stated once, in `Tree.Parsed`.
-/

namespace LiveSpec.Markup

namespace Builder

/-- What a rule did: it took the lexeme, or it hands the lexeme on. -/
inductive Step where
  | done (b : Builder)
  | again (b : Builder)

/-- The blanks at the start of a text, and the rest. -/
def splitBlanks (cs : List Char) : List Char × List Char :=
  (cs.takeWhile Lexeme.isBlank, cs.dropWhile Lexeme.isBlank)

/-! ## Before the body -/

/-- The rule before everything else. -/
def atStart (b : Builder) (l : Lexeme) : Step :=
  match l with
  | .comment s => .done (b.addBelow Tree.documentId (.comment s))
  | .doctype name oldLayout =>
    .done { b.addBelow Tree.documentId (.doctype name) with oldLayout := oldLayout, part :=
      .beforeHtml }
  | .text cs =>
    if cs.all Lexeme.isBlank then .done b else
      .again { b with oldLayout := true, part := .beforeHtml }
  | _ => .again { b with oldLayout := true, part := .beforeHtml }

/-- Opens the outermost element. -/
def openHtml (b : Builder) (as : Attributes) : Builder :=
  (b.openElement "html" as).enter .beforeHead

/-- The rule before the outermost element. -/
def beforeHtml (b : Builder) (l : Lexeme) : Step :=
  match l with
  | .comment s => .done (b.addBelow Tree.documentId (.comment s))
  | .doctype _ _ => .done b
  | .text cs => if cs.all Lexeme.isBlank then .done b else .again (b.openHtml [])
  | .startTag "html" as => .done (b.openHtml as)
  | .endTag name =>
    if ["head", "body", "html", "br"].contains name then .again (b.openHtml []) else .done b
  | _ => .again (b.openHtml [])

/-- Opens the head. -/
def openHead (b : Builder) (as : Attributes) : Builder :=
  let b := b.openElement "head" as
  { b with headElement := some b.current, part := .head }

/-- The rule before the head. -/
def beforeHead (b : Builder) (l : Lexeme) : Step :=
  match l with
  | .comment s => .done (b.addComment s)
  | .doctype _ _ => .done b
  | .text cs => if cs.all Lexeme.isBlank then .done b else .again (b.openHead [])
  | .startTag "html" as => .done (b.mergeAttributes (b.openElements.getLastD 0) as)
  | .startTag "head" as => .done (b.openHead as)
  | .endTag name =>
    if ["head", "body", "html", "br"].contains name then .again (b.openHead []) else .done b
  | _ => .again (b.openHead [])

/-- Opens or adds an element that belongs into the head, if `name` is one. -/
def headElement? (b : Builder) (name : String) (as : Attributes) : Option Builder :=
  if ["base", "basefont", "bgsound", "link", "meta"].contains name then some (b.addElement name as)
  else if name = "title" then some (b.openText name as (.titled name))
  else if ["noframes", "style", "noscript"].contains name then some (b.openText name as (.raw name))
  else if name = "script" then some (b.openText name as .script)
  else none

/-- Leaves the head. -/
def leaveHead (b : Builder) : Builder := b.pop.enter .afterHead

/-- The rule inside the head. -/
def inHead (b : Builder) (l : Lexeme) : Step :=
  match l with
  | .comment s => .done (b.addComment s)
  | .doctype _ _ => .done b
  | .startTag "html" as => .done (b.mergeAttributes (b.openElements.getLastD 0) as)
  | .startTag "head" _ => .done b
  | .startTag name as =>
    match b.headElement? name as with
    | some b => .done b
    | none => .again b.leaveHead
  | .endTag "head" => .done b.leaveHead
  | .endTag name => if ["body", "html", "br"].contains name then .again b.leaveHead else .done b
  | _ => .again b.leaveHead

/-- Opens the body. -/
def openBody (b : Builder) (as : Attributes) : Builder := (b.openElement "body" as).enter .body

/-- The rule between head and body. -/
def afterHead (b : Builder) (l : Lexeme) : Step :=
  match l with
  | .comment s => .done (b.addComment s)
  | .doctype _ _ => .done b
  | .startTag "html" as => .done (b.mergeAttributes (b.openElements.getLastD 0) as)
  | .startTag "body" as => .done (b.openBody as)
  | .startTag "frameset" _ => .done b
  | .startTag "head" _ => .done b
  | .startTag name as =>
    match b.headElement with
    | some h =>
      match headElement? { b with openElements := h :: b.openElements } name as with
      | some b' => .done { b' with openElements := b'.openElements.filter (· != h) }
      | none => .again (b.openBody [])
    | none => .again (b.openBody [])
  | .endTag name =>
    if ["body", "html", "br"].contains name then .again (b.openBody []) else .done b
  | _ => .again (b.openBody [])

/-! ## The body -/

/-- The elements that end an open paragraph before them and close what their end tag leaves open. -/
def blockNames : List String :=
  ["address", "article", "aside", "blockquote", "center", "details", "dialog", "dir", "div", "dl", "fieldset",
    "figcaption", "figure", "footer", "header", "hgroup", "main", "menu", "nav", "ol", "section", "summary", "ul"]

/-- The headings. -/
def headingNames : List String := ["h1", "h2", "h3", "h4", "h5", "h6"]

/-- The first open element that an item of a list closes; the search ends at a special element other
than those that only group. -/
def itemBefore? (b : Builder) (names : List String) : List NodeId → Option String
  | [] => none
  | n :: rest =>
    let name := b.nameOf n
    if names.contains name then some name
    else if specialNames.contains name && !(["address", "div", "p"].contains name) then none
    else itemBefore? b names rest

/-- Opens an item of a list after closing the one before it. -/
def openItem (b : Builder) (name : String) (as : Attributes) (names : List String) : Builder :=
  let b :=
    match b.itemBefore? names b.openElements with
    | some before => (b.popOptional before).popThrough [before]
    | none => b
  b.closeParagraph.openElement name as

/-- A start tag inside the body. -/
def startInBody (b : Builder) (name : String) (as : Attributes) : Step :=
  if name = "html" then .done (b.mergeAttributes (b.openElements.getLastD 0) as)
  else if name = "body" then
    match b.openElements.reverse with
    | _ :: n :: _ => if b.nameOf n = "body" then .done (b.mergeAttributes n as) else .done b
    | _ => .done b
  else if blockNames.contains name || name = "p" then .done (b.closeParagraph.openElement name as)
  else if headingNames.contains name then
    let b := b.closeParagraph
    .done ((if headingNames.contains b.currentName then b.pop else b).openElement name as)
  else if name = "pre" || name = "listing" then
    .done { b.closeParagraph.openElement name as with dropsNewline := true }
  else if name = "form" then
    if b.formElement.isSome then .done b
    else
      let b := b.closeParagraph.openElement name as
      .done { b with formElement := some b.current }
  else if name = "li" then .done (b.openItem name as ["li"])
  else if name = "dd" || name = "dt" then .done (b.openItem name as ["dd", "dt"])
  else if name = "plaintext" then .done
    { b.closeParagraph.openElement name as with manner := .endless }
  else if name = "button" then
    .done ((if b.isOpen ["button"] then b.close ["button"] else b).openElement name as)
  else if name = "table" then
    .done (((if b.oldLayout then b else b.closeParagraph).openElement name as).enter .table)
  else if ["area", "br", "embed", "img", "keygen", "wbr", "input", "param", "source",
    "track"].contains name then
    .done (b.addElement name as)
  else if name = "hr" then .done (b.closeParagraph.addElement name as)
  else if name = "image" then .done (b.addElement "img" as)
  else if name = "textarea" then .done
    { b.openText name as (.titled name) with dropsNewline := true }
  else if name = "xmp" then .done (b.closeParagraph.openText name as (.raw name))
  else if name = "iframe" || name = "noembed" then .done (b.openText name as (.raw name))
  else if name = "select" then
    let inTable := [Part.table, .caption, .rows, .row, .cell].contains b.part
    .done ((b.openElement name as).enter (if inTable then .choiceInTable else .choice))
  else if name = "optgroup" || name = "option" then
    .done ((if b.currentName = "option" then b.pop else b).openElement name as)
  else if name = "rb" || name = "rtc" then
    .done ((if b.isOpen ["ruby"] then b.popOptional "" else b).openElement name as)
  else if name = "rp" || name = "rt" then
    .done ((if b.isOpen ["ruby"] then b.popOptional "rtc" else b).openElement name as)
  else if ["caption", "col", "colgroup", "frame", "frameset", "head", "tbody", "td", "tfoot",
    "th", "thead",
      "tr"].contains name then .done b
  else
    match b.headElement? name as with
    | some b => .done b
    | none => .done (b.openElement name as)

/-- The open elements after an end tag that has no rule of its own: the nearest open element of the
name is closed with all inside it, unless a special element comes first. -/
def closeNearest? (b : Builder) (name : String) : List NodeId → Option (List NodeId)
  | [] => none
  | n :: rest =>
    if b.nameOf n = name then some rest
    else if specialNames.contains (b.nameOf n) then none
    else closeNearest? b name rest

/-- An end tag inside the body. -/
def endInBody (b : Builder) (name : String) : Step :=
  if name = "body" then if b.isOpen ["body"] then .done (b.enter .afterBody) else .done b
  else if name = "html" then if b.isOpen ["body"] then .again (b.enter .afterBody) else .done b
  else if blockNames.contains name || name = "button" || name = "listing" || name = "pre" then
    if b.isOpen [name] then .done (b.close [name]) else .done b
  else if name = "form" then
    match b.formElement with
    | some f =>
      let b := { b with formElement := none }
      if b.isOpen ["form"] then
        let b := b.popOptional ""
        .done { b with openElements := b.openElements.filter (· != f) }
      else .done b
    | none => .done b
  else if name = "p" then
    if b.openWithin ["p"] buttonScopeEnds b.openElements then .done b.closeParagraph
    else .done (b.addElement "p" [])
  else if name = "li" then
    if b.openWithin ["li"] listScopeEnds b.openElements then
      .done ((b.popOptional "li").popThrough ["li"])
    else .done b
  else if name = "dd" || name = "dt" then
    if b.isOpen [name] then .done ((b.popOptional name).popThrough [name]) else .done b
  else if headingNames.contains name then
    if b.isOpen headingNames then .done (b.close headingNames) else .done b
  else if name = "applet" || name = "marquee" || name = "object" then
    if b.isOpen [name] then .done (b.close [name]) else .done b
  else if name = "br" then .done (b.addElement "br" [])
  else
    match b.closeNearest? name b.openElements with
    | some rest => .done { b with openElements := rest }
    | none => .done b

/-- The rule inside the body. -/
def inBody (b : Builder) (l : Lexeme) : Step :=
  match l with
  | .text cs => .done (b.addText cs)
  | .comment s => .done (b.addComment s)
  | .startTag name as => b.startInBody name as
  | .endTag name => b.endInBody name
  | .doctype _ _ | .finish => .done b

/-- The rule inside an element that holds text alone. -/
def inText (b : Builder) (l : Lexeme) : Step :=
  let left : Builder := { b.pop with part := b.outerPart, manner := .markup }
  match l with
  | .text cs => .done (b.addText cs)
  | .endTag _ => .done left
  | _ => .again left

/-! ## Tables -/

/-- Applies the rule of the body to content that a table cannot hold. -/
def besideTable (b : Builder) (l : Lexeme) : Step :=
  match inBody { b with aside := true } l with
  | .done b => .done { b with aside := false }
  | .again b => .again { b with aside := false }

/-- The parts of a table below the table itself. The start of one ends a caption, a cell and the
like. -/
def innerParts : List String :=
  ["caption", "col", "colgroup", "tbody", "td", "tfoot", "th", "thead", "tr"]

/-- The rule inside a table. -/
def inTable (b : Builder) (l : Lexeme) : Step :=
  let cleared := b.popTo ["table", "template", "html"]
  match l with
  | .text cs =>
    if tableParts.contains b.currentName && cs.all Lexeme.isBlank then .done (b.addText cs)
    else b.besideTable l
  | .comment s => .done (b.addComment s)
  | .doctype _ _ => .done b
  | .startTag name as =>
    if name = "caption" then .done ((cleared.openElement name as).enter .caption)
    else if name = "colgroup" then .done ((cleared.openElement name as).enter .columns)
    else if name = "col" then .again ((cleared.openElement "colgroup" []).enter .columns)
    else if ["tbody", "tfoot", "thead"].contains name then
      .done ((cleared.openElement name as).enter .rows)
    else if ["td", "th", "tr"].contains name then .again
      ((cleared.openElement "tbody" []).enter .rows)
    else if name = "table" then
      if b.isOpenInTable ["table"] then .again (b.popThrough ["table"]).reenter else .done b
    else if name = "style" then .done (b.openText name as (.raw name))
    else if name = "script" then .done (b.openText name as .script)
    else if name = "input" && ((as.find? "type").map fun v =>
      Text.sameName v "hidden").getD false then
      .done (b.addElement name as)
    else if name = "form" then
      if b.formElement.isSome then .done b
      else
        let b := b.openElement name as
        .done { b.pop with formElement := some b.current }
    else b.besideTable l
  | .endTag name =>
    if name = "table" then
      if b.isOpenInTable ["table"] then .done (b.popThrough ["table"]).reenter else .done b
    else if name = "body" || name = "html" || innerParts.contains name then .done b
    else b.besideTable l
  | .finish => b.inBody l

/-- The rule inside a caption. -/
def inCaption (b : Builder) (l : Lexeme) : Step :=
  let left := (b.close ["caption"]).enter .table
  let isOpen := b.isOpenInTable ["caption"]
  match l with
  | .startTag name _ =>
    if innerParts.contains name then if isOpen then .again left else .done b else b.inBody l
  | .endTag name =>
    if name = "caption" then if isOpen then .done left else .done b
    else if name = "table" then if isOpen then .again left else .done b
    else if name = "body" || name = "html" || innerParts.contains name then .done b
    else b.inBody l
  | _ => b.inBody l

/-- The rule inside a group of columns. -/
def inColumns (b : Builder) (l : Lexeme) : Step :=
  let otherwise : Step := if b.currentName = "colgroup" then
    .again (b.pop.enter .table) else .done b
  match l with
  | .comment s => .done (b.addComment s)
  | .doctype _ _ => .done b
  | .startTag "col" as => .done (b.addElement "col" as)
  | .endTag "colgroup" => if b.currentName = "colgroup" then .done (b.pop.enter .table) else .done b
  | .endTag "col" => .done b
  | .finish => b.inBody l
  | _ => otherwise

/-- The rule inside a group of rows. -/
def inRows (b : Builder) (l : Lexeme) : Step :=
  let cleared := b.popTo ["tbody", "tfoot", "thead", "template", "html"]
  let left : Step :=
    if b.isOpenInTable ["tbody", "thead", "tfoot"] then
      .again (cleared.pop.enter .table) else .done b
  match l with
  | .startTag name as =>
    if name = "tr" then .done ((cleared.openElement name as).enter .row)
    else if name = "td" || name = "th" then .again ((cleared.openElement "tr" []).enter .row)
    else if ["caption", "col", "colgroup", "tbody", "tfoot", "thead"].contains name then left
    else b.inTable l
  | .endTag name =>
    if ["tbody", "tfoot", "thead"].contains name then
      if b.isOpenInTable [name] then .done (cleared.pop.enter .table) else .done b
    else if name = "table" then left
    else if ["body", "caption", "col", "colgroup", "html", "td", "th",
      "tr"].contains name then .done b
    else b.inTable l
  | _ => b.inTable l

/-- The rule inside a row. -/
def inRow (b : Builder) (l : Lexeme) : Step :=
  let cleared := b.popTo ["tr", "template", "html"]
  let left := cleared.pop.enter .rows
  let isOpen := b.isOpenInTable ["tr"]
  match l with
  | .startTag name as =>
    if name = "td" || name = "th" then .done ((cleared.openElement name as).enter .cell)
    else if ["caption", "col", "colgroup", "tbody", "tfoot", "thead", "tr"].contains name then
      if isOpen then .again left else .done b
    else b.inTable l
  | .endTag name =>
    if name = "tr" then if isOpen then .done left else .done b
    else if name = "table" then if isOpen then .again left else .done b
    else if ["tbody", "tfoot", "thead"].contains name then
      if b.isOpenInTable [name] && isOpen then .again left else .done b
    else if ["body", "caption", "col", "colgroup", "html", "td", "th"].contains name then .done b
    else b.inTable l
  | _ => b.inTable l

/-- The rule inside a cell. -/
def inCell (b : Builder) (l : Lexeme) : Step :=
  let left := (b.close ["td", "th"]).enter .row
  match l with
  | .startTag name _ =>
    if innerParts.contains name then
      if b.isOpenInTable ["td", "th"] then .again left else .done b
    else b.inBody l
  | .endTag name =>
    if name = "td" || name = "th" then
      if b.isOpenInTable [name] then .done ((b.close [name]).enter .row) else .done b
    else if ["body", "caption", "col", "colgroup", "html"].contains name then .done b
    else if ["table", "tbody", "tfoot", "thead", "tr"].contains name then
      if b.isOpenInTable [name] then .again left else .done b
    else b.inBody l
  | _ => b.inBody l

/-! ## Choices -/

/-- The rule inside a choice. -/
def inChoice (b : Builder) (l : Lexeme) : Step :=
  let left := (b.popThrough ["select"]).reenter
  match l with
  | .text cs => .done (b.addText cs)
  | .comment s => .done (b.addComment s)
  | .doctype _ _ => .done b
  | .startTag name as =>
    if name = "option" then .done ((if b.currentName = "option" then b.pop else
      b).openElement name as)
    else if name = "optgroup" then
      let b := if b.currentName = "option" then b.pop else b
      .done ((if b.currentName = "optgroup" then b.pop else b).openElement name as)
    else if name = "select" then if b.choiceIsOpen then .done left else .done b
    else if ["input", "keygen", "textarea"].contains name then if b.choiceIsOpen then
      .again left else .done b
    else if name = "script" then .done (b.openText name as .script)
    else .done b
  | .endTag name =>
    if name = "optgroup" then
      let outer := (b.openElements.drop 1).headD Tree.documentId
      let b := if b.currentName = "option" && b.nameOf outer = "optgroup" then b.pop else b
      .done (if b.currentName = "optgroup" then b.pop else b)
    else if name = "option" then .done (if b.currentName = "option" then b.pop else b)
    else if name = "select" then if b.choiceIsOpen then .done left else .done b
    else .done b
  | .finish => b.inBody l

/-- The rule inside a choice in a table. -/
def inChoiceInTable (b : Builder) (l : Lexeme) : Step :=
  let left := (b.popThrough ["select"]).reenter
  let isTablePart (name : String) : Bool :=
    ["caption", "table", "tbody", "tfoot", "thead", "tr", "td", "th"].contains name
  match l with
  | .startTag name _ => if isTablePart name then .again left else b.inChoice l
  | .endTag name =>
    if isTablePart name then if b.isOpenInTable [name] then .again left else .done b else
      b.inChoice l
  | _ => b.inChoice l

/-! ## After the body -/

/-- The rule after the body. -/
def afterBody (b : Builder) (l : Lexeme) : Step :=
  match l with
  | .text cs => if cs.all Lexeme.isBlank then b.inBody l else .again (b.enter .body)
  | .comment s => .done (b.addBelow (b.openElements.getLastD Tree.documentId) (.comment s))
  | .doctype _ _ | .finish => .done b
  | .startTag "html" _ => b.inBody l
  | .endTag "html" => .done (b.enter .afterHtml)
  | _ => .again (b.enter .body)

/-- The rule after the outermost element. -/
def afterHtml (b : Builder) (l : Lexeme) : Step :=
  match l with
  | .text cs => if cs.all Lexeme.isBlank then b.inBody l else .again (b.enter .body)
  | .comment s => .done (b.addBelow Tree.documentId (.comment s))
  | .doctype _ _ | .finish => .done b
  | .startTag "html" _ => b.inBody l
  | _ => .again (b.enter .body)

/-! ## All parts -/

/-- The rule of the part that is being read. -/
def rule (b : Builder) (l : Lexeme) : Step :=
  match b.part with
  | .start => b.atStart l
  | .beforeHtml => b.beforeHtml l
  | .beforeHead => b.beforeHead l
  | .head => b.inHead l
  | .afterHead => b.afterHead l
  | .body => b.inBody l
  | .textOnly => b.inText l
  | .table => b.inTable l
  | .caption => b.inCaption l
  | .columns => b.inColumns l
  | .rows => b.inRows l
  | .row => b.inRow l
  | .cell => b.inCell l
  | .choice => b.inChoice l
  | .choiceInTable => b.inChoiceInTable l
  | .afterBody => b.afterBody l
  | .afterHtml => b.afterHtml l

/-- Follows the rules until one takes the lexeme, at most `fuel` times. -/
def follow : Nat → Builder → Lexeme → Builder
  | 0, b, _ => b
  | fuel + 1, b, l =>
    match b.rule l with
    | .done b => b
    | .again b => follow fuel b l

/-- How often a lexeme can be handed on: through every part of the document, and again for each open
element. -/
def patience (b : Builder) : Nat := 32 + 4 * b.openElements.length

/-- The parts in which the blanks at the start of a text have a rule of their own: they are kept
before the text moves the reading on. -/
def keepsBlanks : List Part := [.head, .afterHead, .columns]

/-- The parts in which the blanks at the start of a text are dropped. -/
def dropsBlanks : List Part := [.start, .beforeHtml, .beforeHead]

/-- Takes a text, whose first blanks can belong to another part than the rest. -/
def takeText (b : Builder) (cs : List Char) : Builder :=
  let cs :=
    match b.dropsNewline, cs with
    | true, '\n' :: rest => rest
    | _, cs => cs
  let b := { b with dropsNewline := false }
  let (blanks, rest) := splitBlanks cs
  if keepsBlanks.contains b.part then
    let b := b.addText blanks
    if rest.isEmpty then b else b.follow b.patience (.text rest)
  else if dropsBlanks.contains b.part then if rest.isEmpty then b else
    b.follow b.patience (.text rest)
  else if (b.part = .afterBody || b.part = .afterHtml) && !rest.isEmpty then
    (b.addText blanks).follow b.patience (.text rest)
  else if cs.isEmpty then b
  else b.follow b.patience (.text cs)

/-- Takes a lexeme. -/
def take (b : Builder) (l : Lexeme) : Builder :=
  match l with
  | .text cs => b.takeText cs
  | l => { b with dropsNewline := false }.follow b.patience l

/-- Reads a text, at most `fuel` lexemes of it. -/
def read : Nat → Builder → List Char → Builder
  | 0, b, _ => b
  | _, b, [] => b.take .finish
  | fuel + 1, b, cs =>
    match Lexeme.next b.manner cs with
    | (some l, rest) => read fuel (b.take l) rest
    | (none, rest) => read fuel b rest

end Builder

/-- Reads a document. Each lexeme takes at least one character, so the length of the text bounds
their number. -/
def Tree.read (html : String) : Tree :=
  let cs := Lexeme.normalLines html.toList
  let cs := match cs with
    | c :: rest => if c.toNat = 0xFEFF then rest else cs
    | [] => cs
  (Builder.read (cs.length + 1) .empty cs).tree

end LiveSpec.Markup
