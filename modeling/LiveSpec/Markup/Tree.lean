import LiveSpec.Markup.Attributes

/-!
# The tree of a document

A tree is a table of nodes. A node is named by its place in the table, so it keeps its identity
while its content, its children and its place in the tree change. Place 0 is the document itself.

Each node knows its children in order and, separately, where it hangs: at the top (nothing above
it), below another node, or cut off. A cut-off node, and every node whose way up meets one, is
*stale*: it can still be read, but not navigated from and not changed in structure. Hanging a
cut-off node into the tree again makes it live again.

A node that is neither listed below another one nor held by anyone is destroyed (`Tree.release`).
With it go the child lists of all nodes below it, also of those that someone still holds: what is
held of a destroyed branch are single nodes.
-/

namespace LiveSpec.Markup

/-- A node of a tree, as its place in the table. -/
abbrev NodeId := Nat

/-- What can be wrong with an operation on the tree. -/
inductive TreeError where
  /-- The element, or one above it, was cut off. -/
  | stale (name : String)
  | notAnElement
  /-- The document lacks an element that is needed. -/
  | missing (name : String)
deriving DecidableEq, Repr, Inhabited

/-- The wording of an error. -/
def TreeError.message : TreeError → String
  | .stale name => "stale element <" ++ name ++ ">: it has been removed from the document"
  | .notAnElement => "node is not an element"
  | .missing name => "document has no <" ++ name ++ "> element"

/-- What a node is. -/
inductive Content where
  | document
  | doctype (name : String)
  | text (s : String)
  | comment (s : String)
  | element (name : String) (attributes : Attributes)
deriving DecidableEq, Repr, Inhabited

/-- Where a node hangs. -/
inductive Link where
  | top
  | below (parent : NodeId)
  | cut
deriving DecidableEq, Repr, Inhabited

/-- A node: what it is, its children, where it hangs, and whether it was destroyed. -/
structure Node where
  content : Content
  children : List NodeId
  link : Link
  destroyed : Bool
deriving DecidableEq, Repr, Inhabited

/-- A node that hangs nowhere yet. -/
def Node.fresh (content : Content) : Node := ⟨content, [], .top, false⟩

/-- A table of nodes. -/
structure Tree where
  nodes : Array Node
deriving Inhabited

namespace Tree

/-- The tree of an empty document. -/
def empty : Tree := ⟨#[.fresh .document]⟩

/-- The document node. -/
def documentId : NodeId := 0

/-- The node at a place of the table. -/
def node (t : Tree) (n : NodeId) : Node := t.nodes.getD n (.fresh .document)

/-- Changes one node. -/
def modify (t : Tree) (n : NodeId) (f : Node → Node) : Tree := ⟨t.nodes.modify n f⟩

/-- Changes the children of one node. -/
def modifyChildren (t : Tree) (n : NodeId) (f : List NodeId → List NodeId) : Tree :=
  t.modify n fun x => { x with children := f x.children }

/-- Hangs a node somewhere, as far as the node itself knows. -/
def setLink (t : Tree) (n : NodeId) (link : Link) : Tree :=
  t.modify n fun x => { x with link := link }

/-- Adds a node to the table. -/
def add (t : Tree) (content : Content) : NodeId × Tree :=
  (t.nodes.size, ⟨t.nodes.push (.fresh content)⟩)

/-! ## Reading an element -/

/-- Says whether a node is an element. -/
def isElement (t : Tree) (n : NodeId) : Bool :=
  match (t.node n).content with
  | .element _ _ => true
  | _ => false

/-- The name of an element with its mark. -/
def name (t : Tree) (n : NodeId) : String :=
  match (t.node n).content with
  | .element name _ => name
  | _ => ""

/-- The name of an element without its mark. -/
def localName (t : Tree) (n : NodeId) : String := (splitName (t.name n)).2

/-- Says whether an element has a name, marks and the case of ASCII letters aside. -/
def isNamed (t : Tree) (n : NodeId) (name : String) : Bool := Text.sameName (t.localName n) name

/-- The attributes of an element. -/
def attributes (t : Tree) (n : NodeId) : Attributes :=
  match (t.node n).content with
  | .element _ as => as
  | _ => []

/-- The value of an attribute. -/
def attribute? (t : Tree) (n : NodeId) (name : String) : Option String :=
  (t.attributes n).find? name

/-- Changes the attributes of an element. -/
def modifyAttributes (t : Tree) (n : NodeId) (f : Attributes → Attributes) : Tree :=
  t.modify n fun x =>
    match x.content with
    | .element name as => { x with content := .element name (f as) }
    | _ => x

/-- Writes an attribute. -/
def setAttribute (t : Tree) (n : NodeId) (name value : String) : Tree :=
  t.modifyAttributes n (Attributes.put name value)

/-- Adds a word to the attribute `class`. -/
def addClass (t : Tree) (n : NodeId) (word : String) : Tree :=
  t.modifyAttributes n (Attributes.addClass word)

/-- Says whether the attribute `class` lists a word. -/
def hasClass (t : Tree) (n : NodeId) (word : String) : Bool := (t.attributes n).hasClass word

/-- An element as reports show it: its name and its attributes. -/
def describe (t : Tree) (n : NodeId) : String :=
  "<" ++ t.name n ++ String.join ((t.attributes n).map fun (k, v) => " " ++ k ++ "=\"" ++ v ++
    "\"") ++ ">"

/-! ## The way up -/

/-- One step up from a node. -/
inductive Upward where
  | top
  | lost
  | parent (p : NodeId)
deriving DecidableEq, Repr

/-- What is above a node. The way is lost at a cut-off node and below a destroyed one. -/
def above (t : Tree) (n : NodeId) : Upward :=
  match (t.node n).link with
  | .top => .top
  | .cut => .lost
  | .below p => if (t.node p).destroyed then .lost else .parent p

/-- Says whether the way up from a node reaches the top in fewer than `fuel` steps. -/
def reachesTop (t : Tree) : Nat → NodeId → Bool
  | 0, _ => false
  | fuel + 1, n =>
    match t.above n with
    | .top => true
    | .lost => false
    | .parent p => reachesTop t fuel p

/-- Says whether a node is live: its way up is not cut. A way up meets no node twice, so the size of
the table bounds it. -/
def isLive (t : Tree) (n : NodeId) : Bool := t.reachesTop (t.nodes.size + 1) n

/-- Passes for a live element only. -/
def ensureLive (t : Tree) (n : NodeId) : Except TreeError Unit :=
  if t.isLive n then .ok () else .error (.stale (t.name n))

/-- The first declaration of an attribute on the way up from a node, within `fuel` steps. -/
def inScope (t : Tree) (name : String) : Nat → NodeId → Option String
  | 0, _ => none
  | fuel + 1, n =>
    match t.attribute? n name with
    | some v => some v
    | none =>
      match t.above n with
      | .parent p => inScope t name fuel p
      | _ => none

/-- The namespace that a mark stands for at an element. -/
def namespace? (t : Tree) (n : NodeId) (mark : String) : Option String :=
  t.inScope (declarationOf mark) (t.nodes.size + 1) n

/-- The value of the first attribute that has a local name in a namespace. -/
def namespacedAttribute? (t : Tree) (n : NodeId) (ns localName : String) : Option String :=
  (t.attributes n).findSome? fun (name, value) =>
    match splitName name with
    | (some mark, rest) =>
      if Text.sameName rest localName && t.namespace? n mark == some ns then some value else none
    | (none, _) => none

/-- The element above an element; none above the one at the top. -/
def parent? (t : Tree) (n : NodeId) : Except TreeError (Option NodeId) := do
  t.ensureLive n
  match t.above n with
  | .parent p => return if t.isElement p then some p else none
  | _ => return none

/-! ## The way down -/

/-- The elements directly below a node. -/
def elementsOf (t : Tree) (n : NodeId) : List NodeId := (t.node n).children.filter t.isElement

/-- The elements directly below an element. -/
def childElements (t : Tree) (n : NodeId) : Except TreeError (List NodeId) := do
  t.ensureLive n
  return t.elementsOf n

/-- The first element of a name directly below an element. -/
def firstChild? (t : Tree) (n : NodeId) (name : String) : Except TreeError (Option NodeId) := do
  return (← t.childElements n).find? fun c => t.isNamed c name

/-- The text of a node and of all below it, at most `fuel` levels deep. -/
def textWithin (t : Tree) : Nat → NodeId → String
  | 0, _ => ""
  | fuel + 1, n =>
    String.join <| (t.node n).children.map fun c =>
      match (t.node c).content with
      | .text s => s
      | .element _ _ => textWithin t fuel c
      | _ => ""

/-- The text of an element: that of all text nodes below it, in order. -/
def text (t : Tree) (n : NodeId) : String := t.textWithin (t.nodes.size + 1) n

/-- A walk over the nodes below an element: those still to visit, the next one first, and the name
that the elements must have, if not any. -/
structure Walk where
  pending : List NodeId
  name : Option String
deriving DecidableEq, Repr

namespace Walk

/-- Says whether a walk stops at a node. -/
def stopsAt (w : Walk) (t : Tree) (n : NodeId) : Bool :=
  t.isElement n && (w.name.map fun name => t.isNamed n name).getD true

/-- Goes on to the next element of the walk, visiting at most `fuel` nodes. -/
def next? (t : Tree) : Nat → Walk → Option (NodeId × Walk)
  | 0, _ => none
  | fuel + 1, w =>
    match w.pending with
    | [] => none
    | n :: rest =>
      let onward : Walk := ⟨(t.node n).children ++ rest, w.name⟩
      if w.stopsAt t n then some (n, onward) else next? t fuel onward

/-- The elements of a walk, visiting at most `fuel` nodes before each and stopping at most `fuel`
times. -/
def elements (t : Tree) : Nat → Walk → List NodeId
  | 0, _ => []
  | fuel + 1, w =>
    match next? t (t.nodes.size + 1) w with
    | none => []
    | some (n, w) => n :: elements t fuel w

end Walk

/-- The walk over the elements of a name below an element; the name `*` stands for any. -/
def walk (t : Tree) (n : NodeId) (name : String) : Except TreeError Walk := do
  t.ensureLive n
  return ⟨(t.node n).children, if name = "*" then none else some (Text.asciiLower name)⟩

/-- The elements of a name below an element, in the order of the document. -/
def descendants (t : Tree) (n : NodeId) (name : String) : Except TreeError (List NodeId) := do
  return (← t.walk n name).elements t (t.nodes.size + 1)

/-! ## Changing the structure -/

/-- Takes a node out of the list of its parent, if it has a living one, and leaves it at the top. -/
def detach (t : Tree) (n : NodeId) : Tree :=
  let t :=
    match t.above n with
    | .parent p => t.modifyChildren p fun cs => cs.filter (· != n)
    | _ => t
  t.setLink n .top

/-- Hangs a detached node below another, at the place that `put` gives it in the list of children.
-/
def hang (t : Tree) (n parent : NodeId) (put : List NodeId → List NodeId) : Tree :=
  (t.setLink n (.below parent)).modifyChildren parent put

/-- Makes an element that hangs nowhere. -/
def newElement (t : Tree) (name : String) : NodeId × Tree :=
  t.add (.element (Text.asciiLower name) [])

/-- Adds text at the end of an element. -/
def appendText (t : Tree) (n : NodeId) (s : String) : Tree :=
  let (c, t) := t.add (.text s)
  t.hang c n (· ++ [c])

/-- Makes an element with text in it that hangs nowhere. -/
def newElementWithText (t : Tree) (name s : String) : NodeId × Tree :=
  let (n, t) := t.newElement name
  (n, t.appendText n s)

/-- Cuts off all children of a node. -/
def cutChildren (t : Tree) (n : NodeId) : Tree :=
  ((t.node n).children.foldl (fun t c => t.setLink c .cut) t).modifyChildren n fun _ => []

/-- Replaces all children of an element by a text; an empty text leaves none. -/
def setText (t : Tree) (n : NodeId) (s : String) : Tree :=
  let t := t.cutChildren n
  if s = "" then t else t.appendText n s

/-- Makes an element the last child of another. -/
def appendChild (t : Tree) (parent child : NodeId) : Except TreeError Tree := do
  t.ensureLive parent
  return (t.detach child).hang child parent (· ++ [child])

/-- Makes an element the first child of another. -/
def prependChild (t : Tree) (parent child : NodeId) : Except TreeError Tree := do
  t.ensureLive parent
  return (t.detach child).hang child parent (child :: ·)

/-- A list with `x` put directly after `a`, at the end if `a` is not in it. -/
def putAfter (a x : NodeId) : List NodeId → List NodeId
  | [] => [x]
  | b :: rest => if b = a then b :: x :: rest else b :: putAfter a x rest

/-- Puts an element directly after another, below the same parent. -/
def insertAfter (t : Tree) (n sibling : NodeId) : Except TreeError Tree := do
  t.ensureLive n
  match t.above n with
  | .parent p => return (t.detach sibling).hang sibling p (putAfter n sibling)
  | _ => throw (.missing "parent")

/-- Takes an element out of the tree and cuts it off. -/
def remove (t : Tree) (n : NodeId) : Except TreeError Tree := do
  t.ensureLive n
  return (t.detach n).setLink n .cut

/-- Moves all children of an element to the end of another. -/
def moveChildren (t : Tree) (source target : NodeId) : Except TreeError Tree := do
  t.ensureLive source
  t.ensureLive target
  let moved := (t.node source).children
  let t := t.modifyChildren source fun _ => []
  let t := moved.foldl (fun t c => t.setLink c (.below target)) t
  return t.modifyChildren target (· ++ moved)

/-! ## Letting go -/

/-- The nodes below a node, at most `fuel` levels deep. -/
def below (t : Tree) : Nat → NodeId → List NodeId
  | 0, _ => []
  | fuel + 1, n => (t.node n).children.flatMap fun c => c :: below t fuel c

/-- Destroys a node: it and all nodes below it lose their children. -/
def destroy (t : Tree) (n : NodeId) : Tree :=
  let emptied := (t.below (t.nodes.size + 1) n).foldl (fun t c => t.modifyChildren c fun _ => []) t
  emptied.modify n fun x => { x with children := [], destroyed := true }

/-- The nodes that are neither listed below another nor held. -/
def unreachable (t : Tree) (held : NodeId → Bool) : List NodeId :=
  let listed :=
    t.nodes.foldl (fun marks x => x.children.foldl (fun marks c => marks.set! c true) marks)
    (Array.replicate t.nodes.size false)
  (List.range t.nodes.size).filter fun n =>
    n != documentId && !(t.node n).destroyed && !listed.getD n false && !held n

/-- Destroys nodes that nobody can reach, at most `fuel` times over. -/
def releaseWithin (held : NodeId → Bool) : Nat → Tree → Tree
  | 0, t => t
  | fuel + 1, t =>
    match t.unreachable held with
    | [] => t
    | ns => releaseWithin held fuel (ns.foldl destroy t)

/-- Destroys what nobody can reach any more. Each round destroys at least one node. -/
def release (t : Tree) (held : NodeId → Bool) : Tree := releaseWithin held t.nodes.size t

end Tree
end LiveSpec.Markup
