import LiveSpec.Markup.Tree

/-!
# The parts of a document

The elements that every document has, and the namespaces that it declares.
-/

namespace LiveSpec.Markup.Tree

/-- The outermost element. -/
def root (t : Tree) : Except TreeError NodeId :=
  match t.elementsOf documentId with
  | n :: _ => .ok n
  | [] => .error (.missing "html")

/-- The head of the document, made first child of the outermost element if it is missing. -/
def head (t : Tree) : Except TreeError (NodeId × Tree) := do
  let r ← t.root
  match ← t.firstChild? r "head" with
  | some h => return (h, t)
  | none =>
    let (h, t) := t.newElement "head"
    return (h, ← t.prependChild r h)

/-- The body of the document. -/
def body (t : Tree) : Except TreeError NodeId := do
  match ← t.firstChild? (← t.root) "body" with
  | some b => return b
  | none => throw (.missing "body")

/-- A list with an item at its end, unless it has it already. -/
def appendNew (xs : List String) (x : String) : List String :=
  if xs.contains x then xs else xs ++ [x]

/-- The mark that an attribute declares for a namespace. Only the spelling `xmlns:` in lower case
counts. -/
def declaredMark? (ns : String) : String × String → Option String
  | (name, value) =>
    if value = ns && name.startsWith "xmlns:" then some (.ofList (name.toList.drop 6)) else none

/-- The marks that the document declares for a namespace, each once, in the order of the document.
-/
def namespaceMarks (t : Tree) (ns : String) : Except TreeError (List String) := do
  let r ← t.root
  let elements := r :: (← t.descendants r "*")
  let marks := elements.flatMap fun n => (t.attributes n).filterMap (declaredMark? ns)
  return marks.foldl appendNew []

end LiveSpec.Markup.Tree
