import LiveSpec.Yaml.Token

/-!
# The tree of a YAML document

Tokens form a tree of scalars, sequences and mappings (`Node.read?`). A node that is left out is an
empty plain scalar. An alias stands for a copy of the node that its anchor was last put on; inside
that node itself there is none yet.

A text holds at most one document. The recursion goes by a number that every step takes one from; a
node takes at most two steps for each of its tokens and two for itself.
-/

namespace LiveSpec.Yaml

/-- A node with its tag. -/
inductive Node where
  | scalar (tag : Option String) (style : Style) (text : String)
  | sequence (tag : Option String) (items : List Node)
  | mapping (tag : Option String) (entries : List (Node × Node))
deriving Inhabited

namespace Node

/-- The node that stands where none is written. -/
def empty (tag : Option String) : Node := .scalar tag .plain ""

/-- What reading a node needs to know: the shorthands of tags, and the nodes under their anchors,
the last one first. An anchor has no node while its node is being read. -/
structure Known where
  shorthands : List (String × String)
  anchors : List (String × Option Node)

/-- The tag that a handle and a text stand for. -/
def resolveTag (k : Known) (handle rest : String) : Option String :=
  if handle = "" then some rest else (k.shorthands.lookup handle).map fun text => text ++ rest

/-- The anchor and the tag before a node, in either order. -/
def properties (k : Known) : List Token → Option (Option String × Option String × List Token)
  | .anchor a :: .tag h r :: ts => do return (some a, some (← resolveTag k h r), ts)
  | .anchor a :: ts => some (some a, none, ts)
  | .tag h r :: .anchor a :: ts => do return (some a, some (← resolveTag k h r), ts)
  | .tag h r :: ts => do return (none, some (← resolveTag k h r), ts)
  | ts => some (none, none, ts)

/-- Says whether a value or a key of a block mapping is left out before these tokens. -/
def endsBlockPart : List Token → Bool
  | .key :: _ | .value :: _ | .blockEnd :: _ => true
  | _ => false

/-- Says whether a part of a flow mapping is left out before these tokens. -/
def endsFlowPart : List Token → Bool
  | .value :: _ | .comma :: _ | .flowMappingEnd :: _ => true
  | _ => false

mutual
/-- A node. Inside a block mapping a sequence need not be indented (`allowsDash`); between brackets
there are no blocks. -/
def node (inBlock allowsDash : Bool) : Nat → Known → List Token →
    Option (Node × Known × List Token)
  | 0, _, _ => none
  | _ + 1, k, .alias name :: ts => do
    let n ← (k.anchors.lookup name).join
    return (n, k, ts)
  | fuel + 1, k, ts => do
    let (anchor, tag, ts) ← properties k ts
    let inner : Known :=
      match anchor with
      | some a => { k with anchors := (a, none) :: k.anchors }
      | none => k
    let (n, k, ts) ← content inBlock allowsDash (anchor.isSome || tag.isSome) tag fuel inner ts
    let k : Known :=
      match anchor with
      | some a => { k with anchors := (a, some n) :: k.anchors }
      | none => k
    return (n, k, ts)
/-- The content of a node after its anchor and tag. With either of them it can be left out. -/
def content (inBlock allowsDash hasProperties : Bool) (tag : Option String) :
    Nat → Known → List Token →
    Option (Node × Known × List Token)
  | 0, _, _ => none
  | fuel + 1, k, ts =>
    match ts with
    | .scalar style text :: ts => some (.scalar tag style text, k, ts)
    | .flowSequence :: ts => do
      let (items, k, ts) ← flowItems true fuel k ts
      return (.sequence tag items, k, ts)
    | .flowMapping :: ts => do
      let (entries, k, ts) ← flowEntries true fuel k ts
      return (.mapping tag entries, k, ts)
    | .blockSequence :: ts => do
      if !inBlock then
        if hasProperties then return (empty tag, k, .blockSequence :: ts) else none
      let (items, k, ts) ← blockItems fuel k ts
      return (.sequence tag items, k, ts)
    | .blockMapping :: ts => do
      if !inBlock then
        if hasProperties then return (empty tag, k, .blockMapping :: ts) else none
      let (entries, k, ts) ← blockEntries fuel k ts
      return (.mapping tag entries, k, ts)
    | .dash :: ts => do
      if !allowsDash then
        if hasProperties then return (empty tag, k, .dash :: ts) else none
      let (items, k, ts) ← looseItems fuel k (.dash :: ts)
      return (.sequence tag items, k, ts)
    | ts => if hasProperties then some (empty tag, k, ts) else none
/-- The items of a block sequence, and its end. -/
def blockItems : Nat → Known → List Token → Option (List Node × Known × List Token)
  | 0, _, _ => none
  | fuel + 1, k, ts =>
    match ts with
    | .blockEnd :: ts => some ([], k, ts)
    | .dash :: ts => do
      let (n, k, ts) ←
        match ts with
        | .dash :: _ | .blockEnd :: _ => some (empty none, k, ts)
        | ts => node true false fuel k ts
      let (ns, k, ts) ← blockItems fuel k ts
      return (n :: ns, k, ts)
    | _ => none
/-- The items of a sequence that is not indented. It ends where no dash follows. -/
def looseItems : Nat → Known → List Token → Option (List Node × Known × List Token)
  | 0, _, _ => none
  | fuel + 1, k, ts =>
    match ts with
    | .dash :: ts => do
      let (n, k, ts) ←
        match ts with
        | .dash :: _ => some (empty none, k, ts)
        | ts => if endsBlockPart ts then some (empty none, k, ts) else node true false fuel k ts
      let (ns, k, ts) ← looseItems fuel k ts
      return (n :: ns, k, ts)
    | ts => some ([], k, ts)
/-- The entries of a block mapping, and its end. -/
def blockEntries : Nat → Known → List Token → Option (List (Node × Node) × Known × List Token)
  | 0, _, _ => none
  | fuel + 1, k, ts =>
    match ts with
    | .blockEnd :: ts => some ([], k, ts)
    | .key :: ts => do
      let (n, k, ts) ← if endsBlockPart ts then some (empty none, k, ts) else
          node true true fuel k ts
      let (v, k, ts) ←
        match ts with
        | .value :: ts =>
          if endsBlockPart ts then some (empty none, k, ts) else node true true fuel k ts
        | ts => some (empty none, k, ts)
      let (es, k, ts) ← blockEntries fuel k ts
      return ((n, v) :: es, k, ts)
    | _ => none
/-- The items of a flow sequence, and its end. An item can be a mapping of one entry without
brackets. -/
def flowItems (isFirst : Bool) : Nat → Known → List Token → Option (List Node × Known × List Token)
  | 0, _, _ => none
  | fuel + 1, k, ts => do
    if let .flowSequenceEnd :: ts := ts then return ([], k, ts)
    let ts ←
      if isFirst then some ts
      else
        match ts with
        | .comma :: ts => some ts
        | _ => none
    match ts with
    | .flowSequenceEnd :: ts => return ([], k, ts)
    | .key :: ts => do
      let (e, k, ts) ← flowPair fuel k ts
      let (ns, k, ts) ← flowItems false fuel k ts
      return (.mapping none [e] :: ns, k, ts)
    | ts => do
      let (n, k, ts) ← node false false fuel k ts
      let (ns, k, ts) ← flowItems false fuel k ts
      return (n :: ns, k, ts)
/-- The entry of a mapping without brackets. Where its key is left out, the token that stands there
is passed over. -/
def flowPair : Nat → Known → List Token → Option ((Node × Node) × Known × List Token)
  | 0, _, _ => none
  | fuel + 1, k, ts => do
    let (n, k, ts) ←
      match ts with
      | .value :: ts | .comma :: ts | .flowSequenceEnd :: ts => some (empty none, k, ts)
      | ts => node false false fuel k ts
    match ts with
    | .value :: ts =>
      match ts with
      | .comma :: _ | .flowSequenceEnd :: _ => return ((n, empty none), k, ts)
      | ts => do
        let (v, k, ts) ← node false false fuel k ts
        return ((n, v), k, ts)
    | ts => return ((n, empty none), k, ts)
/-- The entries of a flow mapping, and its end. -/
def flowEntries (isFirst : Bool) : Nat → Known → List Token →
    Option (List (Node × Node) × Known × List Token)
  | 0, _, _ => none
  | fuel + 1, k, ts => do
    if let .flowMappingEnd :: ts := ts then return ([], k, ts)
    let ts ←
      if isFirst then some ts
      else
        match ts with
        | .comma :: ts => some ts
        | _ => none
    match ts with
    | .flowMappingEnd :: ts => return ([], k, ts)
    | .key :: ts => do
      let (n, k, ts) ← if endsFlowPart ts then some (empty none, k, ts) else
          node false false fuel k ts
      let (v, k, ts) ←
        match ts with
        | .value :: ts =>
          match ts with
          | .comma :: _ | .flowMappingEnd :: _ => some (empty none, k, ts)
          | ts => node false false fuel k ts
        | ts => some (empty none, k, ts)
      let (es, k, ts) ← flowEntries false fuel k ts
      return ((n, v) :: es, k, ts)
    | ts => do
      let (n, k, ts) ← node false false fuel k ts
      let (es, k, ts) ← flowEntries false fuel k ts
      return ((n, empty none) :: es, k, ts)
end

/-- The shorthands that every document has. -/
def standardShorthands : List (String × String) := [("!", "!"), ("!!", "tag:yaml.org,2002:")]

/-- Reads the directives of a document: at most one version, which is 1.1 or 1.2, and shorthands
with different handles. -/
def directives (seenVersion : Bool) (own : List (String × String)) :
    List Token → Option (List (String × String) × List Token)
  | .version major minor :: ts =>
    if seenVersion || major != 1 || (minor != 1 && minor != 2) then none else directives true own ts
  | .shorthand handle text :: ts =>
    if (own.lookup handle).isSome then none else directives seenVersion (own ++ [(handle, text)]) ts
  | ts => some (own ++ standardShorthands, ts)

/-- Says whether the content of a document is left out before these tokens. -/
def endsDocument : List Token → Bool
  | [] | .documentStart :: _ | .documentEnd :: _ | .version _ _ :: _ | .shorthand _ _ :: _ => true
  | _ => false

/-- The document in a list of tokens. With directives it has to start with a mark. -/
def ofTokens (ts : List Token) : Option Node := do
  let (shorthands, rest) ← directives false [] ts
  let known : Known := ⟨shorthands, []⟩
  let hasDirectives := rest.length < ts.length
  let (n, _, rest) ←
    match rest with
    | .documentStart :: rest =>
      if endsDocument rest then some (empty none, known, rest)
      else node true false (2 * ts.length + 2) known rest
    | rest => if hasDirectives then none else node true false (2 * ts.length + 2) known rest
  if rest.all (· == .documentEnd) then return n else none

/-- The document of a text. A text that holds none gives no node; the result itself is none where
the text is malformed. -/
def read? (text : String) : Option (Option Node) := do
  let ts ← Token.scan text
  if ts.isEmpty then return none
  return some (← ofTokens ts)

end Node
end LiveSpec.Yaml
