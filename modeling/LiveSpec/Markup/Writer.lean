import LiveSpec.Markup.Tree

/-!
# Writing a document

A node is written as its tag, its children and its end tag. Three things depend on the element
around a node. Inside elements whose text is not marked up, such as scripts, text is written as it
is. A void element has no end tag; if it came to have children, their text is written without any
tags. All other text is escaped.
-/

namespace LiveSpec.Markup

/-- The elements without content and end tag. -/
def voidNames : List String :=
  ["area", "base", "basefont", "bgsound", "br", "col", "embed", "frame", "hr", "img", "input", "keygen", "link",
    "meta", "param", "source", "track", "wbr"]

/-- The elements whose text is not marked up. -/
def rawTextNames : List String :=
  ["style", "script", "xmp", "iframe", "noembed", "noframes", "plaintext", "noscript"]

/-- A character of text. -/
def escapedInText (c : Char) : String :=
  if c = '&' then "&amp;"
  else if c.toNat = 0xA0 then "&nbsp;"
  else if c = '<' then "&lt;"
  else if c = '>' then "&gt;"
  else String.singleton c

/-- A character of an attribute value. -/
def escapedInValue (c : Char) : String :=
  if c = '&' then "&amp;"
  else if c.toNat = 0xA0 then "&nbsp;"
  else if c = '"' then "&quot;"
  else String.singleton c

/-- What matters of the element around a node: its name, and whether tags are left out in it. -/
structure Surroundings where
  name : String
  tagless : Bool

/-- A start tag. -/
def startTag (name : String) (as : Attributes) : String :=
  "<" ++ name
    ++ String.join (as.map fun (k, v) => " " ++ k ++ "=\"" ++
      String.join (v.toList.map escapedInValue) ++ "\"")
    ++ ">"

/-- A text inside an element. -/
def writtenText (inside : Surroundings) (s : String) : String :=
  if rawTextNames.contains inside.name then s else String.join (s.toList.map escapedInText)

namespace Tree

/-- The notation of a node and of all below it, at most `fuel` levels deep. -/
def write (t : Tree) : Nat → Surroundings → NodeId → String
  | 0, _, _ => ""
  | fuel + 1, inside, n =>
    let children (s : Surroundings) : String :=
      String.join ((t.node n).children.map (write t fuel s))
    match (t.node n).content with
    | .document => children inside
    | .doctype name => "<!DOCTYPE " ++ name ++ ">"
    | .text s => writtenText inside s
    | .comment s => "<!--" ++ s ++ "-->"
    | .element name as =>
      if inside.tagless then children ⟨name, true⟩
      else if voidNames.contains name then startTag name as ++ children ⟨name, true⟩
      else startTag name as ++ children ⟨name, false⟩ ++ "</" ++ name ++ ">"

/-- The notation of the whole document. -/
def html (t : Tree) : String := t.write (t.nodes.size + 1) ⟨"", false⟩ documentId

end Tree
end LiveSpec.Markup
