import LiveSpec.Markup.Attributes
import LiveSpec.Markup.Reference

/-!
# The lexemes of a document

A document is cut into tags, comments, the document type and the text between them. How text is read
depends on the element around it (`Manner`): inside a script nothing but the end tag counts, inside
a title references still do.

Names of tags and attributes are taken in lower case. Of a repeated attribute the first one stays.
-/

namespace LiveSpec.Markup

/-- A lexeme of a document. -/
inductive Lexeme where
  | startTag (name : String) (attributes : Attributes)
  | endTag (name : String)
  | text (cs : List Char)
  | comment (s : String)
  /-- The document type, and whether it asks for the old layout rules. -/
  | doctype (name : String) (oldLayout : Bool)
  | finish
deriving Inhabited

/-- How text is read. The elements whose text is special name the end tag that ends it. -/
inductive Manner where
  | markup
  /-- Text with references, but without tags. -/
  | titled (name : String)
  | raw (name : String)
  | script
  /-- Text up to the end of the document. -/
  | endless
deriving DecidableEq, Inhabited

namespace Lexeme

/-- The blanks of the notation. -/
def isBlank (c : Char) : Bool := c == ' ' || c == '\n' || c == '\t' || c.toNat == 12 || c == '\r'

/-- Line ends as line feeds. -/
def normalLines : List Char → List Char
  | [] => []
  | '\r' :: '\n' :: cs => '\n' :: normalLines cs
  | '\r' :: cs => '\n' :: normalLines cs
  | c :: cs => c :: normalLines cs

/-- A character as it is read: the one without meaning is replaced. -/
def sound (c : Char) : Char := if c.toNat = 0 then Char.ofNat 0xFFFD else c

/-- A text as a name in lower case. -/
def nameOf (cs : List Char) : String := .ofList (cs.map fun c => (sound c).toLower)

/-- The text of an attribute value. -/
def valueOf (cs : List Char) : List Char := resolveReferences true (cs.map sound)

/-- Says whether a character ends the name of a tag. -/
def endsTagName (c : Char) : Bool := isBlank c || c == '/' || c == '>'

/-- Adds an attribute, unless there is one of its name. -/
def addAttribute (as : Attributes) (name value : String) : Attributes :=
  if (as.map Prod.fst).contains name then as else as ++ [(name, value)]

/-- The value of an attribute after the equals sign, and what follows it. None if the text ends
first. -/
def value? (cs : List Char) : Option (List Char × List Char) :=
  match cs.dropWhile isBlank with
  | '"' :: rest =>
    match rest.dropWhile (· != '"') with
    | _ :: after => some (valueOf (rest.takeWhile (· != '"')), after)
    | [] => none
  | '\'' :: rest =>
    match rest.dropWhile (· != '\'') with
    | _ :: after => some (valueOf (rest.takeWhile (· != '\'')), after)
    | [] => none
  | rest =>
    let ends (c : Char) : Bool := isBlank c || c == '>'
    some (valueOf (rest.takeWhile fun c => !ends c), rest.dropWhile fun c => !ends c)

/-- The attributes of a tag up to its end, and what follows the tag. None if the text ends first. -/
def attributes? : Nat → Attributes → List Char → Option (Attributes × List Char)
  | 0, _, _ => none
  | fuel + 1, as, cs =>
    match cs with
    | [] => none
    | '>' :: rest => some (as, rest)
    | c :: rest =>
      if isBlank c || c == '/' then attributes? fuel as rest
      else
        -- an equals sign at the start of a name belongs to it
        let ends (d : Char) : Bool := isBlank d || d == '/' || d == '>' || d == '='
        let name := nameOf (c :: rest.takeWhile fun d => !ends d)
        let after := rest.dropWhile fun d => !ends d
        match after.dropWhile isBlank with
        | '=' :: more =>
          match value? more with
          | some (v, after) => attributes? fuel (addAttribute as name (.ofList v)) after
          | none => none
        | _ => attributes? fuel (addAttribute as name "") after

/-- A tag after its name began: name, attributes, and what follows. None if the text ends first. -/
def tag? (cs : List Char) : Option (String × Attributes × List Char) := do
  let name := nameOf (cs.takeWhile fun c => !endsTagName c)
  let (as, rest) ← attributes? (cs.length + 1) [] (cs.dropWhile fun c => !endsTagName c)
  return (name, as, rest)

/-- A comment without the dashes of an ending that the end of the text cut short. -/
def dropDashes (cs : List Char) : List Char :=
  match cs.reverse with
  | '!' :: '-' :: '-' :: rest => rest.reverse
  | '-' :: '-' :: rest => rest.reverse
  | '-' :: rest => rest.reverse
  | _ => cs

/-- The text of a comment after its first two dashes, and what follows it. -/
def commentBody (done : List Char) : List Char → List Char × List Char
  | '-' :: '-' :: '>' :: rest => (done.reverse, rest)
  | '-' :: '-' :: '!' :: '>' :: rest => (done.reverse, rest)
  | c :: rest => commentBody (c :: done) rest
  | [] => (dropDashes done.reverse, [])

/-- A comment after its first two dashes. -/
def commentText (cs : List Char) : List Char × List Char :=
  match cs with
  | '>' :: rest => ([], rest)
  | '-' :: '>' :: rest => ([], rest)
  | _ => commentBody [] cs

/-- What stands before the first `>`, and what follows it. -/
def upToClose (cs : List Char) : List Char × List Char :=
  (cs.takeWhile (· != '>'), (cs.dropWhile (· != '>')).drop 1)

/-- Says whether a text begins with a word, the case of ASCII letters aside. -/
def startsWith (word cs : List Char) : Bool :=
  (cs.take word.length).map Char.toLower == word.map Char.toLower

/-- A document type after its keyword. -/
def doctypeOf (cs : List Char) : Lexeme × List Char :=
  let (body, rest) := upToClose cs
  let name := nameOf ((body.dropWhile isBlank).takeWhile fun c => !isBlank c)
  (.doctype name (name != "html" || !cs.contains '>'), rest)

/-- A comment of a text. -/
def commentOf (cs : List Char) : Lexeme := .comment (.ofList (cs.map sound))

/-- What follows `<!`. -/
def declaration (cs : List Char) : Lexeme × List Char :=
  match cs with
  | '-' :: '-' :: rest =>
    let (body, rest) := commentText rest
    (commentOf body, rest)
  | _ =>
    if startsWith "doctype".toList cs then doctypeOf (cs.drop 7)
    else
      let (body, rest) := upToClose cs
      (commentOf body, rest)

/-- The text up to the next markup, the first character included. -/
def plainText (cs : List Char) : List Char × List Char :=
  match cs with
  | [] => ([], [])
  | c :: rest => (c :: rest.takeWhile (· != '<'), rest.dropWhile (· != '<'))

/-- The next lexeme of ordinary markup. None stands for markup that leaves no trace. -/
def nextMarkup (cs : List Char) : Option Lexeme × List Char :=
  let asText : Option Lexeme × List Char :=
    let (body, rest) := plainText cs
    (some (.text (resolveReferences false (body.filter fun c => c.toNat != 0))), rest)
  match cs with
  | '<' :: '!' :: rest =>
    let (l, rest) := declaration rest
    (some l, rest)
  | '<' :: '?' :: rest =>
    let (body, rest) := upToClose ('?' :: rest)
    (some (commentOf body), rest)
  | '<' :: '/' :: c :: rest =>
    if isAsciiLetter c then
      match tag? (c :: rest) with
      | some (name, _, rest) => (some (.endTag name), rest)
      | none => (none, [])
    else if c = '>' then (none, rest)
    else
      let (body, rest) := upToClose (c :: rest)
      (some (commentOf body), rest)
  | '<' :: c :: rest =>
    if isAsciiLetter c then
      match tag? (c :: rest) with
      | some (name, as, rest) => (some (.startTag name as), rest)
      | none => (none, [])
    else asText
  | _ => asText

/-- Says whether the end tag of an element begins here. -/
def endsElement (name : String) (cs : List Char) : Bool :=
  startsWith ('<' :: '/' :: name.toList) cs
    && ((cs.drop (name.length + 2)).head?.map endsTagName).getD false

/-- The text up to the end tag of an element, and the rest from there. -/
def upToEndTag (name : String) (done : List Char) : List Char → List Char × List Char
  | [] => (done.reverse, [])
  | c :: rest =>
    if endsElement name (c :: rest) then (done.reverse, c :: rest) else
      upToEndTag name (c :: done) rest

/-- Where the text of a script stands: outside of any comment, inside one, or inside a script in
one. -/
inductive ScriptPlace where
  | outside
  | inComment
  | inNested

/-- The text of a script up to its end tag. Inside a comment the end tag of a nested script does not
end it. -/
def upToScriptEnd (place : ScriptPlace) (done : List Char) : List Char → List Char × List Char
  | [] => (done.reverse, [])
  | c :: rest =>
    let cs := c :: rest
    let opensNested :=
      startsWith "<script".toList cs && ((cs.drop 7).head?.map endsTagName).getD false
    match place with
    | .outside =>
      if endsElement "script" cs then (done.reverse, cs)
      else upToScriptEnd (if startsWith "<!--".toList cs then .inComment else .outside)
        (c :: done) rest
    | .inComment =>
      if endsElement "script" cs then (done.reverse, cs)
      else
        let place : ScriptPlace :=
          if startsWith "-->".toList cs then .outside else if opensNested then
            .inNested else .inComment
        upToScriptEnd place (c :: done) rest
    | .inNested =>
      let place : ScriptPlace :=
        if startsWith "-->".toList cs then .outside
        else if endsElement "script" cs then .inComment
        else .inNested
      upToScriptEnd place (c :: done) rest

/-- The next lexeme of a text that is not empty, and the rest, which is shorter. None stands for
markup that leaves no trace. -/
def next (m : Manner) (cs : List Char) : Option Lexeme × List Char :=
  let special (body rest : List Char) (resolved : Bool) : Option Lexeme × List Char :=
    if body.isEmpty then nextMarkup rest
    else
      let body := body.map sound
      (some (.text (if resolved then resolveReferences false body else body)), rest)
  match m with
  | .markup => nextMarkup cs
  | .titled name =>
    let (body, rest) := upToEndTag name [] cs
    special body rest true
  | .raw name =>
    let (body, rest) := upToEndTag name [] cs
    special body rest false
  | .script =>
    let (body, rest) := upToScriptEnd .outside [] cs
    special body rest false
  | .endless => (some (.text (cs.map sound)), [])

end Lexeme
end LiveSpec.Markup
