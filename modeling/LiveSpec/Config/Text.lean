import LiveSpec.Config
import LiveSpec.Error
import LiveSpec.Yaml.Writer

/-!
# The text of a configuration

A configuration is kept as a YAML mapping. A setting that is left out has its standard value, and so
have all in an empty text; a setting that nobody knows, or the same one twice, is an error. The
settings can also be given as a sequence, in the order in which they are written.
-/

namespace LiveSpec.Config

open Yaml (Node)

/-- Says whether a node was left out. -/
def isLeftOut : Node → Bool
  | .scalar _ .plain "" => true
  | _ => false

/-- The text of a scalar that is written as one of a kind other than text. -/
def bareText? (kind : String) : Node → Option String
  | .scalar _ .plain s => some s
  | .scalar (some tag) .literal s => if tag = Node.coreTag kind then some s else none
  | _ => none

/-- A truth value. -/
def truth? (n : Node) : Option Bool := (bareText? "bool" n).bind Yaml.Spelled.bool?

/-- A count of 64 bits. -/
def count? (n : Node) : Option Nat :=
  (bareText? "int" n).bind (Yaml.Spelled.unsigned? 0x10000000000000000)

/-- A sequence of texts. -/
def texts? : Node → Option (List String)
  | .sequence _ items => items.mapM Node.text?
  | n => if isLeftOut n then some [] else none

/-- The names of the settings, in the order in which they are written. -/
def settings : List String :=
  ["output_dir", "embed_default_css", "fresh_window_ms", "max_nesting_depth", "extensions"]

/-- Changes the setting of a name. -/
def set? (c : Config) (name : String) (n : Node) : Option Config :=
  if name = "output_dir" then n.text?.map fun s => { c with outputDir := s }
  else if name = "embed_default_css" then (truth? n).map fun b => { c with embedDefaultCss := b }
  else if name = "fresh_window_ms" then (count? n).map fun k => { c with freshWindowMs := k }
  else if name = "max_nesting_depth" then (count? n).map fun k => { c with maxNestingDepth := k }
  else if name = "extensions" then (texts? n).map fun names => { c with extensions := names }
  else none

/-- Changes settings by name, each at most once. -/
def setNamed? (seen : List String) (c : Config) : List (Node × Node) → Option Config
  | [] => some c
  | (key, n) :: rest => do
    let name ← key.text?
    if seen.contains name then none
    else setNamed? (name :: seen) (← c.set? name n) rest

/-- Changes settings in their order. -/
def setOrdered? (c : Config) : List String → List Node → Option Config
  | _, [] => some c
  | [], _ :: _ => none
  | name :: names, n :: ns => do setOrdered? (← c.set? name n) names ns

/-- The configuration of a node. -/
def ofNode? : Node → Option Config
  | .mapping _ entries => setNamed? [] .standard entries
  | .sequence _ items => setOrdered? .standard settings items
  | n => if isLeftOut n then some .standard else none

/-- Reads a configuration. -/
def read (text : String) : Except Error Config :=
  match Node.read? text with
  | none => .error .yaml
  | some none => .ok .standard
  | some (some n) => (ofNode? n).elim (.error .yaml) .ok

/-- The text of a configuration. -/
def text (c : Config) : String :=
  let truth (b : Bool) : String := if b then "true" else "false"
  let item (name : String) : String := "- " ++ Yaml.written name ++ "\n"
  "output_dir: " ++ Yaml.written c.outputDir
    ++ "\nembed_default_css: " ++ truth c.embedDefaultCss
    ++ "\nfresh_window_ms: " ++ toString c.freshWindowMs
    ++ "\nmax_nesting_depth: " ++ toString c.maxNestingDepth
    ++ "\nextensions:"
    ++ if c.extensions.isEmpty then " []\n" else "\n" ++ String.join (c.extensions.map item)

end LiveSpec.Config
