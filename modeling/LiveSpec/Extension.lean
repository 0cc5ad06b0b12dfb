import LiveSpec.Command.Registry
import LiveSpec.Entries
import LiveSpec.Listener
import LiveSpec.Resource
import LiveSpec.Text.Bytes

/-!
# Extensions

An extension is a list of registrations: commands, modifiers, listeners, what the head of each
document carries, files that go with the documents, and further extensions. They are applied in
order, and the first one that is refused ends the application; what was registered before it stays.

A builder that handed out its set is sealed: it refuses everything, before it looks at anything
else.
-/

namespace LiveSpec

/-- What is added to the head of each document. -/
inductive HeadEntry where
  | linkedCss (target : Resource)
  | embeddedCss (text : String)
  | linkedScript (target : Resource)
  | embeddedScript (text : String)
deriving DecidableEq, Repr, Inhabited

/-- A file that goes with the documents. -/
structure Asset where
  resource : Resource
  bytes : Bytes
deriving DecidableEq, Repr, Inhabited

/-- The content of an asset as a text. -/
def Asset.content (a : Asset) : String := a.bytes.text

/-- A registration. -/
inductive Registration where
  | command (ns name : String) (c : Command)
  | modifier (ns name : String)
  /-- Listeners, registered one after the other. -/
  | listeners (ls : List (Channel × Listener))
  | linkedCss (target : Resource) (text : String)
  | embeddedCss (text : String)
  | linkedScript (target : Resource) (text : String)
  | embeddedScript (text : String)
  /-- A copy of a file, which may be missing. -/
  | copy (target : Resource) (bytes? : Option Bytes)
  /-- All registrations of an extension. -/
  | extension (name : String) (items : List Registration)
  /-- A registration that is refused with a message. -/
  | refused (message : String)

instance : Inhabited Registration := ⟨.listeners []⟩

/-- A copy of a file that holds a text, if it is not missing. -/
def Registration.file (target : Resource) (text? : Option String) : Registration :=
  .copy target (text?.map .ofText)

/-- An extension: a name and its registrations. -/
structure Extension where
  name : String
  items : List Registration
deriving Inhabited

/-- The registrations so far. -/
structure ExtensionBuilder where
  registry : Registry
  listeners : Bus
  head : List HeadEntry
  assets : List Asset
  isSealed : Bool

/-- The registrations of a run. -/
structure ExtensionSet where
  registry : Registry
  listeners : Bus
  head : List HeadEntry
  assets : List Asset

/-- How a channel is called in messages. -/
def Channel.title : Channel → String
  | .parsing => "document parsing listener"
  | .build => "build listener"
  | .assertion => "assert listener"
  | .execution => "execute listener"
  | .rows => "verify rows listener"
  | .exceptions => "exception listener"

namespace ExtensionBuilder

/-- The builder without registrations. -/
def empty : ExtensionBuilder := ⟨.empty, [], [], [], false⟩

/-- Changes to a builder that can be refused. -/
abbrev Building := ExceptT Error (StateM ExtensionBuilder)

/-- Passes only while the builder is not sealed. -/
def ensureOpen (what : String) : Building Unit := do
  if (← get).isSealed then throw (.lateRegistration what)

/-- Changes the registry. -/
def onRegistry (f : Registry → Except Error Registry) : Building Unit := do
  let b ← get
  match f b.registry with
  | .ok r => set { b with registry := r }
  | .error e => throw e

/-- Registers a listener. -/
def addListener (entry : Channel × Listener) : Building Unit := do
  ensureOpen entry.1.title
  modify fun b => { b with listeners := b.listeners ++ [entry] }

mutual
/-- Applies one registration. -/
def add : Registration → Building Unit
  | .command ns name c => do
    ensureOpen ("command '" ++ name ++ "'")
    onRegistry fun r => r.register ns name c
  | .modifier ns name => do
    ensureOpen ("modifier '" ++ name ++ "'")
    onRegistry fun r => r.registerModifier ns name
  | .listeners ls => ls.forM addListener
  | .linkedCss target text => do
    ensureOpen ("stylesheet " ++ target.path)
    modify fun b =>
      { b with assets := b.assets ++ [⟨target, .ofText text⟩], head := b.head ++
        [.linkedCss target] }
  | .embeddedCss text => do
    ensureOpen "embedded stylesheet"
    modify fun b => { b with head := b.head ++ [.embeddedCss text] }
  | .linkedScript target text => do
    ensureOpen ("script " ++ target.path)
    modify fun b =>
      { b with assets := b.assets ++ [⟨target, .ofText text⟩], head := b.head ++
        [.linkedScript target] }
  | .embeddedScript text => do
    ensureOpen "embedded script"
    modify fun b => { b with head := b.head ++ [.embeddedScript text] }
  | .copy target bytes? => do
    ensureOpen ("resource " ++ target.path)
    match bytes? with
    | some bytes => modify fun b => { b with assets := b.assets ++ [⟨target, bytes⟩] }
    | none => throw (.ofFile .notFound)
  | .extension name items => do
    ensureOpen ("extension '" ++ name ++ "'")
    addAll items
  | .refused message => throw (.config message)
/-- Applies registrations in order, up to the first that is refused. -/
def addAll : List Registration → Building Unit
  | [] => return
  | r :: rs => do
    add r
    addAll rs
end

/-- Hands out what was registered, and seals the builder. -/
def build : Building ExtensionSet := do
  ensureOpen "extension set"
  let b ← get
  set { empty with isSealed := true }
  return ⟨b.registry, b.listeners, b.head, b.assets⟩

end ExtensionBuilder

namespace Extension

/-- The application of an extension as a registration. -/
def toRegistration (e : Extension) : Registration := .extension e.name e.items

/-- The commands that specifications are written with. -/
def builtIn : Extension where
  name := "builtin"
  items :=
    let ns := builtInNamespace
    [.command ns "assertEquals" .assertEquals, .command ns "assertTrue" (.assertBoolean true),
      .command ns "assertFalse" (.assertBoolean false), .command ns "echo" .echo,
      .command ns "execute" .execute, .command ns "set" .set, .command ns "run" .run,
      .command ns "verifyRows" .verifyRows, .modifier ns "expected"]

/-- Listens to all that commands report, without a trace in the run. -/
def logEvents : Extension where
  name := "log-events"
  items :=
    [.listeners [(.assertion, .silent), (.execution, .silent), (.rows, .silent),
      (.exceptions, .silent)]]

end Extension

/-- The set of the built-in commands and further extensions, applied in order. -/
def ExtensionSet.of (extensions : List Extension) : Except Error ExtensionSet :=
  let building : ExtensionBuilder.Building ExtensionSet := do
    ExtensionBuilder.add Extension.builtIn.toRegistration
    ExtensionBuilder.addAll (extensions.map Extension.toRegistration)
    ExtensionBuilder.build
  (building.run .empty).1

/-- The extensions that a configuration can name. -/
abbrev Catalog := Entries Extension

namespace Catalog

/-- The catalog that is there from the start. -/
def standard : Catalog := [("log-events", .logEvents)]

/-- The extensions of a list of names, in order. -/
def resolve (c : Catalog) : List String → Except Error (List Extension)
  | [] => .ok []
  | name :: rest =>
    match c.find? name with
    | none =>
      .error (.invalidExtension name ("not in catalog (known: " ++ ", ".intercalate c.names ++ ")"))
    | some e => do return e :: (← resolve c rest)

end Catalog
end LiveSpec
