import LiveSpec.Markup.Tree

/-!
# Errors that end a run

What goes wrong inside a single command is an outcome of that command, and the run goes on. The
errors of this module end the run: a mistake in how the engine was put together, a listener that
refuses, a document that lacks a needed element, and failures of reading and writing.
-/

namespace LiveSpec

/-- Why a file cannot be read or written. -/
inductive FileFault where
  | notFound
  /-- Something else has the name of the directory that is needed. -/
  | taken
  /-- Something on the way to the file is no directory. -/
  | notDirectory
  | isDirectory
  | nameTooLong
  /-- The file holds bytes that are no text. -/
  | noText
deriving DecidableEq, Repr, Inhabited

/-- The wording of a fault, with its number if it has one. -/
def FileFault.message : FileFault → String
  | .notFound => "No such file or directory (os error 2)"
  | .taken => "File exists (os error 17)"
  | .notDirectory => "Not a directory (os error 20)"
  | .isDirectory => "Is a directory (os error 21)"
  | .nameTooLong => "File name too long (os error 36)"
  | .noText => "stream did not contain valid UTF-8"

/-- An error that ends a run, or keeps it from starting. -/
inductive Error where
  /-- Markup in a registered namespace that names no command. -/
  | unknownCommand (ns name : String)
  /-- A second registration under a key that is taken. -/
  | duplicateCommand (ns name : String)
  /-- A registration after the extension set was handed out. -/
  | lateRegistration (what : String)
  | invalidExtension (name message : String)
  | config (message : String)
  /-- A listener that refused an event. -/
  | listener (name message : String)
  | element (cause : Markup.TreeError)
  | io (message : String)
  /-- Text that is not JSON. -/
  | json
  /-- Text that is not YAML, or does not describe what was asked for. -/
  | yaml
deriving DecidableEq, Repr, Inhabited

namespace Error

/-- The wording of an error. -/
def message : Error → String
  | .unknownCommand ns name => "Unknown command '" ++ name ++ "' in namespace " ++ ns
  | .duplicateCommand ns name =>
    "Command '" ++ name ++ "' is already registered in namespace " ++ ns
  | .lateRegistration what => "Cannot register " ++ what ++ ": extension set is already built"
  | .invalidExtension name message => "Invalid extension '" ++ name ++ "': " ++ message
  | .config message => "Configuration error: " ++ message
  | .listener name message => "Listener '" ++ name ++ "' failed: " ++ message
  | .element cause => "Element error: " ++ cause.message
  | .io message => "I/O error: " ++ message
  | .json => "JSON error"
  | .yaml => "YAML error"

/-- Says whether an error comes from how the engine or the call graph was put together, before any
command ran. -/
def isConfiguration : Error → Bool
  | .unknownCommand _ _ | .duplicateCommand _ _ | .lateRegistration _ | .invalidExtension _ _
  | .config _ => true
  | _ => false

/-- The error of a file that cannot be used. -/
def ofFile (fault : FileFault) : Error := .io fault.message

end Error
end LiveSpec
