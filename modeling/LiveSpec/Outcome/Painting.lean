import LiveSpec.Markup.Document
import LiveSpec.Outcome.Basic

/-!
# Painting outcomes into the document

An outcome is shown at its element: by a class, and for a failure or an exception by what was found
instead. The content of a failed element becomes what was expected, with the actual text after it;
an exception adds its message and the frames around it at the end of the element.

An element that already shows an outcome is left alone, so that painting twice is painting once. An
element that cannot be painted, because it was cut off, is reported and does not keep the others
from being painted.
-/

namespace LiveSpec

open Markup (NodeId Tree TreeError)

/-- An outcome that could not be painted. -/
structure Diagnostic where
  element : String
  message : String
deriving DecidableEq, Repr, Inhabited

namespace Painting

/-- An edit of the tree that can fail. What was changed before it failed stays changed. -/
abbrev Edit := ExceptT TreeError (StateM Tree)

/-- An edit that cannot fail. -/
def edit (f : Tree → Tree) : Edit Unit := modify f

/-- An edit that makes a node. -/
def make (f : Tree → NodeId × Tree) : Edit NodeId := do
  let (n, t) := f (← get)
  set t
  return n

/-- An edit that fails without changing anything, or changes the tree as a whole. -/
def attempt (f : Tree → Except TreeError Tree) : Edit Unit := do
  match f (← get) with
  | .ok t => set t
  | .error e => throw e

/-- Passes for a live element only. -/
def ensureLive (n : NodeId) : Edit Unit := do
  match (← get).ensureLive n with
  | .ok () => return
  | .error e => throw e

/-- An element with text and a class. -/
def textElement (name class_ text : String) : Edit NodeId := do
  let n ← make fun t => t.newElementWithText name text
  edit fun t => t.addClass n class_
  return n

/-- Shows a failed assertion: the old content as what was expected, the actual text after it. -/
def paintFailure (n : NodeId) (actual : String) : Edit Unit := do
  if (← get).hasClass n "failure" then return
  edit fun t => t.addClass n "failure"
  ensureLive n
  let expected ← make fun t => t.newElement "del"
  edit fun t => t.addClass expected "expected"
  attempt fun t => t.moveChildren n expected
  attempt fun t => t.appendChild n expected
  let found ← textElement "ins" "actual" actual
  attempt fun t => t.insertAfter expected found

/-- Says whether an element already shows the message of an exception. -/
def showsMessage (t : Tree) (children : List NodeId) (message : String) : Bool :=
  children.any fun c => t.hasClass c "exceptionMessage" && t.text c == message

/-- The entries of the frames of an exception. -/
def paintFrames (trace : NodeId) : List String → Edit Unit
  | [] => return
  | frame :: rest => do
    let entry ← textElement "div" "stackTraceEntry" frame
    attempt fun t => t.appendChild trace entry
    paintFrames trace rest

/-- Shows an exception: its message, the expression, and the frames of the fixture. -/
def paintException (n : NodeId) (expression : String) (error : EvaluationError) : Edit Unit := do
  let t ← get
  let children ← t.childElements n
  if showsMessage t children error.message then return
  edit fun t => t.addClass n "exception"
  let span ← textElement "span" "exceptionMessage" error.message
  attempt fun t => t.appendChild n span
  let trace ← make fun t => t.newElement "div"
  edit fun t => t.addClass trace "stackTrace"
  let line ← make fun t => t.newElementWithText "p" ("While evaluating expression: " ++ expression)
  attempt fun t => t.appendChild trace line
  paintFrames trace error.frames
  attempt fun t => t.appendChild n trace

/-- Shows one outcome. -/
def paintOne (r : Recorded) : Edit Unit :=
  match r.outcome with
  | .success => edit fun t => t.addClass r.element "success"
  | .failure _ actual => paintFailure r.element actual
  | .exception expression error => paintException r.element expression error
  | .missingRow _ => edit fun t => t.addClass r.element "missing"
  | .surplusRow _ => edit fun t => t.addClass r.element "surplus"

/-- Shows outcomes one after the other. -/
def paint (t : Tree) : List Recorded → Tree × List Diagnostic
  | [] => (t, [])
  | r :: rest =>
    match (paintOne r).run t with
    | (.ok (), t) => paint t rest
    | (.error e, t) =>
      let (t', ds) := paint t rest
      (t', ⟨t.describe r.element, e.message⟩ :: ds)

/-- The style sheet that goes with the classes. -/
def defaultCss : String := ".success \x7b background-color: #afa; \x7d
.failure \x7b background-color: #ffb0b0; \x7d
.failure del.expected \x7b text-decoration: line-through; \x7d
.failure ins.actual \x7b text-decoration: none; margin-left: 0.5em; \x7d
.exception \x7b background-color: #fdd; \x7d
.exceptionMessage \x7b display: block; color: #c00; font-weight: bold; \x7d
.stackTrace \x7b font-family: monospace; font-size: 0.8em; padding: 0.5em; background-color: #fee; \x7d
.stackTraceEntry \x7b white-space: pre; \x7d
tr.missing \x7b background-color: #ffb0b0; font-style: italic; \x7d
tr.surplus \x7b background-color: #ffb0b0; text-decoration: line-through; \x7d
"

/-- Adds a style sheet at the end of the head. -/
def embedCss (t : Tree) (css : String) : Except TreeError Tree := do
  let (style, t) := t.newElementWithText "style" css
  let t := t.setAttribute style "type" "text/css"
  let (head, t) ← t.head
  t.appendChild head style

end Painting
end LiveSpec
