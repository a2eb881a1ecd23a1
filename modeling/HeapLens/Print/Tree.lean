import HeapLens.Print.Context
import HeapLens.Print.Sink
import HeapLens.Word.Flags

/-!
Printing a value and the values below it. A node shown with depth left above one is followed by its
children, one level deeper with one level of depth less; an object that was shown in full before
gets a marked line and nothing below it; a child that cannot be decoded gets a line that says why.
-/
namespace HeapLens
open HeapLens.Text

structure Line where
  level : Nat
  label : Option String
  text : String
  deriving DecidableEq, Repr

/-- Two spaces for each level, the label with a colon, the text and a line break. -/
def Line.render (l : Line) : String :=
  let labelled := match l.label with
    | some label => label ++ ": " ++ l.text
    | none => l.text
  String.ofList (List.replicate (2 * l.level) ' ') ++ labelled ++ "\n"

/-- The state of printing: reads made, text written, objects shown. -/
structure Page where
  trace : Trace
  out : Sink
  visited : Visited

abbrev Print := Run Page

namespace Print

def probe {α : Type} (x : Probe α) : Print α :=
  Run.within (·.trace) (fun trace page => { page with trace := trace }) x

def write (l : Line) : Print Unit := fun page =>
  let (complete, out) := page.out.write l.render
  (if complete then .ok () else .error .outputFailed, { page with out := out })

def isVisited (address : Option UInt64) : Print Bool := do
  match address with
  | some address => return (← Run.state).visited.contains address
  | none => return false

def visit (address : Option UInt64) : Print Unit :=
  match address with
  | some address => Run.update fun page => { page with visited := page.visited.insert address }
  | none => return ()

end Print

/-- Header and internals behind the line of a node. -/
def View.debugText (v : View) : String :=
  let header := match v.header? with
    | some h =>
      let names := match HeaderFlag.describe h.flags with
        | some names => " [" ++ names ++ "]"
        | none => ""
      " flags=" ++ hex h.flags ++ names ++ " klass=" ++ hex h.klass
    | none => ""
  header ++ String.join (v.details.map fun d => " " ++ d.1 ++ "=" ++ d.2)

namespace Inspector

/-- A node and, as far as the depth goes, what is below it. -/
def printView (i : Inspector) (debug : Bool) :
    (depth : Nat) → (level : Nat) → (label : Option String) → View → Print Unit
  | 0, level, label, view => Print.write ⟨level, label, view.line⟩
  | depth + 1, level, label, view => do
    if ← Print.isVisited view.address? then
      Print.write ⟨level, label, view.line ++ " (already seen)"⟩
    else
      Print.write ⟨level, label, if debug then view.line ++ view.debugText else view.line⟩
      Print.visit view.address?
      if depth = 0 then return ()
      else
        Run.each (fun child => do
          match ← Print.probe (i.interpret child.word).attempt with
          | .ok below => printView i debug depth (level + 1) (some child.label) below
          | .error e =>
            Print.write ⟨level + 1, some child.label, "<error: " ++ e.message ++ ">"⟩)
          view.children
        if view.omitted = 0 then return ()
        else Print.write ⟨level + 1, none, "... " ++ toString view.omitted ++ " more"⟩

/-- The tree of a word. A word that cannot be decoded is an error, and nothing is written. -/
def printWord (i : Inspector) (options : Options) (word : UInt64) : Print Unit := do
  let view ← Print.probe (i.interpret word)
  i.printView options.debug options.depth 0 none view

end Inspector
end HeapLens
