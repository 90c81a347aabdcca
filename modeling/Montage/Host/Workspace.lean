/-
# Montage.Host.Workspace -- a machine that is a value

A workspace holds files and directories, the tools that can be called, and what
was called and printed so far.  Programs run on it as on any other machine, and
what they did can be read off the value that is left.

A place is named by the names that lead to it from the root.  A path is followed
one part at a time: every part but the last must name a directory, two points lead
back, and parts that name nothing stay, which only a directory lets them do.
-/
import Montage.Host

namespace Montage

set_option autoImplicit false

/-- The names that lead to a place from the root. -/
abbrev Place := List (List Char)

/-- What is at a place. -/
inductive Entry where
  | directory
  | file (text : String)
  deriving DecidableEq, Repr

/-- A machine with its files, its tools and what happened on it. -/
structure Workspace where
  /-- Where programs stand. -/
  here : Place := ["work".toList]
  /-- What is at each place but the root. -/
  entries : List (Place × Entry) := [(["work".toList], .directory)]
  /-- The tools by their names: what comes of given arguments. -/
  tools : List (String × (List String → Exit)) := []
  /-- The calls of tools so far. -/
  calls : List (String × List String) := []
  /-- The lines that were printed so far. -/
  printed : List String := []
  /-- The lines of complaint so far. -/
  complaints : List String := []

namespace Workspace

def entry? (w : Workspace) (place : Place) : Option Entry :=
  if place = [] then some .directory else w.entries.lookup place

def isDirectory (w : Workspace) (place : Place) : Bool := w.entry? place = some .directory

/-- The workspace with something put at a place. -/
def put (w : Workspace) (place : Place) (e : Entry) : Workspace :=
  { w with entries := (place, e) :: w.entries.filter (fun old => old.1 ≠ place) }

/-- The part that leads back. -/
def back : List Char := ['.', '.']

/-- Whether a part names something in a directory. -/
def isName (part : List Char) : Bool := !Path.isIdle part && part ≠ back

/-- The place that one part of a path leads to. -/
def step (w : Workspace) (place : Place) (part : List Char) : Option Place :=
  if !w.isDirectory place then none
  else if Path.isIdle part then some place
  else if part = back then some place.dropLast
  else if (w.entry? (place ++ [part])).isSome then some (place ++ [part])
  else none

/-- Where a path starts. -/
def start (w : Workspace) (path : String) : Place :=
  if Path.isAbsolute path then [] else w.here

/-- The place that parts of a path lead to. -/
def follow (w : Workspace) (place : Place) (parts : List (List Char)) : Option Place :=
  parts.foldlM w.step place

/-- The place that a path leads to. -/
def place? (w : Workspace) (path : String) : Option Place :=
  if path = "" then none else w.follow (w.start path) (Path.parts path)

/-- What a path leads to. -/
def at? (w : Workspace) (path : String) : Option Entry := (w.place? path).bind w.entry?

/-- Follow parts of a path, making a directory wherever a name leads nowhere.
It stops at the first part that does not lead to a directory. -/
def makeAll (w : Workspace) (place : Place) : List (List Char) → Workspace × Bool
  | [] => (w, w.isDirectory place)
  | part :: rest =>
      match w.step place part with
      | some next => w.makeAll next rest
      | none =>
          if w.isDirectory place ∧ isName part then
            (w.put (place ++ [part]) .directory).makeAll (place ++ [part]) rest
          else (w, false)

/-- Make a directory and all that lead to it. -/
def makeDirectory (w : Workspace) (path : String) : Workspace × Bool :=
  if path = "" then (w, true) else w.makeAll (w.start path) (Path.parts path)

/-- Write a text to a path whose directory is there, unless a directory is there
already. -/
def write (w : Workspace) (path text : String) : Workspace × Bool :=
  let parts := Path.parts path
  match w.follow (w.start path) parts.dropLast, parts.getLast? with
  | some place, some name =>
      if w.isDirectory place ∧ isName name ∧ ¬ w.isDirectory (place ++ [name]) then
        (w.put (place ++ [name]) (.file text), true)
      else (w, false)
  | _, _ => (w, false)

/-- What comes of reading a file. -/
def read (w : Workspace) (path : String) : Reading :=
  match w.at? path with
  | none => .missing
  | some .directory => .unreadable
  | some (.file text) => .text text

/-- Whether a path names a file. -/
def isFile (w : Workspace) (path : String) : Bool :=
  match w.at? path with
  | some (.file _) => true
  | _ => false

/-- Run a tool, if there is one of that name. -/
def call (w : Workspace) (tool : String) (args : List String) : Workspace × Option Exit :=
  match w.tools.lookup tool with
  | none => (w, none)
  | some run => ({ w with calls := w.calls ++ [(tool, args)] }, some (run args))

/-- What is below where programs stand, by path. -/
def tree (w : Workspace) : List (String × Entry) :=
  w.entries.filterMap (fun (place, e) =>
    if w.here.isPrefixOf place ∧ place ≠ w.here then
      some (Path.ofParts (place.drop w.here.length), e)
    else none)

/-- Do something that changes the workspace and has an answer. -/
def does {α : Type} (f : Workspace → Workspace × α) : StateM Workspace α := do
  let (next, answer) := f (← get)
  set next
  return answer

/-- Programs run on a workspace as on any machine. -/
instance : Host (StateM Workspace) where
  read path := return (← get).read path
  isFile path := return (← get).isFile path
  isThere path := return ((← get).at? path).isSome
  makeDirectory path := does (fun w => w.makeDirectory path)
  write path text := does (fun w => w.write path text)
  call tool args := does (fun w => w.call tool args)
  print line := modify (fun w => { w with printed := w.printed ++ [line] })
  complain line := modify (fun w => { w with complaints := w.complaints ++ [line] })

end Workspace

end Montage
