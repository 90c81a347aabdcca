/-
# Montage.CommandLine.Fault -- why a command gives up

Besides the failures of the work itself, a command gives up when a file it is
given cannot be read, or when it is asked to make something that it has no name
for.
-/
import Montage.Failure
import Montage.Host
import Montage.Json.Codec

namespace Montage.CommandLine

set_option autoImplicit false

/-- The kinds of files that commands read. -/
inductive Document where
  | settings
  | job
  deriving DecidableEq, Repr

/-- What a kind of file is called. -/
def Document.name : Document → String
  | settings => "animation settings"
  | job => "timeline job"

/-- A reason to give up. -/
inductive Fault where
  | cannotOpen (document : Document) (path : String)
  | cannotParse (document : Document)
  /-- A command for a scene without an identifier. -/
  | sceneUnnamed
  /-- A run without an output. -/
  | outputUnnamed
  | failure (f : Failure)
  deriving DecidableEq, Repr

/-- The wording of a fault. -/
def Fault.message : Fault → String
  | cannotOpen document path => "open " ++ document.name ++ " '" ++ path ++ "'"
  | cannotParse document => "parse " ++ document.name ++ " JSON"
  | sceneUnnamed => "--scene-id is required to build the scene command"
  | outputUnnamed => "--out is required with --run"
  | failure f => f.message

variable {m : Type → Type} [Monad m] [Host m]

/-- Work that may give up. -/
abbrev Attempt (m : Type → Type) (α : Type) : Type := ExceptT Fault m α

/-- A failure of the work is a reason to give up. -/
def attempt {α : Type} (work : ExceptT Failure m α) : Attempt m α :=
  ExceptT.adapt Fault.failure work

/-- Go on with a result, or give up if it failed. -/
def accept {α : Type} (result : Except Failure α) : Attempt m α :=
  attempt (ExceptT.mk (pure result))

def print (line : String) : Attempt m Unit := ExceptT.lift (Host.print line)

/-- Say that an output was written. -/
def announce (output : String) : Attempt m Unit :=
  ExceptT.lift (Host.complain ("wrote " ++ output))

/-- What a file holds. -/
def readDocument {α : Type} (document : Document) (read : Json.Value → Option α)
    (path : String) : Attempt m α := do
  match ← ExceptT.lift (Host.read path) with
  | .missing => throw (.cannotOpen document path)
  | .unreadable => throw (.cannotParse document)
  | .text text =>
      match Json.Codec.pretty.read? read text with
      | some a => return a
      | none => throw (.cannotParse document)

end Montage.CommandLine
