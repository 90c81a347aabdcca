/-
# Montage.CommandLine -- the program

A command line is read, what it asks for is done, and a status is left: zero for
success, one when a command gives up, two when the command line does not fit.
-/
import Montage.CommandLine.Story
import Montage.CommandLine.Timeline

namespace Montage.CommandLine

set_option autoImplicit false

/-- The name and the version of the program. -/
def version : String := "reelgraph 0.1.0"

/-- What is said about a command line that does not fit. -/
def usage : String :=
  "usage: scene, timeline or merge, and the options of each; what was given does not fit"

variable {m : Type → Type} [Monad m] [Host m]

/-- Do what was asked for. -/
def Request.run : Request → Attempt m Unit
  | version => print CommandLine.version
  | scene r => r.run
  | timeline r => r.run
  | story r => r.run

/-- Run the program on its arguments, and leave a status. -/
def run (args : List String) : m Nat := do
  match Request.ofArguments? args with
  | none =>
      Host.complain usage
      return 2
  | some request =>
      match ← (Request.run request).run with
      | .ok () => return 0
      | .error fault =>
          Host.complain ("Error: " ++ fault.message)
          return 1

end Montage.CommandLine
