/-
# Montage.Host -- what a program asks of the machine it runs on

A program of this library reads and writes files, calls tools, and prints.  It
does so through the operations named here, in any monad that has them.  Each one
answers with a value when it does not succeed, so what that means is decided by
the one who asked.
-/
import Montage.Failure
import Montage.Path

namespace Montage

set_option autoImplicit false

/-- What comes of reading a file. -/
inductive Reading where
  /-- Nothing can be opened there. -/
  | missing
  /-- Something is there, but it has no text, as a directory. -/
  | unreadable
  | text (s : String)
  deriving DecidableEq, Repr

/-- What comes of a tool that ran. -/
structure Exit where
  /-- Zero for success. -/
  status : Nat
  /-- What it printed. -/
  output : String
  /-- What it complained of. -/
  complaint : String
  deriving DecidableEq, Repr

/-- A machine that programs run on. -/
class Host (m : Type → Type) where
  /-- The text of a file. -/
  read : String → m Reading
  /-- Whether a path names a file. -/
  isFile : String → m Bool
  /-- Whether a path names anything. -/
  isThere : String → m Bool
  /-- Make a directory and all that lead to it; whether it is there now. -/
  makeDirectory : String → m Bool
  /-- Write a text to a path; whether it was written. -/
  write : String → String → m Bool
  /-- Run a tool with arguments; none if there is no such tool. -/
  call : String → List String → m (Option Exit)
  /-- Print a line. -/
  print : String → m Unit
  /-- Print a line where complaints go. -/
  complain : String → m Unit

namespace Host

variable {m : Type → Type} [Monad m] [Host m]

/-- A computation that can fail runs on the same machine. -/
instance : Host (ExceptT Failure m) where
  read path := ExceptT.lift (read path)
  isFile path := ExceptT.lift (isFile path)
  isThere path := ExceptT.lift (isThere path)
  makeDirectory path := ExceptT.lift (makeDirectory path)
  write path text := ExceptT.lift (write path text)
  call tool args := ExceptT.lift (call tool args)
  print line := ExceptT.lift (print line)
  complain line := ExceptT.lift (complain line)

/-- Whether a tool can be used: it succeeds when asked for its version. -/
def hasTool (tool : String) : m Bool := do
  match ← call tool ["-version"] with
  | some exit => return exit.status = 0
  | none => return false

/-- Make the directory that a path lies in, where it names one. -/
def makeParent (path : String) : ExceptT Failure m Unit := do
  match (Path.parent? path).filter (· ≠ "") with
  | none => return
  | some directory =>
      unless ← makeDirectory directory do throw (.cannotCreateDirectory directory)

end Host

end Montage
