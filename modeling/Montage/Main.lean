/-
# Montage.Main -- the program on a real machine

The operations that programs ask for, done by the machine at hand.  It offers
files and text streams and no tools: commands are planned and printed here, and
whoever wants them run gives the printed lines to a shell.
-/
import Montage.CommandLine

namespace Montage.Machine

set_option autoImplicit false

/-- Whether something succeeds. -/
def succeeds (action : IO Unit) : IO Bool := do
  try
    action
    return true
  catch _ => return false

/-- What can be read from an open file. -/
def readAll (handle : IO.FS.Handle) : IO Reading := do
  try
    return .text (← handle.readToEnd)
  catch _ => return .unreadable

/-- The text of a file.  What cannot be opened is missing. -/
def read (path : String) : IO Reading := do
  try
    readAll (← IO.FS.Handle.mk path .read)
  catch _ => return .missing

/-- Whether a path names a file. -/
def isFile (path : String) : IO Bool := do
  try
    let found ← IO.FS.realPath path
    return (← found.metadata).type == .file
  catch _ => return false

/-- Whether a path names anything. -/
def isThere (path : String) : IO Bool := do
  try
    let found ← IO.FS.realPath path
    found.pathExists
  catch _ => return false

/-- The machine at hand. -/
instance : Host IO where
  read := read
  isFile := isFile
  isThere := isThere
  makeDirectory path := succeeds (IO.FS.createDirAll path)
  write path text := succeeds (IO.FS.writeFile path text)
  call _ _ := return none
  print := IO.println
  complain := IO.eprintln

end Montage.Machine

/-- Run the program on its arguments. -/
def main (args : List String) : IO UInt32 := do
  let status ← (Montage.CommandLine.run args : IO Nat)
  return status.toUInt32
