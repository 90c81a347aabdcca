/-
# Montage.Render -- running commands

A command is run after the directory of its output has been made, and not at all
if its output exists and must not be replaced.
-/
import Montage.Host
import Montage.Merge
import Montage.Text.Blank

namespace Montage

set_option autoImplicit false

variable {m : Type → Type} [Monad m] [Host m]

/-- Run a command and wait for it. -/
def Command.run (c : Command) : ExceptT Failure m Unit := do
  Host.makeParent c.output
  if !c.encoding.overwrite then
    if ← Host.isThere c.output then throw (.outputExists c.output)
  unless ← Host.hasTool Command.encoder do throw .encoderMissing
  let quiet := ["-hide_banner", "-loglevel", "error"]
  let some exit ← Host.call Command.encoder (quiet ++ c.args) | throw .encoderNotStarted
  if exit.status ≠ 0 then throw (.encoderFailed exit.status (trim exit.complaint))

def MergePlan.writeList (p : MergePlan) : ExceptT Failure m Unit := do
  Host.makeParent p.listPath
  unless ← Host.write p.listPath p.listText do throw (.cannotWriteList p.listPath)

end Montage
