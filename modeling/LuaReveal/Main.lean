import LuaReveal.Calendar
import LuaReveal.CommandLine.Program

/-!
# LuaReveal.Main

The program on the files of the machine: it hands its arguments and the files to
the library, prints what it is given, and ends with the exit code.
-/

namespace LuaReveal.Machine

/-- What the machine says against an action on a file. -/
def reason : IO.Error → StorageError
  | .noFileOrDirectory _ _ _ => .missing
  | .alreadyExists _ number text | .otherError number text | .resourceBusy number text
  | .resourceVanished number text | .unsupportedOperation number text
  | .hardwareFault number text | .unsatisfiedConstraints number text
  | .illegalOperation number text | .protocolError number text | .timeExpired number text
  | .interrupted _ number text | .invalidArgument _ number text
  | .permissionDenied _ number text | .resourceExhausted _ number text
  | .inappropriateType _ number text | .noSuchThing _ number text =>
    if number = 2 then .missing
    else if number = 20 then .notDirectory
    else if number = 21 then .isDirectory
    else if number = 36 then .nameTooLong
    else .other text.toList number.toNat
  | .unexpectedEof => .other "unexpected end of file".toList 0
  | .userError text => .other text.toList 0

/-- What the machine knows of the file at a path, if something lies there. -/
def metadata? (path : Path) : IO (Option IO.FS.Metadata) := do
  if path = [] ∨ '\x00' ∈ path then return none
  let place := (← IO.currentDir) / String.ofList path
  try
    return some (← place.metadata)
  catch _ => return none

/-- What an action on the file at a path gives, or why it cannot be done. -/
def attempt (path : Path) (action : IO α) : IO (Except StorageError α) := do
  if '\x00' ∈ path then return .error .zeroCharacter
  try
    return .ok (← action)
  catch e => return .error (reason e)

/-- The files of the machine. -/
instance : Storage IO where
  isFile path := do
    match ← metadata? path with
    | some { type := .file, .. } => return true
    | _ => return false
  read path := attempt path do
    return (← IO.FS.readBinFile (String.ofList path)).data.toList
  write path bytes := attempt path do
    IO.FS.writeBinFile (String.ofList path) ⟨bytes.toArray⟩
  writtenAt path := do
    match ← metadata? path with
    | some m => return Calendar.timestamp m.modified.sec.toNat
    | none => return Calendar.timestamp 0

end LuaReveal.Machine

/-- Runs the program with its arguments. -/
def main (arguments : List String) : IO UInt32 := do
  let ending : LuaReveal.CommandLine.Ending ←
    LuaReveal.CommandLine.runProgram (arguments.map String.toList)
  IO.print (String.ofList ending.output)
  IO.eprint (String.ofList ending.errors)
  return UInt32.ofNat ending.code
