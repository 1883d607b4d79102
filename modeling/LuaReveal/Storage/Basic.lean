import LuaReveal.Path
import LuaReveal.Text.Decimal

/-!
# LuaReveal.Storage.Basic

What a run asks of the place where files are kept.
-/

namespace LuaReveal

/-- Why a file cannot be read or written. -/
inductive StorageError where
  /-- Nothing has the name. -/
  | missing
  /-- A directory has the name. -/
  | isDirectory
  /-- A part of the path before the last is a file. -/
  | notDirectory
  /-- The path or a name in it has too many bytes. -/
  | nameTooLong
  /-- The path has the character of code zero in it. -/
  | zeroCharacter
  /-- Any other reason, with its wording and its number. -/
  | other (text : Text) (number : Nat)
  deriving DecidableEq

/-- The wording of a reason. -/
def StorageError.message : StorageError → Text
  | missing => "No such file or directory (os error 2)".toList
  | isDirectory => "Is a directory (os error 21)".toList
  | notDirectory => "Not a directory (os error 20)".toList
  | nameTooLong => "File name too long (os error 36)".toList
  | zeroCharacter => "file name contained an unexpected NUL byte".toList
  | other text number => text ++ " (os error ".toList ++ Text.ofNat number ++ [')']

/-- The files that the actions of `m` can reach. -/
class Storage (m : Type → Type) where
  /-- The path leads to a file. -/
  isFile : Path → m Bool
  /-- The bytes of a file. -/
  read : Path → m (Except StorageError (List UInt8))
  /-- Gives a file its bytes; the file need not exist before. -/
  write : Path → List UInt8 → m (Except StorageError Unit)
  /-- The time at which a file was last written. -/
  writtenAt : Path → m Text

end LuaReveal
