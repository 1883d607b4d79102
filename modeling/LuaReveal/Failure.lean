import LuaReveal.Storage.Basic
import LuaReveal.Text.Utf8

/-!
# LuaReveal.Failure

Why a run on a file gives no result.
-/

namespace LuaReveal

/-- Why a run on a file gives no result. -/
inductive Failure where
  /-- The input is no file. -/
  | inputMissing (input : Path)
  /-- A file cannot be read or written. -/
  | storage (path : Path) (reason : StorageError)
  /-- The bytes of the input are no text. -/
  | notText (input : Path) (fault : Text.Utf8.Fault)
  deriving DecidableEq

/-- The wording of a failure. -/
def Failure.message : Failure → Text
  | inputMissing input => "input file '".toList ++ input ++ "' not found".toList
  | storage path reason => "i/o error on '".toList ++ path ++ "': ".toList ++ reason.message
  | notText input fault =>
    "invalid input: '".toList ++ input ++ "' is not valid UTF-8: ".toList ++ fault.message

end LuaReveal
