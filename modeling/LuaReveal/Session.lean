import LuaReveal.Commentary
import LuaReveal.Layout.Reindent
import LuaReveal.Naming.Renaming
import LuaReveal.Settings
import LuaReveal.StringTable.Declaration
import LuaReveal.StringTable.Reference

/-!
# LuaReveal.Session

What the passes over a source text keep and share: the string table, the aliases
and the number of references that were inlined. The passes are, in order:
inlining, decoding, renaming, indenting, and adding comments.
-/

namespace LuaReveal

open StringTable (Inlining)
open Naming (AliasMap Renaming)

/-- What the passes share. -/
structure Session where
  table : StringTable
  aliases : AliasMap
  inlined : Nat
  deriving DecidableEq

/-- The texts between the passes, and the session after them. -/
structure Passes where
  inlining : Inlining
  decoded : Text
  /-- Missing if nothing is to be renamed. -/
  renamed : Option Renaming
  indented : Text
  code : Text
  /-- Comments were to be added. -/
  comments : Bool
  session : Session
  deriving DecidableEq

namespace Session

/-- Nothing was read yet. -/
def empty : Session := ⟨.empty, .empty, 0⟩

/-- The session with the string table of a source text. -/
def analyze (s : Session) (policy : Escape.Policy) (source : Text) : Session :=
  { s with table := .ofSource policy source }

/-- The name that the string table has once its letter is renamed. -/
def tableName? (s : Session) : Option Text :=
  s.table.name.map fun name =>
    match name with
    | [letter] => (s.aliases.get? letter).getD name
    | _ => name

/-- The passes over a source text. -/
def reveal (s : Session) (settings : Settings) (source : Text) : Passes :=
  let inlining := s.table.inline source
  let decoded := Literal.decodeAll settings.policy inlining.code
  let renamed := if settings.renames then some (Naming.rename s.aliases decoded) else none
  let indented :=
    Layout.reindent settings.indentUnit ((renamed.map Renaming.code).getD decoded)
  let after : Session :=
    { s with
      aliases := (renamed.map Renaming.aliases).getD s.aliases
      inlined := inlining.count }
  { inlining, decoded, renamed, indented
    code := if settings.comments then Commentary.annotate after.tableName? indented else indented
    comments := settings.comments
    session := after }

end Session

namespace Passes

/-- The text that is indented. -/
def renamedText (p : Passes) : Text :=
  (p.renamed.map Renaming.code).getD p.decoded

/-- The passes over a source text of which nothing is known. -/
def ofSource (settings : Settings) (source : Text) : Passes :=
  (Session.empty.analyze settings.policy source).reveal settings source

end Passes

end LuaReveal
