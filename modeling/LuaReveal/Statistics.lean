import LuaReveal.Session

/-!
# LuaReveal.Statistics

What a run counts, and the counts as a JSON object.
-/

namespace LuaReveal

/-- The counts of a run. -/
structure Statistics where
  stringsDecoded : Nat
  functionsFound : Nat
  linesProcessed : Nat
  escapesConverted : Nat
  identifiersRenamed : Nat
  referencesInlined : Nat
  deriving DecidableEq

namespace Statistics

/-- The counts after a session has turned `source` into `code`. -/
def collect (session : Session) (policy : Escape.Policy) (source code : Text)
    (functionsFound : Nat) : Statistics where
  stringsDecoded := session.table.size
  functionsFound := functionsFound
  linesProcessed := (Text.lines code).length
  escapesConverted := Escape.convertedCount policy source
  identifiersRenamed := session.aliases.size
  referencesInlined := session.inlined

/-- The counts under the names that they are written with. -/
def fields (s : Statistics) : List (Text × Nat) :=
  [("strings_decoded".toList, s.stringsDecoded), ("functions_found".toList, s.functionsFound),
   ("lines_processed".toList, s.linesProcessed), ("escapes_converted".toList, s.escapesConverted),
   ("identifiers_renamed".toList, s.identifiersRenamed),
   ("references_inlined".toList, s.referencesInlined)]

/-- A line for each count, with a comma after all but the last. -/
def fieldLines : List (Text × Nat) → List Text
  | [] => []
  | (name, count) :: rest =>
    (Literal.quote name ++ ": ".toList ++ Text.ofNat count
      ++ if rest.isEmpty then [] else [',']) :: fieldLines rest

/-- The counts as a JSON object, each on a line of its own. -/
def toJson (s : Statistics) : Text :=
  Text.joinLines
    (['\x7b'] :: (fieldLines s.fields).map ("  ".toList ++ ·) ++ [['\x7d']])

end Statistics

end LuaReveal
