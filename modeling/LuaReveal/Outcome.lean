import LuaReveal.Statistics

/-!
# LuaReveal.Outcome

What a run over a source text gives.
-/

namespace LuaReveal

/-- What a run gives. -/
structure Outcome where
  code : Text
  table : StringTable
  aliases : Naming.AliasMap
  functions : List Signature
  statistics : Statistics
  /-- Where the report was written, if it was. -/
  reportPath : Option Path
  deriving DecidableEq

namespace Outcome

/-- What the passes over a source text give; no report is written yet. -/
def ofPasses (policy : Escape.Policy) (source : Text) (p : Passes) : Outcome :=
  let functions := Signature.all p.code
  { code := p.code
    table := p.session.table
    aliases := p.session.aliases
    functions
    statistics := .collect p.session policy source p.code functions.length
    reportPath := none }

/-- What a run over a source text gives. -/
def ofSource (settings : Settings) (source : Text) : Outcome :=
  ofPasses settings.policy source (.ofSource settings source)

end Outcome

end LuaReveal
