import LuaReveal.Keyword
import LuaReveal.Text.Decimal

/-!
# LuaReveal.Naming.Alias

Readable names for names of one letter: a name suggested by the usual role of
the letter, made different from the reserved words and from the aliases that are
taken.
-/

namespace LuaReveal.Naming

/-- The usual roles of letters. -/
def roles : List (Char × Text) :=
  [('J', "stringTable".toList), ('l', "local_var".toList), ('o', "object".toList),
   ('e', "element".toList), ('n', "number".toList), ('r', "result".toList),
   ('t', "table".toList), ('f', "function_ref".toList), ('a', "argument".toList),
   ('i', "index".toList), ('v', "value".toList), ('x', "x_pos".toList), ('y', "y_pos".toList),
   ('w', "width".toList), ('h', "height".toList), ('c', "color".toList), ('d', "data".toList),
   ('s', "string".toList), ('p', "position".toList), ('g', "game".toList), ('u', "user".toList),
   ('m', "mouse".toList), ('k', "key".toList)]

/-- The word itself, or with `_var` added if it is reserved. -/
def avoidReserved (word : Text) : Text :=
  if Keyword.isReserved word then word ++ "_var".toList else word

/-- The first choice of an alias for a letter: its usual role, or `var_` and the
letter. -/
def baseAlias (letter : Char) : Text :=
  avoidReserved ((roles.lookup letter).getD ("var_".toList ++ [letter]))

/-- The choice with a number added. -/
def numbered (base : Text) (n : Nat) : Text :=
  base ++ '_' :: Text.ofNat n

/-- The first free one among the base and the base numbered from two on. One of
the numbers from two to one more than the count of taken aliases is free if the
base is taken. -/
def firstFree (taken : List Text) (base : Text) : Text :=
  if base ∈ taken then
    match (List.range' 2 taken.length).find? fun n => numbered base n ∉ taken with
    | some n => numbered base n
    | none => base
  else
    base

/-- The alias of a letter where some aliases are taken. -/
def freshAlias (taken : List Text) (letter : Char) : Text :=
  firstFree taken (baseAlias letter)

end LuaReveal.Naming
