import LuaReveal.Path

/-!
# LuaReveal.CommandLine.Item

The arguments of a command as items: options with a value, flags, and arguments
that stand by themselves. Options are written `--name value`, `--name=value`, or
with one letter as `-o value`, `-ovalue` or `-o=value`; flags of one letter can
share a dash. After `--` every argument stands by itself.
-/

namespace LuaReveal.CommandLine

/-! ## Options and flags -/

/-- An option that takes a value. -/
inductive Key where
  | output
  | suffix
  | report
  | escapePolicy
  | indentSize
  | statsJson
  deriving DecidableEq

/-- An option that takes none. -/
inductive Flag where
  | noReport
  | noRename
  | noComments
  | verbose
  | quiet
  | help
  | version
  deriving DecidableEq

/-- An option of either kind. -/
inductive Switch where
  | key (k : Key)
  | flag (f : Flag)
  deriving DecidableEq

/-- The options by their names after two dashes. -/
def longNames : List (Text × Switch) :=
  [("output".toList, .key .output), ("suffix".toList, .key .suffix),
   ("report".toList, .key .report), ("escape-policy".toList, .key .escapePolicy),
   ("indent-size".toList, .key .indentSize), ("stats-json".toList, .key .statsJson),
   ("no-report".toList, .flag .noReport), ("no-rename".toList, .flag .noRename),
   ("no-comments".toList, .flag .noComments), ("verbose".toList, .flag .verbose),
   ("quiet".toList, .flag .quiet), ("help".toList, .flag .help),
   ("version".toList, .flag .version)]

/-- The options by their letters after one dash. -/
def shortNames : List (Char × Switch) :=
  [('o', .key .output), ('v', .flag .verbose), ('q', .flag .quiet), ('h', .flag .help),
   ('V', .flag .version)]

/-! ## Items -/

/-- What an argument, or an argument with its value, says. -/
inductive Item where
  | value (k : Key) (text : Text)
  | flag (f : Flag)
  | positional (text : Text)
  deriving DecidableEq

/-- Why an argument cannot be read. -/
inductive ItemError where
  | unknown (argument : Text)
  | missingValue (argument : Text)
  | unexpectedValue (argument : Text)
  deriving DecidableEq

/-- The items up to the first argument that cannot be read. -/
structure Items where
  items : List Item
  error : Option ItemError

/-- The items after one more. -/
def Items.cons (i : Item) (rest : Items) : Items :=
  { rest with items := i :: rest.items }

/-- The argument is not read as a value: it starts with a dash and goes on. -/
def startsOption (argument : Text) : Bool :=
  argument.head? == some '-' && argument.length > 1

/-- What the letters after one dash say. -/
inductive Letters where
  /-- All letters are flags. -/
  | flags
  /-- The last letter takes the next argument as its value. -/
  | needsValue (k : Key)
  /-- A letter takes what follows it as its value. -/
  | hasValue (k : Key) (text : Text)
  /-- A letter has no meaning. -/
  | unknown

/-- The flags that letters say, up to a letter that is none, and how the letters
end. -/
def readLetters : Text → List Flag × Letters
  | [] => ([], .flags)
  | c :: s =>
    match shortNames.lookup c with
    | none => ([], .unknown)
    | some (.flag f) => let (fs, ending) := readLetters s; (f :: fs, ending)
    | some (.key k) =>
      match s with
      | [] => ([], .needsValue k)
      | '=' :: s => ([], .hasValue k s)
      | s => ([], .hasValue k s)

/-- A name after two dashes, and the value after the first `=`, if there is one. -/
def splitLong (s : Text) : Text × Option Text :=
  match s.dropWhile (· != '=') with
  | [] => (s, none)
  | _ :: value => (s.takeWhile (· != '='), some value)

/-- The items that the arguments say. -/
def readItems : List Text → Items
  | [] => ⟨[], none⟩
  | argument :: rest =>
    match argument with
    | ['-', '-'] => ⟨rest.map .positional, none⟩
    | '-' :: '-' :: s =>
      let (name, value?) := splitLong s
      match longNames.lookup name, value? with
      | none, _ => ⟨[], some (.unknown argument)⟩
      | some (.flag f), none => (readItems rest).cons (.flag f)
      | some (.flag _), some _ => ⟨[], some (.unexpectedValue argument)⟩
      | some (.key k), some value => (readItems rest).cons (.value k value)
      | some (.key k), none =>
        match rest with
        | [] => ⟨[], some (.missingValue argument)⟩
        | value :: rest =>
          if startsOption value then ⟨[], some (.missingValue argument)⟩
          else (readItems rest).cons (.value k value)
    | '-' :: c :: s =>
      let (flags, ending) := readLetters (c :: s)
      let before (items : Items) : Items := { items with items := flags.map .flag ++ items.items }
      match ending with
      | .flags => before (readItems rest)
      | .unknown => before ⟨[], some (.unknown argument)⟩
      | .hasValue k value => before ((readItems rest).cons (.value k value))
      | .needsValue k =>
        match rest with
        | [] => before ⟨[], some (.missingValue argument)⟩
        | value :: rest =>
          if startsOption value then before ⟨[], some (.missingValue argument)⟩
          else before ((readItems rest).cons (.value k value))
    | _ => (readItems rest).cons (.positional argument)

end LuaReveal.CommandLine
