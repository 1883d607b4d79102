import LuaReveal.Storage.Basic
import LuaReveal.Text.Utf8

/-!
# LuaReveal.Storage.FileSystem

A file system as a value: what lies at each location below one directory. Paths
lead from that directory; a path from the root `/` leads nowhere.
-/

namespace LuaReveal

/-- The names on the way from the directory to a place below it. -/
abbrev Location := List Text

/-- What lies at a location. -/
inductive Node where
  | directory
  | file (bytes : List UInt8)
  deriving DecidableEq

/-- What lies at each location, and the time that written files are stamped with. -/
structure FileSystem where
  nodes : List (Location × Node)
  clock : Text

namespace FileSystem

/-- Nothing lies below the directory. -/
def empty (clock : Text) : FileSystem := ⟨[], clock⟩

/-- What lies at a location. -/
def lookup (fs : FileSystem) (loc : Location) : Option Node :=
  if loc = [] then some .directory else fs.nodes.lookup loc

/-- The file system with another node at a location. -/
def put (fs : FileSystem) (loc : Location) (node : Node) : FileSystem :=
  { fs with nodes := (loc, node) :: fs.nodes.filter fun entry => entry.1 != loc }

private theorem lookup_filter_ne (nodes : List (Location × Node)) {loc other : Location}
    (h : other ≠ loc) :
    (nodes.filter fun entry => entry.1 != loc).lookup other = nodes.lookup other := by
  induction nodes with
  | nil => rfl
  | cons entry nodes ih =>
    obtain ⟨place, node⟩ := entry
    by_cases hp : place = loc
    · have hb : (other == place) = false := by simpa [hp] using h
      simp [hp, List.lookup_cons, ih, show (other == loc) = false by simpa using h]
    · simp [hp, List.lookup_cons, ih]

/-- A node that is put somewhere lies there, and the rest stays. -/
theorem lookup_put (fs : FileSystem) {loc other : Location} (node : Node) (h : loc ≠ []) :
    (fs.put loc node).lookup other = if other = loc then some node else fs.lookup other := by
  unfold put lookup
  by_cases ho : other = loc
  · simp [ho, h]
  · have hb : (other == loc) = false := by simpa using ho
    simp [ho, List.lookup_cons, hb, lookup_filter_ne fs.nodes ho]

/-! ## Following paths -/

/-- The most bytes that a name may have. -/
def longestName : Nat := 255

/-- The most bytes that a path may have. -/
def longestPath : Nat := 4095

/-- The segments of a path, unless no path of its form leads anywhere. -/
def segments (path : Path) : Except StorageError (List Text) :=
  if '\x00' ∈ path then .error .zeroCharacter
  else if path = [] then .error .missing
  else if longestPath < Text.Utf8.byteCount path then .error .nameTooLong
  else if path.head? = some '/' then .error .missing
  else .ok (Path.segments path)

/-- The location that one segment of a path leads to. Above the directory there
is nothing, so `..` stays in it. -/
def enter (loc : Location) (segment : Text) : Location :=
  if segment = [] ∨ segment = ['.'] then loc
  else if segment = ['.', '.'] then loc.dropLast
  else loc ++ [segment]

/-- The location that the segments lead to from a location. All but the last
place on the way must be directories, and a name that is looked up in one must
not be too long. -/
def follow (fs : FileSystem) (loc : Location) : List Text → Except StorageError Location
  | [] => .ok loc
  | segment :: rest =>
    match fs.lookup loc with
    | none => .error .missing
    | some (.file _) => .error .notDirectory
    | some .directory =>
      if longestName < Text.Utf8.byteCount segment then .error .nameTooLong
      else fs.follow (enter loc segment) rest

/-- The location that a path leads to, whether or not something lies there. -/
def locate (fs : FileSystem) (path : Path) : Except StorageError Location := do
  fs.follow [] (← segments path)

/-- The segment names a place in the directory that the path leads to before it. -/
def isName (segment : Text) : Bool :=
  segment != [] && segment != ['.'] && segment != ['.', '.']

/-- The location of the file that is written at a path. A path that ends with a
separator can only be that of a directory, although nothing need lie there: once
the place before its last name is found to be a directory, that name is not
looked up. -/
def locateForWriting (fs : FileSystem) (path : Path) : Except StorageError Location := do
  let way ← segments path
  if way.getLast?.any isName then
    let loc ← fs.follow [] way
    if fs.lookup loc = some .directory then .error .isDirectory else .ok loc
  else
    let bare := (way.reverse.dropWhile (· == [])).reverse
    if bare.getLast?.any isName then
      let _ ← fs.follow [] (bare.dropLast ++ [['.']])
      .error .isDirectory
    else
      let loc ← fs.follow [] way
      match fs.lookup loc with
      | none => .error .missing
      | some (.file _) => .error .notDirectory
      | some .directory => .error .isDirectory

/-! ## Reading and writing -/

/-- The path leads to a file. -/
def isFile (fs : FileSystem) (path : Path) : Bool :=
  match fs.locate path with
  | .ok loc =>
    match fs.lookup loc with
    | some (.file _) => true
    | _ => false
  | .error _ => false

/-- The bytes of the file at a path. -/
def read (fs : FileSystem) (path : Path) : Except StorageError (List UInt8) := do
  let loc ← fs.locate path
  match fs.lookup loc with
  | some (.file bytes) => .ok bytes
  | some .directory => .error .isDirectory
  | none => .error .missing

/-- The file system with the bytes in the file at a path. -/
def write (fs : FileSystem) (path : Path) (bytes : List UInt8) :
    Except StorageError FileSystem := do
  let loc ← fs.locateForWriting path
  return fs.put loc (.file bytes)

/-- Runs on a file system as a value. A refused write leaves it as it was. -/
instance : Storage (StateM FileSystem) where
  isFile path := do return (← get).isFile path
  read path := do return (← get).read path
  write path bytes := do
    match (← get).write path bytes with
    | .ok fs =>
      set fs
      return .ok ()
    | .error e => return .error e
  writtenAt _ := do return (← get).clock

/-! ## Filling and listing -/

/-- The file system with a directory at a location, and with the directories on
the way to it. -/
def addDirectory (fs : FileSystem) (loc : Location) : FileSystem :=
  (List.range loc.length).foldl
    (fun fs n =>
      let above := loc.take (n + 1)
      if (fs.lookup above).isNone then fs.put above .directory else fs)
    fs

/-- The file system with a file at a location, and with the directories on the
way to it. -/
def addFile (fs : FileSystem) (loc : Location) (bytes : List UInt8) : FileSystem :=
  (fs.addDirectory loc.dropLast).put loc (.file bytes)

/-- The path of a location; that of a directory ends with a separator. -/
def display (loc : Location) (node : Node) : Path :=
  ['/'].intercalate loc ++ if node = .directory then ['/'] else []

/-- The paths of all nodes in rising order, each with its node. -/
def listing (fs : FileSystem) : List (Path × Node) :=
  (fs.nodes.map fun (loc, node) => (display loc node, node)).mergeSort fun a b => Text.atMost a.1 b.1

end FileSystem

end LuaReveal
