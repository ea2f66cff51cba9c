import MotionRace.FileStore.Location
import MotionRace.Lines

/-!
# Files in memory

The files of a directory as a value, and the ways a file can be read, made and added to. A path is
followed name by name, and every name but the last has to lead to a directory. Beside the files
stand a few devices, which keep nothing.
-/

namespace MotionRace

/-- Why a file could not be written. -/
inductive WriteFault where
  /-- It could not be opened or made. -/
  | unopened
  /-- It was opened and took nothing. -/
  | unwritten
  deriving Repr, BEq, DecidableEq

/-- What can be opened like a file and keeps nothing. -/
inductive Device where
  /-- Takes everything and is empty. -/
  | null
  /-- Takes nothing. -/
  | full
  /-- Takes everything and never ends. -/
  | zero
  /-- What a program is told, which is nothing. -/
  | input
  /-- What a program prints. -/
  | output
  /-- What a program complains of. -/
  | errors
  deriving Repr, BEq, DecidableEq

/-- The devices and where they are. -/
def Device.locations : List (Location × Device) :=
  [(["dev", "null"], null), (["dev", "full"], full), (["dev", "zero"], zero),
    (["dev", "stdin"], input), (["dev", "stdout"], output), (["dev", "stderr"], errors),
    (["dev", "fd", "0"], input), (["dev", "fd", "1"], output), (["dev", "fd", "2"], errors)].map
    fun (names, device) => (⟨.root, names⟩, device)

/-- A directory and its files. A file holds a text, or bytes that are none. -/
structure FileStore where
  /-- The path of the directory, without a slash at its end. -/
  home : String
  files : List (Location × Option String) := []
  deriving Repr, BEq, DecidableEq

/-- What a path leads to. -/
inductive Place where
  /-- A file, which is there or can be made. -/
  | file (location : Location)
  | device (device : Device)
  /-- Nothing that can be read or written. -/
  | nowhere
  deriving Repr, BEq, DecidableEq

namespace FileStore

/-! ## Paths -/

/-- The path of a file of the directory; an absolute path stands for itself. -/
def pathOf (s : FileStore) (name : String) : String :=
  if name.startsWith "/" then name else s.home ++ "/" ++ name

/-- Whether a location is a directory: an origin, what is above one, and what something is in. -/
def isDirectory (s : FileStore) (l : Location) : Bool :=
  l.isAncestor || s.files.any (·.1.isWithin l) || Device.locations.any (·.1.isWithin l)

/-- Take the next name of a path. Only a directory has names in it, its own among them. -/
def step (s : FileStore) (l : Location) (name : String) : Option Location :=
  if !s.isDirectory l || Location.longestName < name.utf8ByteSize then none
  else if name.isEmpty || name == "." then some l
  else if name == Location.up then some l.above
  else some (l.inside name)

/-- Where a path starts, and the rest of it. -/
def start (s : FileStore) (path : String) : Location × String :=
  if path == s.home || path.startsWith (s.home ++ "/") then
    (⟨.home, []⟩, (path.drop s.home.length).toString)
  else if path.startsWith "/" then (⟨.root, []⟩, path)
  else (⟨.working, []⟩, path)

/-- How many bytes a path can have. -/
def longestPath : Nat := 4095

/-- Follow a path. -/
def follow (s : FileStore) (path : String) : Option Location :=
  if !Path.isWhole path || longestPath < path.utf8ByteSize then none
  else
    let (l, rest) := s.start path
    (rest.splitOn "/").foldlM s.step l

/-- What a path leads to. A file can be made in every directory but the root and its own. -/
def place (s : FileStore) (path : String) : Place :=
  match s.follow path with
  | none => .nowhere
  | some l =>
    match Device.locations.lookup l with
    | some device => .device device
    | none => if s.isDirectory l || l.origin == .root then .nowhere else .file l

/-! ## Reading -/

/-- The text of a file. -/
def text? (s : FileStore) (path : String) : Option String :=
  match s.place path with
  | .file l => (s.files.lookup l).join
  | _ => none

/-- What can be read at a path. -/
def read? (s : FileStore) (path : String) : Option String :=
  match s.place path with
  | .device .null | .device .input => some ""
  | _ => s.text? path

/-- The lines of a file. -/
def lines? (s : FileStore) (path : String) : Option (List String) :=
  (s.text? path).map Lines.ofText

/-! ## Writing -/

/-- Put something in the place of what a file held. -/
def put (s : FileStore) (path : String) (content : Option String) : FileStore :=
  match s.place path with
  | .file l => { s with files := (l, content) :: s.files.filter (·.1 != l) }
  | _ => s

/-- Change what is at a path. A file that is made is empty before. -/
def write (s : FileStore) (path : String) (change : Option String → Option String) :
    Except WriteFault Unit × FileStore :=
  match s.place path with
  | .file l => (.ok (), s.put path (change ((s.files.lookup l).getD (some ""))))
  | .device .full => (.error .unwritten, s)
  | .device _ => (.ok (), s)
  | .nowhere => (.error .unopened, s)

/-- Add lines at the end of a file. What is no text stays none. -/
def append (s : FileStore) (path : String) (lines : List String) :
    Except WriteFault Unit × FileStore :=
  s.write path (·.map (· ++ Lines.text lines))

/-- Make a file with a text in it, in the place of what was there. -/
def create (s : FileStore) (path text : String) : Except WriteFault Unit × FileStore :=
  s.write path fun _ => some text

end FileStore

end MotionRace
