import ShardFleet.Table
import ShardFleet.Text.Utf8

/-!
# A rehearsed directory

A directory in memory, in its place among the directories of a machine. Only files are kept, each by
the names that lead to it from the top of the machine; the directories are a few usual ones and those
that the names of files lead through. A path is followed name by name, and what cannot be done has the
wording of an operating system.
-/

namespace ShardFleet.Rehearsal

/-- The files of a machine, by the names that lead there. -/
abbrev Directory := Table (List String) Bytes

/-- Why a file cannot be read or written. -/
inductive Obstacle where
  | missing
  | notDirectory
  | isDirectory
  | longName
  | zeroInName
deriving DecidableEq, Repr

/-- The wording of an obstacle. -/
def Obstacle.reason : Obstacle → String
  | missing => "No such file or directory (os error 2)"
  | notDirectory => "Not a directory (os error 20)"
  | isDirectory => "Is a directory (os error 21)"
  | longName => "File name too long (os error 36)"
  | zeroInName => "file name contained an unexpected NUL byte"

/-- What a path leads to. -/
inductive Place where
  | file (names : List String) (content : Bytes)
  | directory (names : List String)
  /-- Nothing yet, in a directory that is there. -/
  | free (names : List String)
deriving DecidableEq, Repr

namespace Directory

/-- The names that lead to the directory from which paths are followed. -/
def workplace : List String := ["tmp", "rehearsal"]

/-- The directories that are there without any files. -/
def usual : List (List String) :=
  [[], workplace] ++
    ["bin", "etc", "home", "lib", "opt", "proc", "root", "sys", "tmp", "usr", "var"].map ([·])

/-- Whether the names lead to a directory. -/
def hasDirectory (d : Directory) (names : List String) : Bool :=
  usual.contains names || d.keys.any fun file => names.isPrefixOf file && names ≠ file

/-- The place that the names lead to. -/
def placeOf (d : Directory) (names : List String) : Place :=
  match d.find? names with
  | some b => .file names b
  | none => if d.hasDirectory names then .directory names else .free names

/-- The longest name that a file can have, in bytes. -/
def longestName : Nat := 255

/-- The longest path that can be followed, in bytes. -/
def longestPath : Nat := 4095

/-- Goes one name further. What lies above the top is the top itself. -/
def step (d : Directory) (name : String) : Place → Except Obstacle Place
  | .free _ => .error .missing
  | .file .. => .error .notDirectory
  | .directory here =>
    if name = "" || name = "." then .ok (.directory here)
    else if name = ".." then .ok (.directory here.dropLast)
    else if longestName < (utf8 name).length then .error .longName
    else .ok (d.placeOf (here ++ [name]))

/-- The place that the names of a path lead to. -/
def followNames (d : Directory) (path : String) (names : List String) : Except Obstacle Place :=
  if path.contains (Char.ofNat 0) then .error .zeroInName
  else if path = "" then .error .missing
  else if longestPath < (utf8 path).length then .error .longName
  else
    let start := if path.startsWith "/" then [] else workplace
    names.foldlM (fun p name => d.step name p) (.directory start)

/-- The place that a path leads to. -/
def follow (d : Directory) (path : String) : Except Obstacle Place :=
  d.followNames path (path.splitOn "/")

/-- The bytes of a file, or why it cannot be read. -/
def read (d : Directory) (path : String) : Except Obstacle Bytes :=
  match d.follow path with
  | .error o => .error o
  | .ok (.file _ b) => .ok b
  | .ok (.directory _) => .error .isDirectory
  | .ok (.free _) => .error .missing

/-- The names of a path to which a file is to be written. No file can have a name with a slash behind
it: such a name is not looked for, and the path leads to the directory before it. -/
def namesToWrite (path : String) : List String :=
  let names := path.splitOn "/"
  if path.endsWith "/" then
    match names.reverse.dropWhile (·.isEmpty) with
    | [] => []
    | ".." :: parents => parents.reverse ++ [".."]
    | _ :: parents => parents.reverse ++ ["."]
  else names

/-- The directory with a file written anew, or why it cannot be written. -/
def write (d : Directory) (path : String) (content : Bytes) : Except Obstacle Directory :=
  match d.followNames path (namesToWrite path) with
  | .error o => .error o
  | .ok (.directory _) => .error .isDirectory
  | .ok (.file names _) | .ok (.free names) => .ok (d.insert names content)

/-- The names of the file that is always there, and holds nothing. -/
def nowhere : List String := ["dev", "null"]

/-- The directory with some files, of which each path leads to one. -/
def ofFiles (files : List (String × Bytes)) : Directory :=
  .ofList ((nowhere, []) :: files.map fun (path, b) =>
    (workplace ++ (path.splitOn "/").filter fun n => n ≠ "" && n ≠ ".", b))

end Directory

end ShardFleet.Rehearsal
