import ProcessNets.Text.Quoted

/-!
# Files around a run

What a run can read, and why it cannot open a file. A directory that holds given files is a
surrounding of a run too: it answers for every path that leads to one of them or past them.
-/

namespace ProcessNets.Command

/-- Why a file cannot be opened. -/
inductive FileFault where
  | missing
  | directory
  /-- A file stands where the path needs a directory. -/
  | notDirectory
deriving DecidableEq, Repr

def FileFault.message (path : String) : FileFault → String
  | .missing => s!"File '{path}' not found"
  | .directory => "[Errno 21] Is a directory: " ++ Text.quoted path
  | .notDirectory => "[Errno 20] Not a directory: " ++ Text.quoted path

/-- The files that a run can read, and the directory that the input file is looked up in. -/
structure Surroundings where
  directory : String
  contents : String → Except FileFault String

/-- The place of a file in a directory. A point is the directory itself. -/
def placeIn (directory name : String) : String :=
  match name.toList with
  | '/' :: _ => name
  | ['.'] | ['.', '/'] => directory
  | '.' :: '/' :: rest => directory ++ "/" ++ String.ofList rest
  | _ => directory ++ "/" ++ name

/-! ### Directories of given files -/

/-- The files of a directory by their paths in it, with their contents. -/
abbrev Files := List (String × String)

namespace Files

/-- A path without the point that stands for the directory itself. -/
def plainPath (path : String) : String :=
  match path.toList with
  | ['.'] => ""
  | '.' :: '/' :: rest => String.ofList rest
  | _ => path

def contentAt (files : Files) (path : String) : Except FileFault String :=
  match files.lookup path with
  | some content => .ok content
  | none =>
    if files.any fun f => path.startsWith (f.1 ++ "/") then .error .notDirectory
    else if path.isEmpty || files.any fun f => f.1.startsWith (path ++ "/") then .error .directory
    else .error .missing

/-- Whether a file can be written at a plain path: its directory has to hold one of the files. -/
def writableAt (files : Files) (path : String) : Except FileFault Unit :=
  let parent := String.ofList (path.toList.reverse.dropWhile (· ≠ '/')).reverse
  match files.contentAt path with
  | .ok _ => .ok ()
  | .error .missing =>
    if parent.isEmpty then .ok ()
    else if parent = path then .error .directory
    else if files.any fun f => f.1.startsWith parent then .ok ()
    else .error .missing
  | .error fault => .error fault

def surroundings (files : Files) (directory : String) : Surroundings :=
  { directory, contents := fun path => files.contentAt (plainPath path) }

end Files

end ProcessNets.Command
