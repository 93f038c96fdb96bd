/-!
Files in a tree of directories. A path is walked name by name, from the root if
it starts with a slash and from the working directory otherwise, and the first
step that cannot be made says why the file cannot be read.
-/

namespace Clausal

namespace Files

/-- Why a file cannot be read. -/
inductive Fault where
  | missing
  | denied
  | notDirectory
  | isDirectory
  | nameTooLong
  | invalidText
  | other (reason : String)
  deriving DecidableEq

def Fault.message : Fault → String
  | .missing => "No such file or directory (os error 2)"
  | .denied => "Permission denied (os error 13)"
  | .notDirectory => "Not a directory (os error 20)"
  | .isDirectory => "Is a directory (os error 21)"
  | .nameTooLong => "File name too long (os error 36)"
  | .invalidText => "stream did not contain valid UTF-8"
  | .other reason => reason

inductive Entry where
  | file (content : String)
  | directory (entries : List (String × Entry))

/-- An entry with the directories above it, nearest first. -/
structure Place where
  entry : Entry
  above : List Entry

/-- The greatest count of bytes in a name. -/
def nameLimit : Nat := 255

/-- The least count of bytes that is too large for a path. -/
def pathLimit : Nat := 4096

namespace Place

/-- The directory above; the root is above itself. -/
def leave (place : Place) : Place :=
  match place.above with
  | [] => place
  | parent :: above => ⟨parent, above⟩

/-- Goes from a directory to the entry of a name. No name at all stands for the
directory itself, as one dot does, and two dots for the one above. -/
def enter (place : Place) (name : String) : Except Fault Place :=
  match place.entry with
  | .file _ => .error .notDirectory
  | .directory entries =>
      if name = "" ∨ name = "." then .ok place
      else if name = ".." then .ok place.leave
      else if nameLimit < name.utf8ByteSize then .error .nameTooLong
      else
        match entries.lookup name with
        | none => .error .missing
        | some entry => .ok ⟨entry, place.entry :: place.above⟩

end Place

end Files

structure Files where
  root : Files.Entry
  /-- The names that lead from the root to the working directory. -/
  working : List String

namespace Files

/-- The names to walk for a path. -/
def route (files : Files) (path : String) : List String :=
  if path.startsWith "/" then path.splitOn "/" else files.working ++ path.splitOn "/"

def read (files : Files) (path : String) : Except Fault String :=
  if path = "" then .error .missing
  else if pathLimit ≤ path.utf8ByteSize then .error .nameTooLong
  else
    match (files.route path).foldlM Place.enter ⟨files.root, []⟩ with
    | .error fault => .error fault
    | .ok ⟨.file content, _⟩ => .ok content
    | .ok ⟨.directory _, _⟩ => .error .isDirectory

end Files

end Clausal
