import DeltaGraph.Error

/-!
# Locations of files

A path names a file from a directory that has files but no directories in it.
Empty parts and single dots of a path lead nowhere, double dots lead to the
directory above, and only the last part can be the name of a file.
-/

namespace DeltaGraph

/-- A file by its name and by the number of directories to go up to it. -/
structure FileLocation where
  ascent : Nat
  name : String
  deriving DecidableEq

namespace FileLocation

/-- The parts of a path between its slashes. -/
def parts : List Char → List (List Char)
  | [] => [[]]
  | char :: rest =>
      match parts rest with
      | [] => [[]]
      | first :: others =>
          if char = '/' then [] :: first :: others
            else (char :: first) :: others

/-- Whether a part of a path leads to a directory. -/
def isDirectory (part : List Char) : Bool :=
  part.isEmpty || part == ['.'] || part == ['.', '.']

/-- The file that a path names.  A slash at the end asks for a directory. -/
def ofPath (path : String) : Except FileFault FileLocation :=
  let parts := parts path.toList
  let named := parts.reverse.dropWhile List.isEmpty
  match named with
  | [] => .error .isDirectory
  | last :: above =>
      if above.any (!isDirectory ·) then .error .notFound
      else if isDirectory last || named.length < parts.length then
        .error .isDirectory
      else .ok ⟨above.count ['.', '.'], String.ofList last⟩

/-- The shortest path to the file. -/
def path (location : FileLocation) : String :=
  String.join (List.replicate location.ascent "../") ++ location.name

end FileLocation

end DeltaGraph
