import SinkFlow.Text.Cut

/-! Files that are held in memory, and the paths that lead to them. -/

namespace SinkFlow

/-- Files with their contents. A file has the names of the directories around it and its own name. -/
structure FileTree where
  files : List (List String × String)

namespace FileTree

/-- The names in a path, between slashes. -/
def names (path : String) : List String := (Text.split '/' path.toList).map String.ofList

/-- Whether a place is a directory: the root, or something with a file below it. -/
def isDirectory (t : FileTree) (place : List String) : Bool :=
  place.isEmpty || t.files.any fun f => place.isPrefixOf f.1 && place != f.1

/-- Follows names from a place. What is not a directory has nothing below it; an empty name and a dot stay in a
directory, and two dots lead to the one around it. -/
def follow (t : FileTree) (place : List String) : List String → Option (List String)
  | [] => some place
  | name :: rest =>
    if !t.isDirectory place then none
    else if name = "" ∨ name = "." then follow t place rest
    else if name = ".." then follow t place.dropLast rest
    else follow t (place ++ [name]) rest

/-- The content of the file that a path from the root leads to. -/
def read? (t : FileTree) (path : String) : Option String :=
  match names path with
  | "" :: rest => (t.follow [] rest).bind fun place => t.files.lookup place
  | _ => none

end FileTree

end SinkFlow
