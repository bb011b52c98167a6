/-!
# Paths

The segments of a path, its components, and the name of a file without its extension. A slash ends a
segment, and there are no empty ones; the components are the segments that are not a single point.

## Main definitions

* `Path.segments`, `Path.components`: the parts of a path
* `Path.stem?`, `Path.moduleName`: the name of a file without its extension
-/

namespace TensorEngine.Text.Path

/-- The stretches between slashes. -/
def stretches : List Char → List (List Char)
  | [] => [[]]
  | '/' :: rest => [] :: stretches rest
  | c :: rest =>
    match stretches rest with
    | [] => [[c]]
    | stretch :: others => (c :: stretch) :: others

/-- The segments of a path. -/
def segments (path : String) : List String :=
  ((stretches path.toList).map String.ofList).filter (· ≠ "")

/-- The components of a path. -/
def components (path : String) : List String :=
  (segments path).filter (· ≠ ".")

/-- The path starts at the root. -/
def isAbsolute (path : String) : Bool :=
  path.toList.head? = some '/'

/-- The last segment is followed by a slash. -/
def endsInSlash (path : String) : Bool :=
  path.toList.getLast? = some '/'

/-- The name of the file at the end of a path. -/
def fileName? (path : String) : Option String :=
  match (components path).getLast? with
  | some name => if name = ".." then none else some name
  | none => none

/-- A name before its last point; a point at the start does not count. -/
def beforeExtension (name : List Char) : List Char :=
  match (name.reverse.dropWhile (· != '.')).tail.reverse with
  | [] => name
  | stem => stem

/-- The name of a file without its extension. -/
def stem? (path : String) : Option String :=
  (fileName? path).map fun name => String.ofList (beforeExtension name.toList)

/-- The module name of an engine file. -/
def moduleName (path : String) : String :=
  (stem? path).getD "engine"

end TensorEngine.Text.Path
