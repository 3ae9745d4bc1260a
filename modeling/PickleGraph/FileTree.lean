import PickleGraph.Files

/-!
# Trees of files

A tree holds files and directories under paths relative to its root. Paths are
resolved component by component: everything before the last component must be a
directory.
-/

namespace PickleGraph

/-- Files with their contents, and directories that may be empty. -/
structure FileTree where
  files : List (List Text × Bytes)
  directories : List (List Text)

namespace FileTree

open Files (separator)

inductive Node
  | file (content : Bytes)
  | directory
  deriving DecidableEq, Repr

def components (path : Text) : List Text :=
  path.splitOn separator

def parentName : Text := Text.ofString ".."

/-- Components that stay where they are. -/
def isStill (component : Text) : Bool :=
  component.isEmpty || component == Text.ofString "."

/-- The tree of named contents, where a name that ends in a separator is a
directory. -/
def ofNamed (entries : List (Text × Bytes)) : FileTree :=
  let split := entries.map fun (name, content) =>
    (name.getLast? == some separator,
      (components name).filter (!isStill ·), content)
  { files := (split.filter (!·.1)).map (·.2)
    directories := (split.filter (·.1)).map (·.2.1) }

/-- What is at a place. Everything above a file or a directory is a
directory. -/
def node? (tree : FileTree) (place : List Text) : Option Node :=
  match tree.files.lookup place with
  | some content => some (.file content)
  | none =>
      if place.isEmpty ||
          tree.directories.any (place.isPrefixOf ·) ||
          tree.files.any (fun entry => place.isPrefixOf entry.1) then
        some .directory
      else
        none

/-! ## Paths -/

def maxNameSize : Nat := 255

def maxPathSize : Nat := 4095

/-- The place that components lead to, starting at a directory. What is outside
the tree is not there, except for the directories above it. -/
def walk (tree : FileTree) (place : List Text) :
    List Text → Except PathFault (Option (List Text))
  | [] => .ok (some place)
  | component :: rest =>
      match tree.node? place with
      | none => .error .missing
      | some (.file _) => .error .notDirectory
      | some .directory =>
          if isStill component then
            tree.walk place rest
          else if component = parentName then
            if place.isEmpty then
              if rest.all fun part => isStill part || part == parentName then
                .ok none
              else
                .error .missing
            else
              tree.walk place.dropLast rest
          else if maxNameSize < (Utf8.encodeGeneralized component).length then
            .error .nameTooLong
          else
            tree.walk (place ++ [component]) rest

def read (tree : FileTree) : Files := fun path =>
  if path.isEmpty then
    .error .missing
  else if maxPathSize < (Utf8.encodeGeneralized path).length then
    .error .nameTooLong
  else if path.head? = some separator then
    if path.all (· == separator) then .error .isDirectory
    else .error .missing
  else
    match tree.walk [] (components path) with
    | .error fault => .error fault
    | .ok none => .error .isDirectory
    | .ok (some place) =>
        match tree.node? place with
        | some (.file content) => .ok content
        | some .directory => .error .isDirectory
        | none => .error .missing

end FileTree

end PickleGraph
