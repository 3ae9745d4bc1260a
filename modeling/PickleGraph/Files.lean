import PickleGraph.Failure

/-!
# Files

Files are read by their paths. A path names the directories that lead to a file
and then the file, and the files beside it have the same path but for the last
name.
-/

namespace PickleGraph

/-- What reading the file at a path gives. -/
abbrev Files := Text → Except PathFault Bytes

namespace Files

def separator : CodePoint := CodePoint.ofChar '/'

/-- Refuses paths that name no place: ones with a null character or with
characters that have no encoding. -/
def checkPath (path : Text) : Except Refusal Unit :=
  if path.any fun point =>
      point.isSurrogate && !(0xDC80 ≤ point.val && point.val ≤ 0xDCFF) then
    .error .unencodable
  else if path.any (·.val == 0) then
    .error .badValue
  else
    .ok ()

/-! ## Neighbours -/

/-- The path of the directory that a path is in; empty where it names none. -/
def directoryOf (path : Text) : Text :=
  let head := (path.reverse.dropWhile (· ≠ separator)).reverse
  if head.all (· == separator) then head
  else (head.reverse.dropWhile (· == separator)).reverse

def join (directory name : Text) : Text :=
  match directory.getLast? with
  | none => name
  | some last =>
      if last = separator then directory ++ name
      else directory ++ separator :: name

def sibling (path name : Text) : Text :=
  join (directoryOf path) name

end Files

end PickleGraph
