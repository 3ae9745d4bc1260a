import Mathlib.Data.List.TakeWhile
import PickleGraph.FileTree
import PickleGraph.Proofs.Actions

/-!
# Places of files

A file system without links holds files and directories at places, which are
named from its root. Paths are followed component by component. A name without
separators leads from a directory to the directory itself, to the one above it,
or to what lies directly in it, and only there can it lead to a file.
-/

namespace PickleGraph

open Actions
open FileTree (Node components isStill parentName)
open Files (separator directoryOf join)

structure FileSystem where
  node? : List Text → Option Node
  /-- Where paths start that do not start at the root. -/
  current : List Text
  /-- Why a path is not opened, for reasons other than where it leads. -/
  fault? : Text → Option PathFault
  parent : ∀ place node, node? place = some node →
    node? place.dropLast = some .directory

namespace FileSystem

variable {system : FileSystem} {path name : Text} {content : Bytes}
  {directory place : List Text}

/-! ## Following paths -/

/-- The place that a component leads to. The root is above itself. -/
def enter (system : FileSystem) (place : List Text) (component : Text) :
    Except PathFault (List Text) :=
  match system.node? place with
  | none => .error .missing
  | some (.file _) => .error .notDirectory
  | some .directory =>
      if isStill component then .ok place
      else if component = parentName then .ok place.dropLast
      else .ok (place ++ [component])

def start (system : FileSystem) (path : Text) : List Text :=
  if path.head? = some separator then [] else system.current

def locate (system : FileSystem) (path : Text) :
    Except PathFault (List Text) :=
  (components path).foldlM system.enter (system.start path)

def read (system : FileSystem) : Files := fun path =>
  match system.fault? path with
  | some fault => .error fault
  | none => do
      if path.isEmpty then
        throw .missing
      let place ← system.locate path
      match system.node? place with
      | some (.file content) => return content
      | some .directory => throw .isDirectory
      | none => throw .missing

/-- The path leads to a file that lies directly in the directory. -/
def Holds (system : FileSystem) (directory : List Text) (path : Text) :
    Prop :=
  ∃ name content, system.locate path = .ok (directory ++ [name]) ∧
    system.node? (directory ++ [name]) = some (.file content)

/-- What is read is in a file. -/
theorem file_of_read (success : system.read path = .ok content) :
    ∃ place, system.locate path = .ok place ∧
      system.node? place = some (.file content) := by
  unfold read at success
  cases noFault : system.fault? path with
  | some fault =>
      rw [noFault] at success
      cases success
  | none =>
      rw [noFault] at success
      dsimp only at success
      split at success
      · cases success
      obtain ⟨place, located, success⟩ := except_bind_eq_ok_iff.mp success
      refine ⟨place, located, ?_⟩
      split at success
      · next found =>
          cases success
          exact found
      · cases success
      · cases success

/-! ## The last component -/

/-- An empty component makes no difference before another one. -/
theorem enter_empty (place : List Text) (component : Text) :
    (system.enter place [] >>= fun middle => system.enter middle component) =
      system.enter place component := by
  have still : isStill [] = true := rfl
  unfold enter
  rw [still]
  cases isThere : system.node? place with
  | none => rfl
  | some node =>
      cases node with
      | file octets => rfl
      | directory => simp only [bind, Except.bind, isThere, if_true]

/-- A last component that leads to a file names it in its directory. -/
theorem eq_append_of_enter (entered : system.enter directory name = .ok place)
    (isFile : system.node? place = some (.file content)) :
    place = directory ++ [name] := by
  unfold enter at entered
  split at entered
  · cases entered
  · cases entered
  · next isDirectory =>
      split at entered
      · cases entered
        rw [isDirectory] at isFile
        cases isFile
      · split at entered
        · cases entered
          rw [system.parent _ _ isDirectory] at isFile
          cases isFile
        · exact (Except.ok.inj entered).symm

theorem locate_of_components {before : List Text}
    (split : components path = before ++ [name]) :
    system.locate path =
      before.foldlM system.enter (system.start path) >>= fun middle =>
        system.enter middle name := by
  unfold locate
  rw [split, List.foldlM_append]
  simp only [List.foldlM_cons, List.foldlM_nil, bind_pure]

/-! ## Paths that are put together -/

theorem components_of_free (isFree : separator ∉ name) :
    components name = [name] :=
  List.splitOn_eq_singleton isFree

theorem components_append (first second : Text) :
    components (first ++ separator :: second) =
      components first ++ components second :=
  List.splitOn_append_cons_self _ _

section Names

variable (isFree : separator ∉ name)

include isFree

/-- The name of a file is a path that starts where the empty path leads. -/
theorem locate_name :
    system.locate name =
      system.locate [] >>= fun middle => system.enter middle name := by
  have notFirst : name.head? ≠ some separator :=
    fun first => isFree (List.mem_of_head? first)
  have startsThere : system.start name = system.start [] :=
    if_neg notFirst
  have alone : components name = [] ++ [name] := components_of_free isFree
  have empty : components [] = [] ++ [[]] := rfl
  rw [locate_of_components alone, locate_of_components empty, startsThere]
  exact (enter_empty _ _).symm

theorem locate_append (isPath : path ≠ []) :
    system.locate (path ++ separator :: name) =
      system.locate path >>= fun middle => system.enter middle name := by
  have sameStart :
      system.start (path ++ separator :: name) = system.start path := by
    cases path with
    | nil => exact absurd rfl isPath
    | cons point points => rfl
  have split : components (path ++ separator :: name) =
      components path ++ [name] := by
    rw [components_append, components_of_free isFree]
  rw [locate_of_components split, sameStart]
  rfl

/-- A separator at the end of a path makes no difference before a name. -/
theorem locate_separator :
    system.locate (path ++ separator :: name) =
      system.locate (path ++ [separator]) >>= fun middle =>
        system.enter middle name := by
  have sameStart : system.start (path ++ [separator]) =
      system.start (path ++ separator :: name) := by
    cases path <;> rfl
  have split : components (path ++ separator :: name) =
      components path ++ [name] := by
    rw [components_append, components_of_free isFree]
  have ended : components (path ++ [separator]) = components path ++ [[]] :=
    components_append path []
  rw [locate_of_components split, locate_of_components ended, sameStart,
    bind_assoc]
  exact except_bind_congr fun middle => (enter_empty middle name).symm

theorem locate_join :
    system.locate (join path name) =
      system.locate path >>= fun middle => system.enter middle name := by
  unfold join
  cases last : path.getLast? with
  | none =>
      rw [List.getLast?_eq_none_iff.mp last]
      exact locate_name isFree
  | some point =>
      obtain ⟨before, rfl⟩ := List.getLast?_eq_some_iff.mp last
      dsimp only
      split
      · next isSeparator =>
          rw [isSeparator, List.append_assoc]
          exact locate_separator isFree
      · exact locate_append isFree (by simp)

theorem locate_stripped {reversed : Text}
    (namesMore : reversed.all (· == separator) = false) :
    (system.locate reversed.reverse >>= fun middle =>
        system.enter middle name) =
      system.locate (reversed.dropWhile (· == separator)).reverse >>=
        fun middle => system.enter middle name := by
  induction reversed with
  | nil => cases namesMore
  | cons point rest inductionHypothesis =>
      rw [List.dropWhile_cons]
      split
      · next isSeparator =>
          have isSeparator := eq_of_beq isSeparator
          subst isSeparator
          have restMore : rest.all (· == separator) = false := by
            simpa using namesMore
          have isPath : rest.reverse ≠ [] := by
            rintro noRest
            rw [List.reverse_eq_nil_iff.mp noRest] at restMore
            cases restMore
          rw [List.reverse_cons, ← locate_separator isFree,
            locate_append isFree isPath]
          exact inductionHypothesis restMore
      · rfl

end Names

/-- The last component of a path is a name in the directory of the path. -/
theorem locate_directoryOf (system : FileSystem) (path : Text) :
    ∃ name, separator ∉ name ∧
      system.locate path =
        system.locate (directoryOf path) >>= fun middle =>
          system.enter middle name := by
  let last := path.reverse.takeWhile (· ≠ separator)
  have isFree : separator ∉ last.reverse := by
    intro isIn
    have passed := List.mem_takeWhile_imp (List.mem_reverse.mp isIn)
    simp at passed
  have whole : path =
      (path.reverse.dropWhile (· ≠ separator)).reverse ++ last.reverse := by
    rw [← List.reverse_append, List.takeWhile_append_dropWhile,
      List.reverse_reverse]
  refine ⟨last.reverse, isFree, ?_⟩
  unfold directoryOf
  cases dropped : path.reverse.dropWhile (· ≠ separator) with
  | nil =>
      rw [dropped] at whole
      rw [whole]
      exact locate_name isFree
  | cons point rest =>
      have isSeparator : point = separator := by
        have stopped := List.head?_dropWhile_not (· ≠ separator) path.reverse
        rw [dropped] at stopped
        simpa using stopped
      subst isSeparator
      rw [dropped, List.reverse_cons, List.append_assoc] at whole
      have reached : system.locate
            (rest.reverse ++ separator :: last.reverse) = _ :=
        locate_separator isFree
      rw [whole]
      refine reached.trans ?_
      dsimp only
      split
      · rw [List.reverse_cons]
      · next namesMore =>
          rw [List.reverse_reverse, ← List.reverse_cons]
          refine locate_stripped isFree ?_
          simpa using namesMore

/-- A file and a file beside it, whatever name it has, are in one directory. -/
theorem holds_sibling {beside : Bytes} (isFree : separator ∉ name)
    (success : system.read path = .ok content)
    (alsoThere : system.read (Files.sibling path name) = .ok beside) :
    ∃ directory, system.Holds directory path ∧
      system.Holds directory (Files.sibling path name) := by
  obtain ⟨place, located, isFile⟩ := file_of_read success
  obtain ⟨other, locatedOther, isOther⟩ := file_of_read alsoThere
  obtain ⟨last, _, byDirectory⟩ := locate_directoryOf system path
  obtain ⟨directory, isDirectory, entered⟩ :=
    except_bind_eq_ok_iff.mp (byDirectory ▸ located)
  have joined : system.locate (Files.sibling path name) = _ :=
    locate_join isFree
  rw [isDirectory] at joined
  have enteredOther := joined.symm.trans locatedOther
  have isIn := eq_append_of_enter entered isFile
  have isInToo := eq_append_of_enter enteredOther isOther
  subst isIn
  subst isInToo
  exact ⟨directory, ⟨last, content, located, isFile⟩,
    ⟨name, beside, locatedOther, isOther⟩⟩

end FileSystem

/-! ## Trees -/

namespace FileTree

variable {tree : FileTree}

/-- Nothing lies below a file. -/
def IsProper (tree : FileTree) : Prop :=
  ∀ place node, tree.node? place = some node →
    tree.node? place.dropLast = some .directory

/-- A tree of files, seen from its root. -/
def system (tree : FileTree) (isProper : tree.IsProper) : FileSystem where
  node? := tree.node?
  current := []
  fault? path :=
    match tree.read path with
    | .ok _ => none
    | .error fault => some fault
  parent := isProper

theorem foldlM_enter_of_walk (isProper : tree.IsProper)
    {names place last : List Text}
    (walked : tree.walk place names = .ok (some last)) :
    names.foldlM (tree.system isProper).enter place = .ok last := by
  induction names generalizing place with
  | nil =>
      cases walked
      rfl
  | cons component rest inductionHypothesis =>
      rw [List.foldlM_cons]
      unfold walk at walked
      have sameNode : (tree.system isProper).node? place = tree.node? place :=
        rfl
      have isDirectory : tree.node? place = some .directory := by
        split at walked
        · cases walked
        · cases walked
        · assumption
      unfold FileSystem.enter
      rw [sameNode]
      rw [isDirectory] at walked ⊢
      dsimp only at walked ⊢
      split at walked
      · next still =>
          rw [if_pos still]
          exact inductionHypothesis walked
      · next moves =>
          rw [if_neg moves]
          split at walked
          · next isParent =>
              rw [if_pos isParent]
              split at walked
              · split at walked <;> cases walked
              · exact inductionHypothesis walked
          · next isBelow =>
              rw [if_neg isBelow]
              split at walked
              · cases walked
              · exact inductionHypothesis walked

/-- What is read from a tree is what is read from it as a file system. -/
theorem read_system (isProper : tree.IsProper) :
    (tree.system isProper).read = tree.read := by
  funext path
  unfold FileSystem.read
  have faults : (tree.system isProper).fault? path =
      match tree.read path with
      | .ok _ => none
      | .error fault => some fault := rfl
  rw [faults]
  cases success : tree.read path with
  | error fault => rfl
  | ok content =>
      dsimp only
      unfold read at success
      split at success
      · cases success
      next named =>
      rw [if_neg named]
      split at success
      · cases success
      split at success
      · split at success <;> cases success
      next isRelative =>
      split at success
      · cases success
      · cases success
      · next place walked =>
          have located : (tree.system isProper).locate path = .ok place := by
            unfold FileSystem.locate FileSystem.start
            rw [if_neg isRelative]
            exact foldlM_enter_of_walk isProper walked
          refine (except_bind_of_eq_ok located).trans ?_
          have sameNode :
              (tree.system isProper).node? place = tree.node? place := rfl
          have isThere : tree.node? place = some (.file content) := by
            split at success
            · next isThere =>
                cases success
                exact isThere
            · cases success
            · cases success
          rw [sameNode, isThere]
          rfl

end FileTree

end PickleGraph
