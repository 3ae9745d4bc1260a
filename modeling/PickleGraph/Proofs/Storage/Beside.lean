import PickleGraph.Proofs.Machine.Steps
import PickleGraph.Proofs.Storage.Places
import PickleGraph.Storage.Basic

/-!
# Files beside a stream

A stream names files that lie beside its own. Which ones are read is seen in the
steps of the machine: a file is asked for only where a state is given to the
placeholder of its array, and never by the machines of the pickles inside.
However a name is made up, what is read under it is in the directory of the
stream.
-/

namespace PickleGraph

open Actions
open Files (separator)

/-- Options under which files are found beside the stream. -/
def Options.beside (options : Options) (siblings : Payload.Siblings) :
    Options :=
  { options with siblings? := some siblings }

namespace Execution

variable {options : Options} {nested : Decoding Value}
  {first second : Payload.Siblings} {machine : Machine}

/-! ## Names that are asked for -/

/-- The record names a file that its array is read from. -/
def NamesFile (record : Record) (name : Text) : Prop :=
  (∃ target, record.strategy = .array target .sibling) ∧
    (record.field "filename").text? = some name

/-- The next step of a machine asks for the file of this name. -/
def AsksNext (machine : Machine) (name : Text) : Prop :=
  ∃ middle address record last, readOpcode machine = .ok .build middle ∧
    applyToTop middle = .ok (address, record) last ∧ NamesFile record name

/-- A machine asks for the file of this name before its pickle ends. -/
inductive Asks (options : Options) : Machine → Text → Prop
  | now {machine : Machine} {name : Text} :
      AsksNext machine name → Asks options machine name
  | later {machine after : Machine} {name : Text} :
      placed (step options (nestedPickle options)) machine =
        .ok none after →
      Asks options after name → Asks options machine name

theorem readSibling_congr {record : Record}
    (same : ∀ name, (record.field "filename").text? = some name →
      first name = second name) :
    Payload.readSibling options.names record (some first) =
      Payload.readSibling options.names record (some second) := by
  unfold Payload.readSibling
  cases named : (record.field "filename").text? with
  | none => rfl
  | some name =>
      dsimp only
      rw [same name named]

theorem fillPlaceholder_beside {address : Address} {record : Record}
    (same : ∀ name, NamesFile record name → first name = second name) :
    fillPlaceholder (options.beside first) nested address record =
      fillPlaceholder (options.beside second) nested address record := by
  unfold fillPlaceholder
  cases ofArray : record.strategy with
  | array target layout =>
      cases layout with
      | inline => rfl
      | sibling =>
          have sameArray :
              Payload.readSibling options.names record (some first) =
                Payload.readSibling options.names record (some second) :=
            readSibling_congr fun name named =>
              same name ⟨⟨target, ofArray⟩, named⟩
          show (decoding (Payload.readSibling options.names record
            (some first)) >>= _) = _
          rw [sameArray]
          rfl
  | _ => rfl

/-- A step depends on the file that it asks for and on no other one. -/
theorem step_beside
    (same : ∀ name, AsksNext machine name → first name = second name) :
    step (options.beside first) nested machine =
      step (options.beside second) nested machine := by
  rw [step_eq, step_eq]
  refine bind_congr rfl fun opcode middle read => ?_
  refine bind_congr rfl fun instruction last parsed => ?_
  obtain ⟨source, argued, rfl⟩ := decoding_eq_ok_iff.mp parsed
  have suits := Instruction.suits_ofOpcode options.rules opcode _ _ _ argued
  cases instruction with
  | build =>
      have isBuild : opcode = .build := suits
      subst isBuild
      cases argued
      refine bind_congr ?_ fun _ _ _ => rfl
      refine bind_congr ?_ fun _ _ _ => rfl
      rw [giveState_eq, giveState_eq]
      refine bind_congr rfl fun (address, record) last applied => ?_
      have sameHere : ∀ name, NamesFile record name →
          first name = second name := fun name named =>
        same name ⟨middle, address, record, last, read, applied, named⟩
      dsimp only
      rw [fillPlaceholder_beside sameHere]
  | _ => rfl

/-- The pickles inside find no files. -/
theorem nestedPickle_beside (options : Options)
    (siblings : Payload.Siblings) :
    nestedPickle (options.beside siblings) = nestedPickle options :=
  rfl

/-- A run depends on the files that it asks for and on no other ones. -/
theorem runToEnd_beside
    (same : ∀ name, Asks (options.beside first) machine name →
      first name = second name) :
    runToEnd (options.beside first) machine =
      runToEnd (options.beside second) machine := by
  induction size : machine.size using Nat.strongRecOn
    generalizing machine with
  | ind size inductionHypothesis =>
      have sameStep : step (options.beside first)
            (nestedPickle (options.beside first)) machine =
          step (options.beside second)
            (nestedPickle (options.beside second)) machine := by
        rw [nestedPickle_beside, nestedPickle_beside]
        exact step_beside fun name asked => same name (.now asked)
      rw [runToEnd_eq (options.beside first),
        runToEnd_eq (options.beside second)]
      refine bind_congr (placed_congr sameStep) fun result after stepped => ?_
      cases result with
      | some value => rfl
      | none =>
          have smaller := size_step (readOn_nestedPickle _)
            (placed_eq_ok_iff.mp stepped)
          exact inductionHypothesis after.size (size ▸ smaller)
            (fun name asked => same name (.later stepped asked)) rfl

end Execution

/-! ## Files that are read -/

variable {storage : Storage} {files others : Files} {options : Options}
  {path : Text}

/-- The machine that decodes what a reader hands out. -/
def Reader.machine (reader : Reader) : Machine :=
  (Machine.ofReader reader .empty false).restart

/-- Reading from a storage reads its own file, and the files that its machine
asks for. -/
inductive Storage.Reads (storage : Storage) (files : Files)
    (options : Options) : Text → Prop
  | own {path : Text} : storage.path? = some path →
      storage.Reads files options path
  | beside {path name : Text} {content : Content} :
      storage.path? = some path → separator ∉ name →
      storage.content files = .ok content →
      Execution.Asks (storage.options files options) content.reader.machine
        name →
      storage.Reads files options (Files.sibling path name)

/-- Decoding a path reads what has the path, and what its storage reads. -/
inductive Files.Reads (files : Files) (options : Options) (path : Text) :
    Text → Prop
  | own : files.Reads options path path
  | storage {storage : Storage} {place : Text} :
      Storage.ofPath files path = .ok storage →
      storage.Reads files options place → files.Reads options path place

theorem Files.fetch_congr (same : others path = files path)
    (subject : Text) :
    others.fetch subject path = files.fetch subject path := by
  unfold fetch
  rw [same]

theorem Storage.content_congr
    (same : ∀ path, storage.path? = some path → others path = files path) :
    storage.content others = storage.content files := by
  have sameFile : storage.file others = storage.file files := by
    unfold Storage.file
    cases hasPath : storage.path? with
    | none => rfl
    | some path => exact Files.fetch_congr (same path hasPath) _
  unfold Storage.content
  rw [sameFile]

theorem Options.decodeReader_congr {options other : Options}
    {reader : Reader}
    (sameRun : Execution.runToEnd options reader.machine =
      Execution.runToEnd other reader.machine) :
    options.decodeReader reader = other.decodeReader reader := by
  have sameLoad :
      Machine.load options (Machine.ofReader reader .empty false) =
        Machine.load other (Machine.ofReader reader .empty false) := by
    rw [Execution.load_eq, Execution.load_eq]
    exact sameRun
  unfold decodeReader
  rw [sameLoad]

/-- What is not read from a storage makes no difference. -/
theorem Storage.decode_congr
    (same : ∀ path, storage.Reads files options path →
      others path = files path) :
    storage.decode others options = storage.decode files options := by
  have sameContent : storage.content others = storage.content files :=
    Storage.content_congr fun path hasPath => same path (.own hasPath)
  have sameFiles : ∀ content, storage.content files = .ok content →
      ∀ name, Execution.Asks (storage.options files options)
        content.reader.machine name →
      storage.sibling files name = storage.sibling others name := by
    intro content hasContent name asked
    unfold Storage.sibling
    cases hasPath : storage.path? with
    | none => rfl
    | some path =>
        cases isFree : name.contains separator with
        | true => rfl
        | false =>
            have isFree : separator ∉ name := by simpa using isFree
            have sameFile := same _ (.beside hasPath isFree hasContent asked)
            simp only [Files.fetch_congr sameFile]
  unfold Storage.decode
  rw [sameContent]
  refine except_bind_congr_of_ok fun content hasContent => ?_
  refine (Options.decodeReader_congr ?_).symm
  refine Execution.runToEnd_beside fun name asked => ?_
  rw [sameFiles content hasContent name asked]

/-- A storage that is made of a path reads the file there first. -/
theorem Storage.ofPath_eq_ok {storage : Storage}
    (success : Storage.ofPath files path = .ok storage) :
    storage.path? = some path ∧ ∃ content, files path = .ok content := by
  obtain ⟨content, fetched, made⟩ := except_bind_eq_ok_iff.mp success
  refine ⟨?_, content, ?_⟩
  · cases made
    rfl
  · unfold Files.fetch at fetched
    cases checked : Files.checkPath path with
    | error refusal =>
        rw [checked] at fetched
        cases fetched
    | ok _ =>
        rw [checked] at fetched
        dsimp only at fetched
        cases found : files path with
        | error fault =>
            rw [found] at fetched
            cases fetched
        | ok octets =>
            rw [found] at fetched
            cases fetched
            rfl

theorem Files.load_congr
    (same : ∀ place, files.Reads options path place →
      others place = files place) :
    others.load options path = files.load options path := by
  have sameStorage :
      Storage.ofPath others path = Storage.ofPath files path := by
    unfold Storage.ofPath
    rw [Files.fetch_congr (same path .own)]
  unfold Files.load
  rw [sameStorage]
  refine except_bind_congr_of_ok fun storage opened => ?_
  exact Storage.decode_congr fun place isRead =>
    same place (.storage opened isRead)

/-! ## Reading stays in the directory -/

/-- Where files are read when a path in a file system is decoded. -/
structure ReadsBeside (system : FileSystem) (options : Options)
    (path : Text) : Prop where
  /-- What is not read makes no difference. -/
  noMore : ∀ others : Files,
    (∀ place, system.read.Reads options path place →
      others place = system.read place) →
    others.load options path = system.read.load options path
  /-- A file that is read is the one at the path or is in its directory. -/
  inDirectory : ∀ place content, system.read.Reads options path place →
    system.read place = .ok content →
    place = path ∨
      ∃ directory, system.Holds directory path ∧
        system.Holds directory place
  /-- Without a path no file is read. -/
  withoutPath : ∀ storage : Storage, storage.path? = none →
    ∀ files, storage.decode files options =
      storage.decode system.read options
  /-- A pickle inside another one is decoded without files. -/
  inside : ∀ (storage : Storage) files,
    Execution.nestedPickle (storage.options files options) =
      Execution.nestedPickle { options with siblings? := none }

/-- Whatever a file holds, and under every registry, decoding it reads no other
file than those in its directory. -/
theorem load_readsBeside (system : FileSystem) (options : Options)
    (path : Text) : ReadsBeside system options path where
  noMore _ same := Files.load_congr same
  inDirectory place content isRead found := by
    cases isRead with
    | own => exact .inl rfl
    | storage opened isRead =>
        obtain ⟨hasPath, _, foundOwn⟩ := Storage.ofPath_eq_ok opened
        cases isRead with
        | own hasPlace =>
            exact .inl (Option.some.inj (hasPlace.symm.trans hasPath))
        | beside hasPlace isFree hasContent asked =>
            cases Option.some.inj (hasPlace.symm.trans hasPath)
            exact .inr (FileSystem.holds_sibling isFree foundOwn found)
  withoutPath storage noPath files := by
    refine Storage.decode_congr fun path isRead => ?_
    cases isRead with
    | own hasPath => cases noPath.symm.trans hasPath
    | beside hasPath => cases noPath.symm.trans hasPath
  inside _ _ := rfl

end PickleGraph
