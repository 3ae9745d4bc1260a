import PickleGraph.Files
import PickleGraph.Machine.Run
import PickleGraph.Storage.Codec

/-!
# Storages

A storage is a place that a pickle can be read from: octets in memory, a file,
or a compressed file. Files that a pickle names are looked for beside it.
-/

namespace PickleGraph

inductive Medium
  | unknown
  | memory (octets : Bytes)
  | file
  | compressed (codec : Text)
  deriving Repr

structure Storage where
  medium : Medium
  path? : Option Text
  deriving Repr

/-- The contents of a file, where `subject` is what cannot be opened if there
are none. -/
def Files.fetch (files : Files) (subject path : Text) :
    Except Failure Bytes :=
  match checkPath path with
  | .error refusal => .error (.refused refusal)
  | .ok _ =>
      match files path with
      | .ok content => .ok content
      | .error fault => Failure.raise (.cannotOpen subject fault path)

namespace Storage

def describe (storage : Storage) : Text :=
  let path : Text := (storage.path?.map Quoted.text).getD "None"
  match storage.medium with
  | .unknown => List.flatten ["Storage(", path, ")"]
  | .memory _ => List.flatten ["BytesStorage(", path, ")"]
  | .file => List.flatten ["FileStorage(", path, ")"]
  | .compressed codec =>
      List.flatten ["CompressedStorage(", path, ", ", Quoted.text codec, ")"]

/-! ## Opening -/

def file (storage : Storage) (files : Files) : Except Failure Bytes :=
  match storage.path? with
  | none => .error (.refused .wrongType)
  | some path => files.fetch storage.describe path

/-- What is read from a storage. -/
def content (storage : Storage) (files : Files) :
    Except Failure Content := do
  match storage.medium with
  | .unknown => throw (.refused .unimplemented)
  | .memory octets => return .ofBytes octets
  | .file => return .ofBytes (← storage.file files)
  | .compressed name =>
      match Codec.ofName? name with
      | none => Failure.raise (.unknownCodec (Quoted.text name))
      | some codec => return codec.unpack (← storage.file files)

def ofPath (files : Files) (path : Text) : Except Failure Storage := do
  let medium : Medium :=
    match Codec.detect (← files.fetch path path) with
    | some codec => .compressed (Text.ofString codec.name)
    | none => .file
  return { medium, path? := some path }

/-- Opens a file beside a storage. Its name must not lead elsewhere. -/
def sibling (storage : Storage) (files : Files) (name : Text) :
    Except Failure Bytes :=
  match storage.path? with
  | none => Failure.raise (.noLocation storage.describe name)
  | some path =>
      if name.contains Files.separator then
        Failure.raise (.directoryInName name)
      else
        let place := Files.sibling path name
        files.fetch place place

/-! ## Decoding -/

/-- Options under which the files beside a storage can be read. -/
def options (storage : Storage) (files : Files) (options : Options) :
    Options :=
  { options with
    siblings? := some fun name =>
      Reader.ofBytes <$> storage.sibling files name }

def decode (storage : Storage) (files : Files) (options : Options) :
    Except Failure (Value × Heap) := do
  let content ← storage.content files
  (storage.options files options).decodeReader content.reader

end Storage

/-- Decodes the pickle at a path, and unpacks it if needed. -/
def Files.load (files : Files) (options : Options) (path : Text) :
    Except Failure (Value × Heap) := do
  (← Storage.ofPath files path).decode files options

end PickleGraph
