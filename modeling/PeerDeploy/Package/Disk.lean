import PeerDeploy.Base.Files
import PeerDeploy.Deploy.Handler

/-!
# Packages on disk

The package manifest of `crates/common/src/lib.rs:297–347`, the libraries that handle an
archive, and a disk that notes each path that is made, written, handed out or deleted. An
archive that is open reads its file as it is at each moment, since an entry may replace
`package.zip` itself. File operations fail only for missing or wrong entries.
-/

namespace PeerDeploy.Package

open PeerDeploy.Common PeerDeploy.Base

/-- `crates/common/src/lib.rs:297–308`. -/
inductive MountKind where
  | static
  | config
  | work
  | state
  deriving DecidableEq, Repr

/-- `crates/common/src/lib.rs:310–328`. -/
structure PackageMountSpec where
  kind : MountKind
  guest : String
  source : Option String := none
  sizeMb : Option Nat := none
  volume : Option String := none
  seed : Option String := none
  deriving DecidableEq, Repr

/-- `crates/common/src/lib.rs:330–339`. -/
structure PackageComponent where
  name : String
  wasm : String
  sha256 : Option String := none
  deriving DecidableEq, Repr

/-- `crates/common/src/lib.rs:341–347`. -/
structure PackageManifest where
  component : PackageComponent
  mounts : List PackageMountSpec := []
  deriving DecidableEq, Repr

/-- An entry as `zip::ZipWriter` is given it. -/
structure ZipEntry where
  name : String
  bytes : Bytes := []
  deriving DecidableEq, Repr

/-- The `zip` crate. -/
structure ZipLibrary where
  /-- The file that a `ZipWriter` leaves; a directory is an entry whose name ends with `/`. -/
  write : List ZipEntry → Bytes
  /-- `ZipArchive::new`: the names of the central directory. -/
  entryNames : Bytes → Except String (List String)
  /-- The index at which `by_name` looks. -/
  indexOf : Bytes → String → Option Nat
  /-- `by_index` succeeds for an archive opened from the first bytes while its file holds the
  second ones. -/
  opens : Bytes → Bytes → Nat → Bool
  /-- What is read from that entry, and the error that ends it. -/
  content : Bytes → Bytes → Nat → Bytes × Option String

/-- The libraries and the place of an agent. -/
structure Host extends Deploy.Externals where
  dataDir : String
  zip : ZipLibrary
  parseManifest : String → Except String PackageManifest
  writeManifest : PackageManifest → Except String String
  /-- The order in which `read_dir` lists names. -/
  arrange : List String → List String
  arrange_perm : ∀ names, (arrange names).Perm names

/-- The directories that the operations are to stay in. -/
inductive Area where
  | data
  | package (digest : String)
  | work
  | volumes
  deriving DecidableEq, Repr

/-- The path of an area, as the source joins it. -/
def Area.dir (dataDir : String) : Area → String
  | .data => dataDir
  | .package digest => Path.join (Path.join (Path.join dataDir "artifacts") "packages") digest
  | .work => Path.join (Path.join dataDir "work") "components"
  | .volumes => Path.join (Path.join dataDir "state") "components"

/-- A path that an operation uses, with the area that it belongs in. -/
inductive Use where
  /-- Created, with the directories before it. -/
  | makes (area : Area) (path : String)
  /-- Written, or created in its directory. -/
  | writes (area : Area) (path : String)
  /-- Handed out as the host of a mount. -/
  | hosts (area : Area) (path : String)
  /-- Deleted, with all below it. -/
  | deletes (area : Area) (place : List String)
  deriving DecidableEq, Repr

/-- The files, and the paths used so far. -/
structure Disk where
  files : Files
  uses : List Use := []

namespace Disk

/-- Note a path. -/
def note (disk : Disk) (use : Use) : Disk := { disk with uses := disk.uses ++ [use] }

/-- `fs::create_dir_all`, and its error. -/
def makeDirs (disk : Disk) (area : Area) (path : String) : Disk × Option String :=
  let (files, error) := disk.files.makeDirs path
  ({ disk with files }.note (.makes area path), error)

/-- `fs::create_dir_all` of the parent of a path. -/
def makeParent (disk : Disk) (area : Area) (path : String) : Disk × Option String :=
  let files := disk.files.createDirs (Path.parentStations path)
  ({ disk with files }.note (.makes area path),
    match files.enter (Path.parentStations path) with
    | .ok () => none
    | .error e => some e)

/-- Write a file, `File::create` with no bytes, and the error. -/
def write (disk : Disk) (use : Use) (path : String) (bytes : Bytes) : Disk × Option String :=
  match disk.files.writePath path bytes with
  | .ok files => ({ disk with files }.note use, none)
  | .error e => (disk.note use, some e)

/-- `fs::remove_dir_all` or `fs::remove_file`. -/
def remove (disk : Disk) (area : Area) (place : List String) : Disk :=
  { disk with files := disk.files.removeTree place }.note (.deletes area place)

/-- The content of an open file. -/
def bytesAt (disk : Disk) (place : List String) : Bytes :=
  match disk.files[place]? with
  | some (.file bytes) => bytes
  | some .dir | none => []

end Disk

/-! ### Copying a directory -/

/-- One entry of the loop; `crates/agent/src/web/deploy.rs:547–558`. -/
def copyEntry (copyDir : Disk → String → String → Disk × Option String) (disk : Disk)
    (src dst name : String) : Disk × Option String :=
  let path := Path.join src name
  let target := Path.join dst name
  match disk.files.lookup path with
  | none => (disk, some "No such file or directory (os error 2)")
  | some .dir => copyDir disk path target
  | some (.file bytes) =>
    match disk.makeParent .volumes target with
    | (disk, some e) => (disk, some e)
    | (disk, none) => disk.write (.makes .volumes target) target bytes

/-- The loop, up to the first error. -/
def copyEntries (copyDir : Disk → String → String → Disk × Option String) (src dst : String) :
    Disk → List String → Disk × Option String
  | disk, [] => (disk, none)
  | disk, name :: rest =>
    match copyEntry copyDir disk src dst name with
    | (disk, some e) => (disk, some e)
    | (disk, none) => copyEntries copyDir src dst disk rest

/-- `crates/agent/src/web/deploy.rs:542–560`. The fuel is how deep paths may nest: a volume that
is copied into itself ends there. -/
def copyDirRecursive (h : Host) : Nat → Disk → String → String → Disk × Option String
  | 0, disk, _, _ => (disk, some "File name too long (os error 36)")
  | fuel + 1, disk, src, dst =>
    if disk.files.pathExists src then
      match disk.makeDirs .volumes dst with
      | (disk, some e) => (disk, some e)
      | (disk, none) =>
        match disk.files.lookup src with
        | none => (disk, some "No such file or directory (os error 2)")
        | some (.file _) => (disk, some "Not a directory (os error 20)")
        | some .dir =>
          copyEntries (copyDirRecursive h fuel) src dst disk
            (h.arrange (disk.files.children (Path.place src)))
    else (disk, none)

end PeerDeploy.Package
