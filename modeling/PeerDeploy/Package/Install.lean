import PeerDeploy.Package.Disk

/-!
# Installing packages and clearing volumes

`install_package_from_bytes` and `api_deploy_package_multipart`
(`crates/agent/src/web/deploy.rs:14–446`) take the same steps; they differ in their texts, in
what they do with the name override, and in the error of creating the artifacts directory,
which only the second one heeds. `api_volumes_clear` is in `crates/agent/src/web/volumes.rs`.
-/

namespace PeerDeploy.Package

open PeerDeploy.Common PeerDeploy.Base PeerDeploy.Deploy

/-- Why an installation stops. -/
inductive Fault where
  | createDir (error : String)
  | stage (error : String)
  | openZip (error : String)
  | invalidZip (error : String)
  | noManifest
  | readManifest (error : String)
  | parseManifest (error : String)
  | wasmMissing (path : String)
  | readWasm (error : String)
  | mismatch (manifest actual : String)
  | cacheDir (error : String)
  | stageWasm (error : String)
  deriving DecidableEq, Repr

/-- The error texts of `install_package_from_bytes`. -/
def Fault.text : Fault → String
  | .createDir e => s!"create package dir: {e}"
  | .stage e => s!"stage package: {e}"
  | .openZip e => s!"open zip: {e}"
  | .invalidZip e => s!"invalid zip: {e}"
  | .noManifest => "manifest.toml not found"
  | .readManifest e => s!"read manifest: {e}"
  | .parseManifest e => s!"manifest parse error: {e}"
  | .wasmMissing path => s!"component wasm not found: {path}"
  | .readWasm e => s!"read wasm: {e}"
  | .mismatch manifest actual => s!"wasm sha256 mismatch: manifest={manifest}, actual={actual}"
  | .cacheDir e => s!"cache dir: {e}"
  | .stageWasm e => s!"stage wasm: {e}"

/-- The responses of `api_deploy_package_multipart`. -/
def Fault.response : Fault → Nat × String
  | .createDir e => (500, s!"failed to create package dir: {e}")
  | .stage e => (500, s!"failed to stage package: {e}")
  | .openZip e => (500, s!"open zip: {e}")
  | .invalidZip e => (400, s!"invalid zip: {e}")
  | .noManifest => (400, "manifest.toml not found")
  | .readManifest e => (400, s!"read manifest: {e}")
  | .parseManifest e => (400, s!"manifest parse error: {e}")
  | .wasmMissing path => (400, s!"component wasm not found: {path}")
  | .readWasm e => (500, s!"read wasm: {e}")
  | .mismatch manifest actual =>
    (400, s!"wasm sha256 mismatch: manifest={manifest}, actual={actual}")
  | .cacheDir e => (500, s!"cache dir: {e}")
  | .stageWasm e => (500, s!"stage wasm: {e}")

/-- An archive that is open, and its manifest. -/
structure Opened where
  archive : Bytes
  names : List String
  manifest : PackageManifest

/-- `packages_dir`; `crates/agent/src/web/deploy.rs:290–293`. -/
def packagesDir (h : Host) (digest : String) : String := (Area.package digest).dir h.dataDir

/-- `zip_path`; `crates/agent/src/web/deploy.rs:297`. -/
def zipPath (h : Host) (digest : String) : String := Path.join (packagesDir h digest) "package.zip"

/-- Open the staged archive and read its manifest; `crates/agent/src/web/deploy.rs:304–316`. -/
def readPackage (h : Host) (digest : String) (files : Files) : Except Fault Opened :=
  match files.lookup (zipPath h digest) with
  | none => .error (.openZip "No such file or directory (os error 2)")
  | some .dir => .error (.invalidZip "Is a directory (os error 21)")
  | some (.file archive) => do
    let names ← (h.zip.entryNames archive).mapError .invalidZip
    match h.zip.indexOf archive "manifest.toml" with
    | none => throw .noManifest
    | some i =>
      if h.zip.opens archive archive i then
        match h.zip.content archive archive i with
        | (_, some e) => throw (.readManifest e)
        | (bytes, none) =>
          match String.fromUTF8? ⟨bytes.toArray⟩ with
          | none => throw (.readManifest "stream did not contain valid UTF-8")
          | some text =>
            let manifest ← (h.parseManifest text).mapError .parseManifest
            return { archive, names, manifest }
      else throw .noManifest

/-- Stage the upload below its digest and open it; `crates/agent/src/web/deploy.rs:288–316`. -/
def openPackage (h : Host) (digest : String) (disk : Disk) (bytes : Bytes) :
    Disk × Except Fault Opened :=
  match disk.makeDirs (.package digest) (packagesDir h digest) with
  | (disk, some e) => (disk, .error (.createDir e))
  | (disk, none) =>
    let zip := zipPath h digest
    if disk.files.pathExists zip then (disk, readPackage h digest disk.files)
    else match disk.write (.writes (.package digest) zip) zip bytes with
      | (disk, some e) => (disk, .error (.stage e))
      | (disk, none) => (disk, readPackage h digest disk.files)

/-- One entry of the archive; `crates/agent/src/web/deploy.rs:322–342`. Creating the file may
truncate the archive that the entry is read from. -/
def extractEntry (h : Host) (digest : String) (archive : Bytes) (disk : Disk)
    (entry : String × Nat) : Disk :=
  let zip := Path.place (zipPath h digest)
  let outpath := Path.join (packagesDir h digest) entry.1
  if h.zip.opens archive (disk.bytesAt zip) entry.2 then
    if entry.1.toList.getLast? = some '/' then (disk.makeDirs (.package digest) outpath).1
    else
      let disk := (disk.makeParent (.package digest) outpath).1
      match disk.write (.makes (.package digest) outpath) outpath [] with
      | (disk, some _) => disk
      | (disk, none) =>
        let (bytes, _) := h.zip.content archive (disk.bytesAt zip) entry.2
        (disk.write (.makes (.package digest) outpath) outpath bytes).1
  else disk

/-- The extraction loop; `crates/agent/src/web/deploy.rs:321–342`. -/
def extract (h : Host) (digest : String) (opened : Opened) (disk : Disk) : Disk :=
  opened.names.zipIdx.foldl (extractEntry h digest opened.archive) disk

/-- Read the program and check its digest; `crates/agent/src/web/deploy.rs:344–358`. -/
def verifyWasm (h : Host) (digest : String) (manifest : PackageManifest) (files : Files) :
    Except Fault (Bytes × String) :=
  let path := Path.join (packagesDir h digest) manifest.component.wasm
  if files.pathExists path then
    match files.readPath path with
    | .error e => .error (.readWasm e)
    | .ok wasm =>
      match manifest.component.sha256 with
      | none => .ok (wasm, h.sha256Hex wasm)
      | some pinned =>
        if pinned ≠ h.sha256Hex wasm then .error (.mismatch pinned (h.sha256Hex wasm))
        else .ok (wasm, h.sha256Hex wasm)
  else .error (.wasmMissing path)

/-- `read_dir` lists nothing or fails; `crates/agent/src/web/deploy.rs:394–396`. -/
def Disk.listsNothing (disk : Disk) (path : String) : Bool :=
  match disk.files.lookup path with
  | some .dir => (disk.files.children (Path.place path)).isEmpty
  | some (.file _) | none => true

/-- Seed an empty volume, errors ignored; `crates/agent/src/web/deploy.rs:393–401`. -/
def seedVolume (h : Host) (fuel : Nat) (digest host : String) (disk : Disk) (seed : String) :
    Disk :=
  if disk.listsNothing host then
    (copyDirRecursive h fuel disk (Path.join (packagesDir h digest) seed) host).1
  else disk

/-- The name of the volume of a state mount; `crates/agent/src/web/deploy.rs:387`. -/
def PackageMountSpec.volumeName (compName : String) (m : PackageMountSpec) : String :=
  m.volume.getD compName

/-- One mount of the manifest; `crates/agent/src/web/deploy.rs:362–409`. -/
def resolveMount (h : Host) (fuel : Nat) (digest compName : String)
    (state : Disk × List MountSpec) (m : PackageMountSpec) : Disk × List MountSpec :=
  let (disk, mounts) := state
  match m.kind with
  | .static | .config =>
    match m.source with
    | some src =>
      let host := Path.join (packagesDir h digest) src
      (disk.note (.hosts .data host), mounts ++ [⟨host, m.guest, true⟩])
    | none => (disk, mounts)
  | .work =>
    let host := Path.join (Area.work.dir h.dataDir) compName
    let disk := (disk.makeDirs .work host).1
    (disk.note (.hosts .work host), mounts ++ [⟨host, m.guest, false⟩])
  | .state =>
    let host := Path.join (Area.volumes.dir h.dataDir) (m.volumeName compName)
    let disk := (disk.makeDirs .volumes host).1
    let disk := match m.seed with
      | some seed => seedVolume h fuel digest host disk seed
      | none => disk
    (disk.note (.hosts .volumes host), mounts ++ [⟨host, m.guest, false⟩])

/-- `crates/agent/src/web/deploy.rs:360–409`. -/
def resolveMounts (h : Host) (fuel : Nat) (digest compName : String) (disk : Disk)
    (mounts : List PackageMountSpec) : Disk × List MountSpec :=
  mounts.foldl (resolveMount h fuel digest compName) (disk, [])

/-- Put the program into the artifact cache; `crates/agent/src/web/deploy.rs:411–417`. Only the
strict caller stops when the directory cannot be made (`deploy.rs:244–251`). -/
def stageWasm (h : Host) (strict : Bool) (compName : String) (wasm : Bytes) (wasmDigest : String)
    (disk : Disk) : Disk × Option Fault :=
  let (disk, error) := disk.makeDirs .data (Path.join h.dataDir "artifacts")
  match (if strict then error else none) with
  | some e => (disk, some (.cacheDir e))
  | none =>
    let path := artifactPath h.dataDir compName wasmDigest
    if disk.files.pathExists path then (disk, none)
    else
      let (disk, error) := disk.write (.writes .data path) path wasm
      (disk, error.map .stageWasm)

/-- `crates/agent/src/web/deploy.rs:420–437`. -/
def componentSpec (wasmDigest : String) (mounts : List MountSpec) : ComponentSpec where
  source := s!"cached:{wasmDigest}"
  sha256Hex := wasmDigest
  replicas := some 1
  memoryMaxMb := some 64
  epochMs := some 100
  mounts := if mounts.isEmpty then none else some mounts

/-- Disk, supervisor and persisted manifest. -/
structure Machine where
  disk : Disk
  site : Site

/-- Desire the component and persist it; `crates/agent/src/web/deploy.rs:438–444`. -/
def Machine.upsert (h : Host) (m : Machine) (compName wasmDigest : String)
    (mounts : List MountSpec) : Machine :=
  let spec := componentSpec wasmDigest mounts
  let path := artifactPath h.dataDir compName wasmDigest
  let site := m.site.upsertComponent { name := compName, path, spec }
  { m with site := site.updatePersistentManifestWithComponent h.toExternals compName spec }

/-- The steps of an installation, which ends with the name and the digest. -/
def install (h : Host) (fuel : Nat) (strict : Bool) (m : Machine) (bytes : Bytes)
    (nameOverride : Option String) : Machine × Except Fault (String × String) :=
  let digest := h.sha256Hex bytes
  match openPackage h digest m.disk bytes with
  | (disk, .error fault) => ({ m with disk }, .error fault)
  | (disk, .ok opened) =>
    let disk := extract h digest opened disk
    match verifyWasm h digest opened.manifest disk.files with
    | .error fault => ({ m with disk }, .error fault)
    | .ok (wasm, wasmDigest) =>
      let compName := nameOverride.getD opened.manifest.component.name
      let (disk, mounts) := resolveMounts h fuel digest compName disk opened.manifest.mounts
      match stageWasm h strict compName wasm wasmDigest disk with
      | (disk, some fault) => ({ m with disk }, .error fault)
      | (disk, none) =>
        (({ m with disk } : Machine).upsert h compName wasmDigest mounts, .ok (compName, digest))

/-- `crates/agent/src/web/deploy.rs:281–446`. -/
def installPackageFromBytes (h : Host) (fuel : Nat) (m : Machine) (bytes : Bytes)
    (nameOverride : Option String) : Machine × Except String (String × String) :=
  let (m, result) := install h fuel false m bytes nameOverride
  (m, result.mapError Fault.text)

/-- A field of a multipart form; a body that cannot be read counts as another field. -/
inductive Field where
  | file (bytes : Bytes)
  | name (text : String)
  | other

/-- Take the fields one by one; `crates/agent/src/web/deploy.rs:21–40`. -/
def readField (read : Option Bytes × Option String) : Field → Option Bytes × Option String
  | .file bytes => (some bytes, read.2)
  | .name text => if Text.trim text ≠ "" then (read.1, some (Text.trim text)) else read
  | .other => read

/-- The upload and the name override; `crates/agent/src/web/deploy.rs:19–40`. -/
def readFields (fields : List Field) : Option Bytes × Option String :=
  fields.foldl readField (none, none)

/-- `crates/agent/src/web/deploy.rs:14–279`: status and body of the response. -/
def apiDeployPackageMultipart (h : Host) (fuel : Nat) (m : Machine) (fields : List Field) :
    Machine × Nat × String :=
  match readFields fields with
  | (none, _) => (m, 400, "missing file")
  | (some bytes, nameOverride) =>
    match install h fuel true m bytes nameOverride with
    | (m, .error fault) => (m, fault.response)
    | (m, .ok (name, digest)) =>
      (m, 200, s!"\x7b\"name\":\"{name}\",\"digest\":\"{digest}\"\x7d")

/-- `crates/agent/src/web/volumes.rs:44–66,88–98`: status and body of the response. -/
def apiVolumesClear (h : Host) (m : Machine) (name : String) : Machine × Nat × String :=
  if Text.trim name = "" then (m, 400, "missing name")
  else
    let path := Path.join (Area.volumes.dir h.dataDir) name
    match m.disk.files.lookup path with
    | none => (m, 404, "not found")
    | some (.file _) => (m, 500, "clear failed: Not a directory (os error 20)")
    | some .dir =>
      let names := h.arrange (m.disk.files.children (Path.place path))
      let disk := names.foldl
        (fun disk name ↦ disk.remove .volumes (Path.place path ++ [name])) m.disk
      ({ m with disk }, 200, "ok")

end PeerDeploy.Package
