import PeerDeploy.Base.Json
import PeerDeploy.Base.Readers
import PeerDeploy.Package.RoundTrip

/-!
# Inspecting a package

`api_deploy_package_inspect` (`crates/agent/src/web/deploy.rs:448–540`) reports the mounts that a
package proposes, and the installation resolves them by code of its own
(`crates/agent/src/web/deploy.rs:169–221,360–409`).
-/

namespace PeerDeploy.Package

open PeerDeploy.Common PeerDeploy.Base PeerDeploy.Deploy PeerDeploy.Storage

/-! ### The report -/

/-- Open an archive in memory and read its manifest; `crates/agent/src/web/deploy.rs:463–487`. -/
def inspectArchive (h : Host) (archive : Bytes) : Except Fault Opened := do
  let names ← (h.zip.entryNames archive).mapError .invalidZip
  match h.zip.indexOf archive "manifest.toml" with
  | none => throw .noManifest
  | some i =>
    if h.zip.opens archive archive i then
      match h.zip.content archive archive i with
      | (_, some e) => throw (.readManifest e)
      | (bytes, none) =>
        match String.fromUTF8? ⟨bytes.toArray⟩ with
        | none => throw (.readManifest "stream did not contain valid UTF-8")
        | some text =>
          let manifest ← (h.parseManifest text).mapError .parseManifest
          return { archive, names, manifest }
    else throw .noManifest

/-- A file of the inventory. -/
structure ListedFile where
  path : String
  isDir : Bool
  size : Nat

/-- The inventory, with `ZipFile::size` for the size of an entry;
`crates/agent/src/web/deploy.rs:488–496`. -/
def listFiles (h : Host) (size : Bytes → Nat → Nat) (opened : Opened) : List ListedFile :=
  opened.names.zipIdx.filterMap fun (path, i) ↦
    if h.zip.opens opened.archive opened.archive i then
      let isDir := path.toList.getLast? = some '/'
      some { path, isDir, size := if isDir then 0 else size opened.archive i }
    else none

/-- A mount as it is reported. -/
structure ProposedMount where
  kind : MountKind
  guest : String
  host : String
  ro : Bool

/-- `crates/agent/src/web/deploy.rs:500–529`. -/
def proposeMount (h : Host) (compName : String) (m : PackageMountSpec) : ProposedMount :=
  let (host, ro) := match m.kind with
    | .static | .config =>
      let src := m.source.getD ""
      (s!"<package>/{src}", true)
    | .work => (s!"{h.dataDir}/work/components/{compName}", false)
    | .state => (s!"{h.dataDir}/state/components/{m.volumeName compName}", false)
  { kind := m.kind, guest := m.guest, host, ro }

/-- What an inspection finds. -/
structure Inspection where
  component : PackageComponent
  mounts : List ProposedMount
  files : List ListedFile

/-- The inspection of an upload; `crates/agent/src/web/deploy.rs:463–529`. -/
def inspectPackage (h : Host) (size : Bytes → Nat → Nat) (bytes : Bytes) :
    Except Fault Inspection := do
  let opened ← inspectArchive h bytes
  let component := opened.manifest.component
  return { component
           mounts := opened.manifest.mounts.map (proposeMount h component.name)
           files := listFiles h size opened }

/-- The text of `{:?}`. -/
def MountKind.debug : MountKind → String
  | .static => "Static"
  | .config => "Config"
  | .work => "Work"
  | .state => "State"

/-- The response body, keys in the order of `serde_json::Map`;
`crates/agent/src/web/deploy.rs:530–534`. -/
def Inspection.toJson (seen : Inspection) : Json :=
  .obj [
    ("component", .obj [("name", .str seen.component.name),
      ("sha256", seen.component.sha256.elim .null .str), ("wasm", .str seen.component.wasm)]),
    ("files", .arr (seen.files.map fun f ↦
      .obj [("is_dir", .bool f.isDir), ("path", .str f.path), ("size", .num f.size)])),
    ("mounts", .arr (seen.mounts.map fun m ↦
      .obj [("guest", .str m.guest), ("host", .str m.host), ("kind", .str m.kind.debug),
        ("ro", .bool m.ro)]))]

/-- `crates/agent/src/web/deploy.rs:449–540`: the body, or status and text of the refusal. -/
def apiDeployPackageInspect (h : Host) (size : Bytes → Nat → Nat) (fields : List Field) :
    Except (Nat × String) Json :=
  match (readFields fields).1 with
  | none => .error (400, "missing file")
  | some bytes =>
    match inspectPackage h size bytes with
    | .error fault => .error fault.response
    | .ok seen => .ok seen.toJson

/-! ### What it stands for -/

/-- The mount that a row stands for, with `<package>` for the package directory. -/
def ProposedMount.mount (packageDir : String) (row : ProposedMount) : MountSpec where
  host := match row.kind with
    | .static | .config =>
      ((Text.stripPrefix "<package>" row.host).map (packageDir ++ ·)).getD row.host
    | .work | .state => row.host
  guest := row.guest
  ro := row.ro

/-- Either installation of an upload without name override succeeds for the component. -/
def Installs (h : Host) (fuel : Nat) (m : Machine) (bytes : Bytes) (m' : Machine)
    (name : String) : Prop :=
  installPackageFromBytes h fuel m bytes none = (m', .ok (name, h.sha256Hex bytes)) ∨
    ∃ fields, readFields fields = (some bytes, none) ∧
      apiDeployPackageMultipart h fuel m fields =
        (m', 200, s!"\x7b\"name\":\"{name}\",\"digest\":\"{h.sha256Hex bytes}\"\x7d")

/-- The mounts in the specification of a component. -/
def Machine.mountsOf (m : Machine) (name : String) : List MountSpec :=
  ((m.site.desired[name]?).bind (·.spec.mounts)).getD []

/-- The archive that an installation opens: the one that is staged under the digest of the upload,
else the upload. -/
def stagedArchive (h : Host) (files : Files) (bytes : Bytes) : Bytes :=
  match files[Path.place (zipPath h (h.sha256Hex bytes))]? with
  | some (.file archive) => archive
  | some .dir | none => bytes

/-- The directory that the host of a mount is joined to. -/
def mountBase (h : Host) (digest : String) : MountKind → String
  | .static | .config => packagesDir h digest
  | .work => Area.work.dir h.dataDir
  | .state => Area.volumes.dir h.dataDir

/-- The name that is joined to it; a directory of the package may have none. -/
def PackageMountSpec.hostName (compName : String) (m : PackageMountSpec) : Option String :=
  match m.kind with
  | .static | .config => m.source
  | .work => some compName
  | .state => some (m.volumeName compName)

/-- A mount from the package is read-only. -/
def MountKind.readOnly : MountKind → Bool
  | .static | .config => true
  | .work | .state => false

/-- The mount has a name that is not absolute. -/
def HasRelativeName (compName : String) (m : PackageMountSpec) : Prop :=
  ∃ name, m.hostName compName = some name ∧ Path.isAbsolute name = false

/-- A mount that is resolved has the guest, the access and the path of one that is proposed. -/
def SameMount (h : Host) (digest resolvedName proposedName : String)
    (resolved proposed : PackageMountSpec) : Prop :=
  resolved.guest = proposed.guest ∧ resolved.kind.readOnly = proposed.kind.readOnly ∧
    (resolved.hostName resolvedName).map (Path.join (mountBase h digest resolved.kind)) =
      some (mountBase h digest proposed.kind ++ "/" ++
        (proposed.hostName proposedName).getD "")

/-- Each mount has a relative name. Where another archive is staged under the digest, its mounts,
those without a name apart, are those of the upload one by one. -/
def ShownAsInstalled (h : Host) (files : Files) (bytes : Bytes) (opened : Opened) : Prop :=
  if stagedArchive h files bytes = bytes then
    ∀ m ∈ opened.manifest.mounts, HasRelativeName opened.manifest.component.name m
  else
    ∃ staged, inspectArchive h (stagedArchive h files bytes) = .ok staged ∧
      List.Forall₂ (SameMount h (h.sha256Hex bytes) staged.manifest.component.name
          opened.manifest.component.name)
        (staged.manifest.mounts.filter fun m ↦
          (m.hostName staged.manifest.component.name).isSome)
        opened.manifest.mounts

/-! ### The archive that is opened -/

private theorem readPackage_of_file {h : Host} {digest : String} {files : Files} {archive : Bytes}
    (hfile : files.lookup (zipPath h digest) = some (.file archive)) :
    readPackage h digest files = inspectArchive h archive := by
  unfold readPackage
  rw [hfile]
  rfl

private theorem file_of_readPackage {h : Host} {digest : String} {files : Files} {opened : Opened}
    (hread : readPackage h digest files = .ok opened) :
    ∃ archive, files.lookup (zipPath h digest) = some (.file archive) ∧
      inspectArchive h archive = .ok opened := by
  cases hlookup : files.lookup (zipPath h digest) with
  | none =>
    unfold readPackage at hread
    rw [hlookup] at hread
    cases hread
  | some entry =>
    cases entry with
    | dir =>
      unfold readPackage at hread
      rw [hlookup] at hread
      cases hread
    | file archive =>
      rw [readPackage_of_file hlookup] at hread
      exact ⟨archive, rfl, hread⟩

private theorem makeDirs_place (disk : Disk) (area : Area) (path : String) (place : List String) :
    (disk.makeDirs area path).1.files[place]? = disk.files[place]? ∨
      disk.files[place]? = none ∧ (disk.makeDirs area path).1.files[place]? = some .dir := by
  rw [makeDirs_files, Files.makeDirs_fst]
  rcases Files.createDirs_getElem? disk.files (Files.madeBy path) place with h | ⟨-, hnone, hdir⟩
  · exact .inl h
  · exact .inr ⟨hnone, hdir⟩

private theorem inspectArchive_of_openPackage {h : Host} {disk after : Disk} {bytes : Bytes}
    {opened : Opened}
    (hopen : openPackage h (h.sha256Hex bytes) disk bytes = (after, .ok opened)) :
    inspectArchive h (stagedArchive h disk.files bytes) = .ok opened := by
  have hplace := makeDirs_place disk (.package (h.sha256Hex bytes))
    (packagesDir h (h.sha256Hex bytes)) (Path.place (zipPath h (h.sha256Hex bytes)))
  unfold openPackage at hopen
  unfold stagedArchive
  generalize disk.makeDirs (.package (h.sha256Hex bytes)) (packagesDir h (h.sha256Hex bytes)) =
    outcome at hopen hplace
  obtain ⟨made, error⟩ := outcome
  cases error with
  | some e => cases hopen
  | none =>
    dsimp only at hopen hplace
    split at hopen
    · obtain ⟨-, hread⟩ := Prod.mk.inj hopen
      obtain ⟨archive, hlookup, hread⟩ := file_of_readPackage hread
      obtain ⟨-, hfile⟩ := Files.lookup_eq_some.mp hlookup
      rcases hplace with hsame | ⟨-, hdir⟩
      · rw [← hsame, hfile]
        exact hread
      · rw [hfile] at hdir
        cases hdir
    · next hmissing =>
      unfold Disk.write at hopen
      cases hwrite : made.files.writePath (zipPath h (h.sha256Hex bytes)) bytes with
      | error e =>
        rw [hwrite] at hopen
        cases hopen
      | ok files =>
        rw [hwrite] at hopen
        dsimp only at hopen
        obtain ⟨-, hread⟩ := Prod.mk.inj hopen
        obtain ⟨archive, hlookup, hread⟩ := file_of_readPackage hread
        obtain ⟨happroach, hfile⟩ := Files.lookup_eq_some.mp hlookup
        dsimp only [Disk.note] at happroach hfile
        rw [Files.eq_insert_of_writePath hwrite] at happroach hfile
        rw [Table.getElem?_insert, if_pos rfl] at hfile
        obtain rfl : bytes = archive := Entry.file.inj (Option.some.inj hfile)
        -- the way there is not the new file, so the place was free before
        have hfree : made.files[Path.place (zipPath h (h.sha256Hex bytes))]? = none := by
          rw [Option.eq_none_iff_forall_ne_some]
          intro entry hentry
          apply hmissing
          have hfound : made.files.lookup (zipPath h (h.sha256Hex bytes)) = some entry := by
            rw [Files.lookup_eq_some]
            refine ⟨?_, hentry⟩
            intro place hin
            have hdir := happroach place hin
            rw [Table.getElem?_insert] at hdir
            split at hdir
            · cases hdir
            · exact hdir
          rw [Files.pathExists, hfound]
          rfl
        have hbefore : disk.files[Path.place (zipPath h (h.sha256Hex bytes))]? = none := by
          rcases hplace with hsame | ⟨hnone, -⟩
          · rw [← hsame, hfree]
          · exact hnone
        rw [hbefore]
        exact hread

/-! ### The mounts that are resolved -/

-- A mount is resolved if it has a name.
private def resolvedMount (h : Host) (digest compName : String) (m : PackageMountSpec) :
    Option MountSpec :=
  (m.hostName compName).map fun name ↦
    ⟨Path.join (mountBase h digest m.kind) name, m.guest, m.kind.readOnly⟩

private theorem resolveMount_snd (h : Host) (fuel : Nat) (digest compName : String)
    (state : Disk × List MountSpec) (m : PackageMountSpec) :
    (resolveMount h fuel digest compName state m).2 =
      state.2 ++ (resolvedMount h digest compName m).toList := by
  obtain ⟨kind, guest, source, sizeMb, volume, seed⟩ := m
  cases kind with
  | static => cases source <;> simp [resolveMount, resolvedMount, PackageMountSpec.hostName,
      mountBase, MountKind.readOnly]
  | config => cases source <;> simp [resolveMount, resolvedMount, PackageMountSpec.hostName,
      mountBase, MountKind.readOnly]
  | work => rfl
  | state => rfl

private theorem resolveMounts_snd (h : Host) (fuel : Nat) (digest compName : String) (disk : Disk)
    (mounts : List PackageMountSpec) : (resolveMounts h fuel digest compName disk mounts).2 =
      mounts.filterMap (resolvedMount h digest compName) := by
  have hfold (mounts : List PackageMountSpec) (state : Disk × List MountSpec) :
      (mounts.foldl (resolveMount h fuel digest compName) state).2 =
        state.2 ++ mounts.filterMap (resolvedMount h digest compName) := by
    induction mounts generalizing state with
    | nil => simp
    | cons m rest ih =>
      rw [List.foldl_cons, ih, resolveMount_snd, List.filterMap_cons]
      cases resolvedMount h digest compName m <;> simp
  rw [resolveMounts, hfold]
  rfl

private theorem mountsOf_install {h : Host} {fuel : Nat} {strict : Bool} {m m' : Machine}
    {bytes : Bytes} {name digest : String}
    (hinstall : install h fuel strict m bytes none = (m', .ok (name, digest))) :
    ∃ staged, inspectArchive h (stagedArchive h m.disk.files bytes) = .ok staged ∧
      staged.manifest.component.name = name ∧ h.sha256Hex bytes = digest ∧ m'.mountsOf name =
        staged.manifest.mounts.filterMap (resolvedMount h (h.sha256Hex bytes) name) := by
  unfold install at hinstall
  dsimp only at hinstall
  split at hinstall
  · cases hinstall
  · next disk staged hopen =>
    split at hinstall
    · cases hinstall
    · next wasm wasmDigest _ =>
      split at hinstall
      · cases hinstall
      · obtain ⟨rfl, hname⟩ := Prod.mk.inj hinstall
        obtain ⟨rfl, hdigest⟩ := Prod.mk.inj (Except.ok.inj hname)
        refine ⟨staged, inspectArchive_of_openPackage hopen, rfl, hdigest, ?_⟩
        rw [Machine.mountsOf, Option.getD_none, upsert_desired, Option.bind_some, getD_mounts,
          resolveMounts_snd]

private theorem mountsOf_installs {h : Host} {fuel : Nat} {m m' : Machine} {bytes : Bytes}
    {name : String} (hinstall : Installs h fuel m bytes m' name) :
    ∃ staged, inspectArchive h (stagedArchive h m.disk.files bytes) = .ok staged ∧
      staged.manifest.component.name = name ∧ m'.mountsOf name =
        staged.manifest.mounts.filterMap (resolvedMount h (h.sha256Hex bytes) name) := by
  rcases hinstall with hinstall | ⟨fields, hfields, hinstall⟩
  · unfold installPackageFromBytes at hinstall
    cases houtcome : install h fuel false m bytes none with
    | mk after result =>
      rw [houtcome] at hinstall
      obtain ⟨rfl, hresult⟩ := Prod.mk.inj hinstall
      cases result with
      | error fault => cases hresult
      | ok found =>
        obtain rfl := Except.ok.inj hresult
        obtain ⟨staged, hstaged, hname, -, hmounts⟩ := mountsOf_install houtcome
        exact ⟨staged, hstaged, hname, hmounts⟩
  · unfold apiDeployPackageMultipart at hinstall
    rw [hfields] at hinstall
    dsimp only at hinstall
    split at hinstall
    · next after fault _ =>
      obtain ⟨-, hstatus⟩ := Prod.mk.inj hinstall
      cases fault <;> cases hstatus
    · next after name' digest houtcome =>
      obtain ⟨rfl, hbody⟩ := Prod.mk.inj hinstall
      obtain ⟨staged, hstaged, hname, rfl, hmounts⟩ := mountsOf_install houtcome
      obtain ⟨-, hbody⟩ := Prod.mk.inj hbody
      obtain rfl : name' = name := by
        have hchars := congrArg String.toList hbody
        exact String.toList_inj.mp (by simpa [String.toList_append, toString] using hchars)
      exact ⟨staged, hstaged, hname, hmounts⟩

/-! ### The paths -/

private theorem join_eq_iff {base name : String} {c : Char}
    (hbase : base.toList.getLast? = some c) (hc : c ≠ '/') :
    Path.join base name = base ++ "/" ++ name ↔ Path.isAbsolute name = false := by
  constructor
  · intro hjoin
    by_contra habs
    rw [Path.join_of_absolute base (by simpa using habs)] at hjoin
    have hlen := congrArg (List.length ∘ String.toList) hjoin
    simp only [Function.comp_apply, String.toList_append, List.length_append] at hlen
    have hslash : "/".toList.length = 1 := by decide
    omega
  · exact Path.join_of_relative hbase hc

private theorem mountBase_closed {h : Host} {digest : String} (hdigest : IsDigest digest)
    (kind : MountKind) : ∃ c, (mountBase h digest kind).toList.getLast? = some c ∧ c ≠ '/' := by
  have hdir : ∃ c, (packagesDir h digest).toList.getLast? = some c ∧ c ≠ '/' := by
    obtain ⟨hlength, hplain⟩ := plain_of_isDigest hdigest
    obtain ⟨c, hc⟩ : ∃ c, digest.toList.getLast? = some c := by
      cases hlist : digest.toList with
      | nil =>
        rw [hlist] at hlength
        cases hlength
      | cons a rest => exact ⟨_, List.getLast?_cons⟩
    exact ⟨c, Path.getLast?_join _ hc, (hplain c (List.mem_of_getLast? hc)).2.1⟩
  cases kind with
  | static => exact hdir
  | config => exact hdir
  | work => exact ⟨'s', Path.getLast?_join _ (by decide), by decide⟩
  | state => exact ⟨'s', Path.getLast?_join _ (by decide), by decide⟩

private theorem mount_proposeMount {h : Host} (hdata : ∃ parent, h.dataDir = Path.join parent
    "realm-agent") (digest compName : String) (m : PackageMountSpec) :
    (proposeMount h compName m).mount (packagesDir h digest) =
      ⟨mountBase h digest m.kind ++ "/" ++ (m.hostName compName).getD "", m.guest,
        m.kind.readOnly⟩ := by
  obtain ⟨parent, hparent⟩ := hdata
  have hlast : h.dataDir.toList.getLast? = some 't' := by
    rw [hparent]
    exact Path.getLast?_join _ (by decide)
  have hstrip (src : String) : Text.stripPrefix "<package>" ("<package>/" ++ src) =
      some ("/" ++ src) := by
    have hcut : "<package>/" ++ src = "<package>" ++ ("/" ++ src) := by
      rw [← String.append_assoc]
      rfl
    rw [hcut, Text.stripPrefix_append]
  have harea (dir : String) (hdir : Path.isAbsolute dir = false) (c : Char)
      (hc : dir.toList.getLast? = some c) (hne : c ≠ '/') :
      Path.join (Path.join h.dataDir dir) "components" =
        h.dataDir ++ "/" ++ dir ++ "/" ++ "components" := by
    rw [Path.join_of_relative (Path.getLast?_join h.dataDir hc) hne (by decide),
      Path.join_of_relative hlast (by decide) hdir]
  have hpackage (src : String) :
      ((Text.stripPrefix "<package>" ("<package>/" ++ src)).map (packagesDir h digest ++ ·)).getD
        ("<package>/" ++ src) = packagesDir h digest ++ "/" ++ src := by
    rw [hstrip, String.append_assoc]
    rfl
  obtain ⟨kind, guest, source, sizeMb, volume, seed⟩ := m
  cases kind with
  | static => exact congrArg (MountSpec.mk · guest true) (hpackage (source.getD ""))
  | config => exact congrArg (MountSpec.mk · guest true) (hpackage (source.getD ""))
  | work =>
    have hhost : h.dataDir ++ "/work/components/" ++ compName =
        Path.join (Path.join h.dataDir "work") "components" ++ "/" ++ compName := by
      rw [harea "work" (by decide) 'k' (by decide) (by decide), ← String.toList_inj]
      simp [String.toList_append]
    exact congrArg (MountSpec.mk · guest false) hhost
  | state =>
    have hhost : h.dataDir ++ "/state/components/" ++ volume.getD compName =
        Path.join (Path.join h.dataDir "state") "components" ++ "/" ++ volume.getD compName := by
      rw [harea "state" (by decide) 'e' (by decide) (by decide), ← String.toList_inj]
      simp [String.toList_append]
    exact congrArg (MountSpec.mk · guest false) hhost

/-! ### The report and the installation -/

private theorem sameMount_iff {h : Host} (hdata : ∃ parent, h.dataDir = Path.join parent
    "realm-agent") (digest resolvedName proposedName : String)
    (resolved proposed : PackageMountSpec) :
    resolvedMount h digest resolvedName resolved =
        some ((proposeMount h proposedName proposed).mount (packagesDir h digest)) ↔
      SameMount h digest resolvedName proposedName resolved proposed := by
  rw [mount_proposeMount hdata, resolvedMount, SameMount]
  cases resolved.hostName resolvedName with
  | none => simp
  | some name =>
    simp only [Option.map_some, Option.some_inj, MountSpec.mk.injEq]
    constructor
    · rintro ⟨hhost, hguest, hro⟩
      exact ⟨hguest, hro, hhost⟩
    · rintro ⟨hguest, hro, hhost⟩
      exact ⟨hhost, hguest, hro⟩

private theorem sameMount_self_iff {h : Host} {digest : String} (hdigest : IsDigest digest)
    (compName : String) (m : PackageMountSpec) :
    SameMount h digest compName compName m m ↔ HasRelativeName compName m := by
  obtain ⟨c, hbase, hc⟩ := mountBase_closed (h := h) hdigest m.kind
  rw [SameMount, HasRelativeName]
  cases m.hostName compName with
  | none => simp
  | some name => simp [join_eq_iff hbase hc]

private theorem isSome_resolvedMount (h : Host) (digest compName : String)
    (m : PackageMountSpec) :
    (resolvedMount h digest compName m).isSome = (m.hostName compName).isSome := by
  rw [resolvedMount, Option.isSome_map]

/-- The mounts that the inspection of a valid package reports are those that its installation puts
into the specification exactly if they are shown as installed. -/
theorem inspection_shows_iff (h : Host) (hsha : ∀ bytes, IsDigest (h.sha256Hex bytes))
    (hdata : ∃ parent, h.dataDir = Path.join parent "realm-agent") (size : Bytes → Nat → Nat)
    {fuel : Nat} {m m' : Machine} {bytes : Bytes} {name : String} {opened : Opened}
    (hvalid : inspectArchive h bytes = .ok opened) (hinstall : Installs h fuel m bytes m' name) :
    (inspectPackage h size bytes).map (fun seen ↦
        seen.mounts.map (·.mount (packagesDir h (h.sha256Hex bytes)))) = .ok (m'.mountsOf name) ↔
      ShownAsInstalled h m.disk.files bytes opened := by
  obtain ⟨staged, hstaged, rfl, hmounts⟩ := mountsOf_installs hinstall
  have hrows : (inspectPackage h size bytes).map (fun seen ↦
      seen.mounts.map (·.mount (packagesDir h (h.sha256Hex bytes)))) =
        .ok (opened.manifest.mounts.map fun m ↦
          (proposeMount h opened.manifest.component.name m).mount
            (packagesDir h (h.sha256Hex bytes))) := by
    rw [inspectPackage, hvalid]
    simp [Except.map, bind, Except.bind, pure, Except.pure]
  rw [hrows, hmounts, Except.ok.injEq, eq_comm, Readers.filterMap_eq_map_iff, ShownAsInstalled]
  simp only [sameMount_iff hdata, isSome_resolvedMount]
  by_cases hsame : stagedArchive h m.disk.files bytes = bytes
  · rw [if_pos hsame]
    obtain rfl : opened = staged := by
      rw [hsame, hvalid] at hstaged
      exact Except.ok.inj hstaged
    have hself (m : PackageMountSpec) := sameMount_self_iff (h := h) (hsha bytes)
      opened.manifest.component.name m
    constructor
    · intro hall mount hin
      -- as many mounts have a name as there are mounts
      have hfull := List.filter_eq_self.mpr (List.length_filter_eq_length_iff.mp hall.length_eq)
      rw [hfull, List.forall₂_same] at hall
      exact (hself mount).mp (hall mount hin)
    · intro hall
      have hfull : (opened.manifest.mounts.filter fun m ↦
          (m.hostName opened.manifest.component.name).isSome) = opened.manifest.mounts := by
        rw [List.filter_eq_self]
        intro mount hin
        obtain ⟨name, hname, -⟩ := hall mount hin
        rw [hname]
        rfl
      rw [hfull, List.forall₂_same]
      intro mount hin
      exact (hself mount).mpr (hall mount hin)
  · rw [if_neg hsame]
    constructor
    · intro hall
      exact ⟨staged, hstaged, hall⟩
    · rintro ⟨other, hother, hall⟩
      rw [hstaged] at hother
      cases hother
      exact hall

/-! ### A mount that is shown and not made -/

/-- A page with its directory, and a configuration without a source. -/
def bareManifest : PackageManifest where
  component := { name := "page", wasm := "component.wasm" }
  mounts :=
    [{ kind := .static, guest := "/www", source := some "static/" },
      { kind := .config, guest := "/etc/page" }]

/-- The text of its manifest. -/
def bareToml : String :=
  "mounts=[\x7bkind=\"static\",guest=\"/www\",source=\"static/\"\x7d," ++
    "\x7bkind=\"config\",guest=\"/etc/page\"\x7d]\n" ++
    "component=\x7bname=\"page\",wasm=\"component.wasm\"\x7d\n"

/-- A zip library that knows this one archive. -/
def bareZip : ZipLibrary where
  write _ := [80, 75, 3, 4]
  entryNames _ := .ok ["manifest.toml", "component.wasm"]
  indexOf _ name := ["manifest.toml", "component.wasm"].findIdx? (· == name)
  opens first second i := first = second && decide (i < 2)
  content _ _ i := (if i = 0 then asBytes bareToml else emptyWasm, none)

/-- A host that uses it. -/
def bareHost : Host where
  toExternals := sampleLibrary
  dataDir := "/realm-agent"
  zip := bareZip
  parseManifest text := if text = bareToml then .ok bareManifest else .error "TOML parse error"
  writeManifest _ := .ok bareToml
  arrange names := names
  arrange_perm names := .refl names

/-- The installation on an empty disk. -/
def bareRun : Machine × Except String (String × String) :=
  installPackageFromBytes bareHost 0 ⟨⟨(∅ : Files).insert [] .dir, []⟩, {}⟩ [80, 75, 3, 4] none

private theorem bareRun_spec : (bareRun.2.toOption, bareRun.1.mountsOf "page") =
    (some ("page", bareHost.sha256Hex [80, 75, 3, 4]),
      [⟨packagesDir bareHost (bareHost.sha256Hex [80, 75, 3, 4]) ++ "/static/", "/www", true⟩]) := by
  decide +kernel

private theorem bareOpened : inspectArchive bareHost [80, 75, 3, 4] =
    .ok ⟨[80, 75, 3, 4], ["manifest.toml", "component.wasm"], bareManifest⟩ := by
  have hnames : bareHost.zip.entryNames [80, 75, 3, 4] =
      .ok ["manifest.toml", "component.wasm"] := rfl
  have hindex : bareHost.zip.indexOf [80, 75, 3, 4] "manifest.toml" = some 0 := by decide
  have hopens : bareHost.zip.opens [80, 75, 3, 4] [80, 75, 3, 4] 0 = true := by decide
  have hcontent : bareHost.zip.content [80, 75, 3, 4] [80, 75, 3, 4] 0 =
      (asBytes bareToml, none) := rfl
  have hparse : bareHost.parseManifest bareToml = .ok bareManifest := by
    simp only [bareHost, if_true]
  unfold inspectArchive
  rw [hnames, hindex]
  simp only [Except.mapError, bind, Except.bind, hopens, if_true, hcontent, fromUTF8_asBytes,
    hparse]
  rfl

private theorem bareInstalls : Installs bareHost 0 ⟨⟨(∅ : Files).insert [] .dir, []⟩, {}⟩
    [80, 75, 3, 4] bareRun.1 "page" := by
  left
  have hresult := congrArg Prod.fst bareRun_spec
  dsimp only at hresult
  change bareRun = (bareRun.1, _)
  generalize bareRun = run at hresult ⊢
  obtain ⟨m, result⟩ := run
  cases result with
  | error e => cases hresult
  | ok found =>
    cases hresult
    rfl

/-- The configuration is reported and not installed. -/
theorem sourceless_mount_not_installed :
    (inspectPackage bareHost (fun _ _ ↦ 0) [80, 75, 3, 4]).map (fun seen ↦
        seen.mounts.map fun row ↦ (row.guest, row.ro, row.host)) =
      .ok [("/www", true, "<package>/static/"), ("/etc/page", true, "<package>/")] ∧
    Installs bareHost 0 ⟨⟨(∅ : Files).insert [] .dir, []⟩, {}⟩ [80, 75, 3, 4] bareRun.1 "page" ∧
    bareRun.1.mountsOf "page" =
      [⟨packagesDir bareHost (bareHost.sha256Hex [80, 75, 3, 4]) ++ "/static/", "/www", true⟩] := by
  have hmounts := congrArg Prod.snd bareRun_spec
  dsimp only at hmounts
  refine ⟨?_, bareInstalls, hmounts⟩
  rw [inspectPackage, bareOpened]
  rfl

/-- So the lists differ. -/
theorem inspection_shows_iff_bare :
    (inspectPackage bareHost (fun _ _ ↦ 0) [80, 75, 3, 4]).map (fun seen ↦
        seen.mounts.map (·.mount (packagesDir bareHost (bareHost.sha256Hex [80, 75, 3, 4])))) ≠
      .ok (bareRun.1.mountsOf "page") := by
  have hsha (bytes : Bytes) : IsDigest (bareHost.sha256Hex bytes) := by
    change IsDigest (if bytes = emptyWasm then _ else _)
    split <;> decide
  have hfree : stagedArchive bareHost ((∅ : Files).insert [] .dir) [80, 75, 3, 4] =
      [80, 75, 3, 4] := by
    rw [stagedArchive, Table.getElem?_insert]
    split
    · next heq =>
      split at heq
      · cases heq
      · rw [Std.ExtTreeMap.getElem?_empty] at heq
        cases heq
    · rfl
    · rfl
  apply (inspection_shows_iff bareHost hsha ⟨"/", by decide⟩ (fun _ _ ↦ 0) bareOpened
    bareInstalls).not.mpr
  rw [ShownAsInstalled, if_pos hfree]
  intro hall
  obtain ⟨name, hname, -⟩ := hall { kind := .config, guest := "/etc/page" } (by simp [bareManifest])
  cases hname

end PeerDeploy.Package
