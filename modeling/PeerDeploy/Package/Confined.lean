import PeerDeploy.Base.Transition
import PeerDeploy.Deploy.Owner
import PeerDeploy.Package.RoundTrip
import PeerDeploy.Storage.ContentStore

/-!
# Paths of package and volume operations

Which paths an installation makes, writes and hands out, and which ones clearing a volume
deletes. Every name that comes with an archive, a manifest or a request is joined to a
directory as it is, so that `..` components and absolute paths lead out of it.
-/

namespace PeerDeploy.Package

open PeerDeploy.Common PeerDeploy.Base PeerDeploy.Deploy PeerDeploy.Storage

/-- The place of an area. -/
def Area.place (dataDir : String) : Area → List String
  | .data => Path.place dataDir
  | .package digest => Path.place dataDir ++ ["artifacts", "packages", digest]
  | .work => Path.place dataDir ++ ["work", "components"]
  | .volumes => Path.place dataDir ++ ["state", "components"]

/-- The place is on the way to the area or below it. -/
def Area.Admits (dataDir : String) (area : Area) (place : List String) : Prop :=
  place ∈ Path.stations (area.dir dataDir) ∨ Path.Below (area.place dataDir) place

/-- Whether an area admits a place is decidable. -/
instance (dataDir : String) (area : Area) (place : List String) :
    Decidable (area.Admits dataDir place) :=
  inferInstanceAs (Decidable (_ ∨ _))

/-- The path stays in its area. -/
def Use.Confined (dataDir : String) : Use → Prop
  | .makes area path => ∀ place ∈ Path.stations path, area.Admits dataDir place
  | .writes area path | .hosts area path => Path.Below (area.place dataDir) (Path.place path)
  | .deletes area place => Path.Below (area.place dataDir) place

/-- Whether a use is confined is decidable. -/
instance (dataDir : String) (use : Use) : Decidable (use.Confined dataDir) := by
  cases use <;> unfold Use.Confined <;> infer_instance

/-- The use may change what lies at the place. -/
def Use.Covers (place : List String) : Use → Prop
  | .makes _ path => place ∈ Path.stations path
  | .writes _ path => place = Path.place path
  | .hosts _ _ => False
  | .deletes _ deleted => deleted <+: place

/-- An operation with what its caller chooses. -/
inductive Operation where
  | install (bytes : Bytes) (nameOverride : Option String)
  | multipart (fields : List Field)
  | clear (name : String)

/-- Carry out an operation, with no path used before. -/
def perform (h : Host) (fuel : Nat) (files : Files) (site : Site) : Operation → Machine
  | .install bytes nameOverride =>
    (installPackageFromBytes h fuel ⟨⟨files, []⟩, site⟩ bytes nameOverride).1
  | .multipart fields => (apiDeployPackageMultipart h fuel ⟨⟨files, []⟩, site⟩ fields).1
  | .clear name => (apiVolumesClear h ⟨⟨files, []⟩, site⟩ name).1

/-! ### Names that stay inside -/

/-- No component of the name leads out of the area when it is joined to the directory. -/
def Inside (dataDir : String) (area : Area) (dir name : String) : Prop :=
  ∀ place ∈ Path.route dir name, area.Admits dataDir place

/-- Whether a name stays inside is decidable. -/
instance (dataDir : String) (area : Area) (dir name : String) :
    Decidable (Inside dataDir area dir name) :=
  inferInstanceAs (Decidable (∀ place ∈ Path.route dir name, area.Admits dataDir place))

/-- The name leads below the area when it is joined to the directory. -/
def EndsBelow (dataDir : String) (area : Area) (dir name : String) : Prop :=
  Path.Below (area.place dataDir) (Path.leads dir name)

/-- Whether a name ends below is decidable. -/
instance (dataDir : String) (area : Area) (dir name : String) :
    Decidable (EndsBelow dataDir area dir name) :=
  inferInstanceAs (Decidable (Path.Below _ _))

/-- An entry that opens has a name that stays in the package directory. -/
def EntryInside (h : Host) (digest : String) (archive : Bytes) (disk : Disk)
    (entry : String × Nat) : Prop :=
  h.zip.opens archive (disk.bytesAt (Path.place (zipPath h digest))) entry.2 = true →
    Inside h.dataDir (.package digest) (packagesDir h digest) entry.1

/-- The names of a mount stay in their directories. -/
def MountInside (h : Host) (digest compName : String) (m : PackageMountSpec) : Prop :=
  match m.kind with
  | .static | .config =>
    ∀ src ∈ m.source, EndsBelow h.dataDir .data (packagesDir h digest) src
  | .work =>
    Inside h.dataDir .work (Area.work.dir h.dataDir) compName ∧
      EndsBelow h.dataDir .work (Area.work.dir h.dataDir) compName
  | .state =>
    Inside h.dataDir .volumes (Area.volumes.dir h.dataDir) (m.volumeName compName) ∧
      EndsBelow h.dataDir .volumes (Area.volumes.dir h.dataDir) (m.volumeName compName)

/-- The cached program is there already, or its file name leads below the data directory. -/
def CacheInside (h : Host) (compName wasmDigest : String) (files : Files) : Prop :=
  files.pathExists (artifactPath h.dataDir compName wasmDigest) = true ∨
    EndsBelow h.dataDir .data (Path.join h.dataDir "artifacts")
      s!"{compName}-{digestHead wasmDigest}.wasm"

/-- The names of an upload stay inside: those of its entries as they are met, and those of its
manifest once the program has passed its check. -/
def UploadInside (h : Host) (fuel : Nat) (strict : Bool) (files : Files) (bytes : Bytes)
    (nameOverride : Option String) : Prop :=
  let digest := h.sha256Hex bytes
  match openPackage h digest ⟨files, []⟩ bytes with
  | (_, .error _) => True
  | (disk, .ok opened) =>
    StepsMeet (fun disk entry ↦ some (extractEntry h digest opened.archive disk entry))
      (EntryInside h digest opened.archive) disk opened.names.zipIdx ∧
    let disk := extract h digest opened disk
    match verifyWasm h digest opened.manifest disk.files with
    | .error _ => True
    | .ok (_, wasmDigest) =>
      let compName := nameOverride.getD opened.manifest.component.name
      (∀ m ∈ opened.manifest.mounts, MountInside h digest compName m) ∧
      let disk := (resolveMounts h fuel digest compName disk opened.manifest.mounts).1
      let (disk, error) := disk.makeDirs .data (Path.join h.dataDir "artifacts")
      (strict = true ∧ error ≠ none) ∨ CacheInside h compName wasmDigest disk.files

/-- A volume that is cleared is the directory of the volumes or lies below it, or has nothing
in it. -/
def VolumeInside (h : Host) (files : Files) (name : String) : Prop :=
  let dir := Area.volumes.dir h.dataDir
  Text.trim name = "" ∨ files.lookup (Path.join dir name) ≠ some .dir ∨
    files.children (Path.leads dir name) = [] ∨ Area.volumes.place h.dataDir <+: Path.leads dir name

/-- The names that an operation is given stay inside the directories that they are joined to. -/
def NamesInside (h : Host) (fuel : Nat) (files : Files) : Operation → Prop
  | .install bytes nameOverride => UploadInside h fuel false files bytes nameOverride
  | .multipart fields =>
    match readFields fields with
    | (none, _) => True
    | (some bytes, nameOverride) => UploadInside h fuel true files bytes nameOverride
  | .clear name => VolumeInside h files name

/-! ### What an operation uses -/

/-- The later disk has some more uses, which account for every change. -/
structure Grows (before after : Disk) (used : List Use) : Prop where
  uses : after.uses = before.uses ++ used
  changed : ∀ place, after.files[place]? ≠ before.files[place]? → ∃ use ∈ used, use.Covers place

/-- From one disk to the other all uses are accounted for, and they stay in their areas exactly
when `p` holds. -/
def Stays (dataDir : String) (before after : Disk) (p : Prop) : Prop :=
  ∃ used, Grows before after used ∧ ((∀ use ∈ used, use.Confined dataDir) ↔ p)

section Stays

variable {dataDir : String} {before after last : Disk} {p q : Prop}

private theorem stays_refl (disk : Disk) : Stays dataDir disk disk True :=
  ⟨[], ⟨by simp, fun _ h ↦ absurd rfl h⟩, by simp⟩

private theorem Stays.congr (h : Stays dataDir before after p) (hpq : p ↔ q) :
    Stays dataDir before after q := by
  obtain ⟨used, hgrows, hiff⟩ := h
  exact ⟨used, hgrows, hiff.trans hpq⟩

private theorem Stays.trans (h : Stays dataDir before after p) (h' : Stays dataDir after last q) :
    Stays dataDir before last (p ∧ q) := by
  obtain ⟨used, hgrows, hiff⟩ := h
  obtain ⟨used', hgrows', hiff'⟩ := h'
  refine ⟨used ++ used', ⟨?_, ?_⟩, ?_⟩
  · rw [hgrows'.uses, hgrows.uses, List.append_assoc]
  · intro place hne
    by_cases hsame : last.files[place]? = after.files[place]?
    · obtain ⟨use, hin, hcovers⟩ := hgrows.changed place (hsame ▸ hne)
      exact ⟨use, List.mem_append_left _ hin, hcovers⟩
    · obtain ⟨use, hin, hcovers⟩ := hgrows'.changed place hsame
      exact ⟨use, List.mem_append_right _ hin, hcovers⟩
  · rw [List.forall_mem_append, hiff, hiff']

private theorem stays_of_use {use : Use} (huses : after.uses = before.uses ++ [use])
    (hchanged : ∀ place, after.files[place]? ≠ before.files[place]? → use.Covers place) :
    Stays dataDir before after (use.Confined dataDir) :=
  ⟨[use], ⟨huses, fun place hne ↦ ⟨use, List.mem_singleton_self _, hchanged place hne⟩⟩, by simp⟩

private theorem stays_note (disk : Disk) (use : Use) :
    Stays dataDir disk (disk.note use) (use.Confined dataDir) :=
  stays_of_use rfl fun _ hne ↦ absurd rfl hne

private theorem stays_createDirs (disk : Disk) (area : Area) {path : String}
    {places : List (List String)} (h : ∀ place ∈ places, place ∈ Path.stations path) :
    Stays dataDir disk (({ disk with files := disk.files.createDirs places } : Disk).note
      (.makes area path)) ((Use.makes area path).Confined dataDir) := by
  apply stays_of_use rfl
  intro place hne
  rcases Files.createDirs_getElem? disk.files places place with hsame | ⟨hin, -⟩
  · exact absurd hsame hne
  · exact h place hin

private theorem stays_makeDirs (disk : Disk) (area : Area) (path : String) :
    Stays dataDir disk (disk.makeDirs area path).1 ((Use.makes area path).Confined dataDir) := by
  unfold Disk.makeDirs
  rw [← Prod.eta (disk.files.makeDirs path), Files.makeDirs_fst]
  exact stays_createDirs disk area fun _ hin ↦ Files.mem_stations_of_mem_madeBy hin

private theorem stays_makeParent (disk : Disk) (area : Area) (path : String) :
    Stays dataDir disk (disk.makeParent area path).1 ((Use.makes area path).Confined dataDir) :=
  stays_createDirs disk area fun _ hin ↦ Path.mem_stations_of_mem_parentStations hin

private theorem covers_makes (area : Area) (path : String) :
    (Use.makes area path).Covers (Path.place path) := Path.place_mem_stations path

private theorem covers_writes (area : Area) (path : String) :
    (Use.writes area path).Covers (Path.place path) := rfl

private theorem stays_write (disk : Disk) {use : Use} {path : String} (bytes : Bytes)
    (h : use.Covers (Path.place path)) :
    Stays dataDir disk (disk.write use path bytes).1 (use.Confined dataDir) := by
  unfold Disk.write
  split
  · next files hwrite =>
    apply stays_of_use rfl
    intro place hne
    change files[place]? ≠ disk.files[place]? at hne
    rw [Files.eq_insert_of_writePath hwrite, Table.getElem?_insert] at hne
    split at hne
    · next heq => rwa [← heq]
    · exact absurd rfl hne
  · exact stays_note disk use

private theorem stays_remove (disk : Disk) (area : Area) (place : List String) :
    Stays dataDir disk (disk.remove area place)
      ((Use.deletes area place).Confined dataDir) := by
  apply stays_of_use rfl
  intro other hne
  change (disk.files.removeTree place)[other]? ≠ _ at hne
  rw [Files.removeTree_getElem?] at hne
  split at hne
  · assumption
  · exact absurd rfl hne

end Stays

/-! ### Directories and names -/

private theorem plain_literal : Path.Plain "artifacts" ∧ Path.Plain "packages" ∧
    Path.Plain "work" ∧ Path.Plain "state" ∧ Path.Plain "components" ∧
    Path.Plain "package.zip" := by
  decide

/-- The areas lie where they are meant to. -/
theorem Area.place_dir (dataDir : String) {area : Area}
    (h : ∀ digest, area = .package digest → IsDigest digest) :
    Path.place (area.dir dataDir) = area.place dataDir := by
  obtain ⟨hartifacts, hpackages, hwork, hstate, hcomponents, -⟩ := plain_literal
  cases area with
  | data => rfl
  | package digest =>
    have hdigest := path_plain_of_isDigest (h digest rfl)
    simp only [Area.dir, Area.place, Path.place_join _ hartifacts, Path.place_join _ hpackages,
      Path.place_join _ hdigest, List.append_assoc, List.cons_append, List.nil_append]
  | work =>
    simp only [Area.dir, Area.place, Path.place_join _ hwork, Path.place_join _ hcomponents,
      List.append_assoc, List.singleton_append]
  | volumes =>
    simp only [Area.dir, Area.place, Path.place_join _ hstate, Path.place_join _ hcomponents,
      List.append_assoc, List.singleton_append]

-- A name that is joined to the directory of an area stays there exactly when no component of it
-- leads out.
private theorem makes_join_iff (dataDir : String) (area : Area) (name : String) :
    (Use.makes area (Path.join (area.dir dataDir) name)).Confined dataDir ↔
      Inside dataDir area (area.dir dataDir) name := by
  constructor
  · intro h place hin
    exact h place ((Path.mem_stations_join_iff _ _ _).mpr (.inl hin))
  · intro h place hin
    rcases (Path.mem_stations_join_iff _ _ _).mp hin with hroute | ⟨-, hbase⟩
    · exact h place hroute
    · exact .inl hbase

private theorem makes_dir (dataDir : String) (area : Area) :
    (Use.makes area (area.dir dataDir)).Confined dataDir := fun _ hin ↦ .inl hin

private theorem below_append (base : List String) {tail : List String} (h : tail ≠ []) :
    Path.Below base (base ++ tail) :=
  ⟨List.prefix_append base tail, fun he ↦ h (List.self_eq_append_right.mp he)⟩

private theorem below_trans_prefix {base place other : List String} (h : Path.Below base place)
    (hpre : place <+: other) : Path.Below base other := by
  refine ⟨h.1.trans hpre, ?_⟩
  rintro rfl
  exact h.2 (h.1.eq_of_length_le hpre.length_le)

/-! ### Copying -/

-- A directory below the volumes, with the way to it.
private structure Seeded (dataDir dst : String) : Prop where
  makes : (Use.makes .volumes dst).Confined dataDir
  below : Path.Below (Area.volumes.place dataDir) (Path.place dst)

private theorem seeded_join {dataDir dst name : String} (h : Seeded dataDir dst)
    (hname : Path.Plain name) : Seeded dataDir (Path.join dst name) := by
  have hbelow : Path.Below (Area.volumes.place dataDir) (Path.place (Path.join dst name)) := by
    rw [Path.place_join dst hname]
    exact below_trans_prefix h.below (List.prefix_append _ _)
  refine ⟨?_, hbelow⟩
  intro place hin
  rcases (Path.mem_stations_join_plain dst hname place).mp hin with hdst | rfl
  · exact h.makes place hdst
  · rw [Path.place_join dst hname] at hbelow
    exact .inr hbelow

-- What copying uses stays below the volumes if the target does.
private def Copies (dataDir : String) (before after : Disk) (dst : String) : Prop :=
  ∃ p, Stays dataDir before after p ∧ (Seeded dataDir dst → p)

private theorem copies_refl {dataDir : String} (disk : Disk) (dst : String) :
    Copies dataDir disk disk dst := ⟨True, stays_refl disk, fun _ ↦ trivial⟩

private theorem Copies.trans {dataDir dst : String} {before after last : Disk}
    (h : Copies dataDir before after dst) (h' : Copies dataDir after last dst) :
    Copies dataDir before last dst := by
  obtain ⟨p, hp, hdst⟩ := h
  obtain ⟨q, hq, hdst'⟩ := h'
  exact ⟨p ∧ q, hp.trans hq, fun hs ↦ ⟨hdst hs, hdst' hs⟩⟩

private theorem copies_makes {dataDir dst target : String} {before after : Disk}
    (h : Stays dataDir before after ((Use.makes .volumes target).Confined dataDir))
    (ht : Seeded dataDir dst → Seeded dataDir target) : Copies dataDir before after dst :=
  ⟨_, h, fun hs ↦ (ht hs).makes⟩

private theorem copies_copyEntry {dataDir : String}
    {copyDir : Disk → String → String → Disk × Option String}
    (hcopy : ∀ disk src dst, Copies dataDir disk (copyDir disk src dst).1 dst) (disk : Disk)
    (src dst : String) {name : String} (hname : Path.Plain name) :
    Copies dataDir disk (copyEntry copyDir disk src dst name).1 dst := by
  have hjoin (hs : Seeded dataDir dst) : Seeded dataDir (Path.join dst name) :=
    seeded_join hs hname
  unfold copyEntry
  dsimp only
  split
  · exact copies_refl disk dst
  · obtain ⟨p, hp, hseeded⟩ := hcopy disk (Path.join src name) (Path.join dst name)
    exact ⟨p, hp, fun hs ↦ hseeded (hjoin hs)⟩
  · have hparent := copies_makes (stays_makeParent disk .volumes (Path.join dst name)) hjoin
    split
    · next hmade =>
      rw [hmade] at hparent
      exact hparent
    · next hmade =>
      rw [hmade] at hparent
      apply hparent.trans
      exact copies_makes (stays_write _ _ (covers_makes _ _)) hjoin

private theorem copies_copyEntries {dataDir : String}
    {copyDir : Disk → String → String → Disk × Option String}
    (hcopy : ∀ disk src dst, Copies dataDir disk (copyDir disk src dst).1 dst) (src dst : String)
    {names : List String} (hnames : ∀ name ∈ names, Path.Plain name) (disk : Disk) :
    Copies dataDir disk (copyEntries copyDir src dst disk names).1 dst := by
  induction names generalizing disk with
  | nil => exact copies_refl disk dst
  | cons name rest ih =>
    have hentry := copies_copyEntry hcopy disk src dst (hnames name List.mem_cons_self)
    unfold copyEntries
    split
    · next hdone =>
      rw [hdone] at hentry
      exact hentry
    · next hdone =>
      rw [hdone] at hentry
      exact hentry.trans (ih (fun n hn ↦ hnames n (List.mem_cons_of_mem name hn)) _)

private theorem copies_copyDirRecursive (h : Host) (fuel : Nat) (disk : Disk) (src dst : String) :
    Copies h.dataDir disk (copyDirRecursive h fuel disk src dst).1 dst := by
  induction fuel generalizing disk src dst with
  | zero => exact copies_refl disk dst
  | succ fuel ih =>
    unfold copyDirRecursive
    split
    · have hmakes : Copies h.dataDir disk (disk.makeDirs .volumes dst).1 dst :=
        copies_makes (stays_makeDirs disk .volumes dst) id
      split
      · next hmade =>
        rw [hmade] at hmakes
        exact hmakes
      · next hmade =>
        rw [hmade] at hmakes
        split
        · exact hmakes
        · exact hmakes
        · apply hmakes.trans
          apply copies_copyEntries ih
          intro name hin
          exact (Files.mem_children.mp ((h.arrange_perm _).mem_iff.mp hin)).1
    · exact copies_refl disk dst

/-! ### The steps of an installation -/

private theorem stays_extractEntry (h : Host) (digest : String) (archive : Bytes) (disk : Disk)
    (entry : String × Nat) :
    Stays h.dataDir disk (extractEntry h digest archive disk entry)
      (EntryInside h digest archive disk entry) := by
  let outpath := Path.join (packagesDir h digest) entry.1
  let inside := Inside h.dataDir (.package digest) (packagesDir h digest) entry.1
  have hname : (Use.makes (.package digest) outpath).Confined h.dataDir ↔ inside :=
    makes_join_iff h.dataDir (.package digest) entry.1
  unfold extractEntry EntryInside
  dsimp only
  split
  · next hopens =>
    simp only [hopens, true_imp_iff]
    split
    · exact (stays_makeDirs disk _ _).congr hname
    · let parent := (disk.makeParent (.package digest) outpath).1
      have hparent : Stays h.dataDir disk parent inside :=
        (stays_makeParent disk (.package digest) outpath).congr hname
      have hwrite (disk : Disk) (bytes : Bytes) : Stays h.dataDir disk
          (disk.write (.makes (.package digest) outpath) outpath bytes).1 inside :=
        (stays_write disk bytes (covers_makes _ _)).congr hname
      have hcreate := hparent.trans (hwrite parent [])
      split
      · next hfailed =>
        rw [hfailed] at hcreate
        exact hcreate.congr and_self_iff
      · next created hcreated =>
        rw [hcreated] at hcreate
        exact (hcreate.trans (hwrite created _)).congr (by rw [and_self_iff, and_self_iff])
  · next hcloses =>
    exact (stays_refl disk).congr (by simp [hcloses])

-- The extraction stays in the package directory exactly when all names do, each met in the state of
-- its turn.
private theorem stays_extractEntries (h : Host) (digest : String) (archive : Bytes)
    (entries : List (String × Nat)) (disk : Disk) :
    Stays h.dataDir disk (entries.foldl (extractEntry h digest archive) disk)
      (StepsMeet (fun disk entry ↦ some (extractEntry h digest archive disk entry))
        (EntryInside h digest archive) disk entries) := by
  induction entries generalizing disk with
  | nil => exact stays_refl disk
  | cons entry rest ih =>
    apply ((stays_extractEntry h digest archive disk entry).trans (ih _)).congr
    simp [StepsMeet]

private theorem stays_openPackage (h : Host) {digest : String} (hdigest : IsDigest digest)
    (disk : Disk) (bytes : Bytes) :
    Stays h.dataDir disk (openPackage h digest disk bytes).1 True := by
  have hdir : (Use.makes (.package digest) (packagesDir h digest)).Confined h.dataDir :=
    makes_dir h.dataDir (.package digest)
  have hmakes : Stays h.dataDir disk (disk.makeDirs (.package digest) (packagesDir h digest)).1
      True := (stays_makeDirs disk _ _).congr (by simp [hdir])
  have hzip : (Use.writes (.package digest) (zipPath h digest)).Confined h.dataDir := by
    have hplace : Path.place (packagesDir h digest) = (Area.package digest).place h.dataDir :=
      Area.place_dir h.dataDir fun d hd ↦ by
        cases hd
        exact hdigest
    change Path.Below _ (Path.place (zipPath h digest))
    rw [zipPath, Path.place_join _ plain_literal.2.2.2.2.2, hplace]
    exact below_append _ (by simp)
  unfold openPackage
  split
  · next hmade =>
    rw [hmade] at hmakes
    exact hmakes
  · next made hmade =>
    rw [hmade] at hmakes
    dsimp only
    split
    · exact hmakes
    · have hwrite : Stays h.dataDir made (made.write (.writes (.package digest)
          (zipPath h digest)) (zipPath h digest) bytes).1 True :=
        (stays_write made bytes (covers_writes _ _)).congr (by simp [hzip])
      split
      · next hstaged =>
        rw [hstaged] at hwrite
        exact (hmakes.trans hwrite).congr (by simp)
      · next hstaged =>
        rw [hstaged] at hwrite
        exact (hmakes.trans hwrite).congr (by simp)

private theorem hosts_join_iff (dataDir : String) (area : Area) (dir name : String) :
    (Use.hosts area (Path.join dir name)).Confined dataDir ↔ EndsBelow dataDir area dir name := by
  change Path.Below _ (Path.place (Path.join dir name)) ↔ _
  rw [Path.place_join_eq]
  rfl

private theorem copies_seedVolume (h : Host) (fuel : Nat) (digest host : String) (disk : Disk)
    (seed : String) :
    Copies h.dataDir disk (seedVolume h fuel digest host disk seed) host := by
  unfold seedVolume
  split
  · exact copies_copyDirRecursive h fuel disk _ host
  · exact copies_refl disk host

-- Seeding adds nothing to what the name of the volume decides.
private theorem stays_volume {dataDir name : String} {disk made seeded : Disk}
    (hmade : Stays dataDir disk made
      (Inside dataDir .volumes (Area.volumes.dir dataDir) name))
    (hcopies : Copies dataDir made seeded (Path.join (Area.volumes.dir dataDir) name)) :
    Stays dataDir disk
      (seeded.note (.hosts .volumes (Path.join (Area.volumes.dir dataDir) name)))
      (Inside dataDir .volumes (Area.volumes.dir dataDir) name ∧
        EndsBelow dataDir .volumes (Area.volumes.dir dataDir) name) := by
  obtain ⟨p, hp, hseeded⟩ := hcopies
  have hhosts := hosts_join_iff dataDir .volumes (Area.volumes.dir dataDir) name
  apply ((hmade.trans hp).trans ((stays_note seeded _).congr hhosts)).congr
  constructor
  · rintro ⟨⟨hinside, -⟩, hends⟩
    exact ⟨hinside, hends⟩
  · rintro ⟨hinside, hends⟩
    have hs : Seeded dataDir (Path.join (Area.volumes.dir dataDir) name) :=
      ⟨(makes_join_iff dataDir .volumes name).mpr hinside, hhosts.mpr hends⟩
    exact ⟨⟨hinside, hseeded hs⟩, hends⟩

private theorem stays_resolveMount (h : Host) (fuel : Nat) (digest compName : String)
    (state : Disk × List MountSpec) (m : PackageMountSpec) :
    Stays h.dataDir state.1 (resolveMount h fuel digest compName state m).1
      (MountInside h digest compName m) := by
  obtain ⟨disk, mounts⟩ := state
  have hasset (hkind : m.kind = .static ∨ m.kind = .config) :
      Stays h.dataDir disk (resolveMount h fuel digest compName (disk, mounts) m).1
        (∀ src ∈ m.source, EndsBelow h.dataDir .data (packagesDir h digest) src) := by
    unfold resolveMount
    rcases hkind with hkind | hkind <;> rw [hkind] <;> cases m.source with
    | none => exact (stays_refl disk).congr (by simp)
    | some src =>
      exact ((stays_note disk _).congr (hosts_join_iff h.dataDir .data _ src)).congr (by simp)
  unfold MountInside
  cases hkind : m.kind with
  | static => exact hasset (.inl hkind)
  | config => exact hasset (.inr hkind)
  | work =>
    unfold resolveMount
    rw [hkind]
    have hmade := (stays_makeDirs disk .work (Path.join (Area.work.dir h.dataDir) compName)).congr
      (makes_join_iff h.dataDir .work compName)
    exact hmade.trans ((stays_note _ _).congr (hosts_join_iff h.dataDir .work _ compName))
  | state =>
    unfold resolveMount
    rw [hkind]
    have hmade := (stays_makeDirs disk .volumes
      (Path.join (Area.volumes.dir h.dataDir) (m.volumeName compName))).congr
        (makes_join_iff h.dataDir .volumes (m.volumeName compName))
    apply stays_volume hmade
    cases m.seed with
    | none => exact copies_refl _ _
    | some seed => exact copies_seedVolume h fuel digest _ _ seed

private theorem stays_resolveMounts (h : Host) (fuel : Nat) (digest compName : String)
    (specs : List PackageMountSpec) (state : Disk × List MountSpec) :
    Stays h.dataDir state.1 (specs.foldl (resolveMount h fuel digest compName) state).1
      (∀ m ∈ specs, MountInside h digest compName m) := by
  induction specs generalizing state with
  | nil => exact (stays_refl state.1).congr (by simp)
  | cons m rest ih =>
    apply ((stays_resolveMount h fuel digest compName state m).trans (ih _)).congr
    rw [List.forall_mem_cons]

-- Each mount was noted when it was handed out.
private def Noted (disk : Disk) (mounts : List MountSpec) : Prop :=
  ∀ mount ∈ mounts, ∃ area, Use.hosts area mount.host ∈ disk.uses

private theorem Noted.later {dataDir : String} {before after : Disk} {p : Prop}
    {mounts : List MountSpec} (h : Noted before mounts) (hstays : Stays dataDir before after p) :
    Noted after mounts := by
  obtain ⟨used, hgrows, -⟩ := hstays
  intro mount hin
  obtain ⟨area, hnoted⟩ := h mount hin
  rw [hgrows.uses]
  exact ⟨area, List.mem_append_left _ hnoted⟩

private theorem noted_concat {disk : Disk} {area : Area} {mounts : List MountSpec}
    {path guest : String} {ro : Bool} (h : Noted (disk.note (.hosts area path)) mounts) :
    Noted (disk.note (.hosts area path)) (mounts ++ [⟨path, guest, ro⟩]) := by
  intro other hin
  rcases List.mem_append.mp hin with hold | hnew
  · exact h other hold
  · rw [List.mem_singleton.mp hnew]
    exact ⟨area, List.mem_append_right _ (List.mem_singleton_self _)⟩

private theorem noted_resolveMount (h : Host) (fuel : Nat) (digest compName : String)
    {state : Disk × List MountSpec} (hnoted : Noted state.1 state.2) (m : PackageMountSpec) :
    Noted (resolveMount h fuel digest compName state m).1
      (resolveMount h fuel digest compName state m).2 := by
  have hlater := hnoted.later (stays_resolveMount h fuel digest compName state m)
  obtain ⟨disk, mounts⟩ := state
  revert hlater
  unfold resolveMount
  cases m.kind with
  | static =>
    cases m.source with
    | none => exact id
    | some src => exact noted_concat
  | config =>
    cases m.source with
    | none => exact id
    | some src => exact noted_concat
  | work => exact noted_concat
  | state => exact noted_concat

private theorem noted_resolveMounts (h : Host) (fuel : Nat) (digest compName : String)
    (specs : List PackageMountSpec) (state : Disk × List MountSpec)
    (hnoted : Noted state.1 state.2) :
    Noted (specs.foldl (resolveMount h fuel digest compName) state).1
      (specs.foldl (resolveMount h fuel digest compName) state).2 := by
  induction specs generalizing state with
  | nil => exact hnoted
  | cons m rest ih => exact ih _ (noted_resolveMount h fuel digest compName hnoted m)

-- The cached program stays below the data directory exactly when it is not written or its file name
-- leads there.
private theorem stays_stageWasm (h : Host) (strict : Bool) (compName : String) (wasm : Bytes)
    (wasmDigest : String) (disk : Disk) :
    Stays h.dataDir disk (stageWasm h strict compName wasm wasmDigest disk).1
      (strict = true ∧ (disk.makeDirs .data (Path.join h.dataDir "artifacts")).2 ≠ none ∨
        CacheInside h compName wasmDigest
          (disk.makeDirs .data (Path.join h.dataDir "artifacts")).1.files) := by
  have hdir : (Use.makes .data (Path.join h.dataDir "artifacts")).Confined h.dataDir := by
    intro place hin
    rcases (Path.mem_stations_join_plain _ plain_literal.1 place).mp hin with hbase | rfl
    · exact .inl hbase
    · exact .inr (below_append _ (by simp))
  have hmakes : Stays h.dataDir disk
      (disk.makeDirs .data (Path.join h.dataDir "artifacts")).1 True :=
    (stays_makeDirs disk _ _).congr (by simp [hdir])
  unfold stageWasm
  generalize disk.makeDirs .data (Path.join h.dataDir "artifacts") = outcome at hmakes ⊢
  obtain ⟨made, error⟩ := outcome
  dsimp only at hmakes ⊢
  split
  · next e hstrict =>
    have hstop : strict = true ∧ error ≠ none := by
      split at hstrict
      · next hs => exact ⟨hs, by simp [hstrict]⟩
      · cases hstrict
    exact hmakes.congr (by simp [hstop])
  · next hgoes =>
    have hon : ¬ (strict = true ∧ error ≠ none) := by
      rintro ⟨hs, he⟩
      rw [if_pos hs] at hgoes
      exact he hgoes
    unfold CacheInside
    split
    · next hcached => exact hmakes.congr (by simp [hcached])
    · next hfree =>
      have hends : (Use.writes .data (artifactPath h.dataDir compName wasmDigest)).Confined
          h.dataDir ↔ EndsBelow h.dataDir .data (Path.join h.dataDir "artifacts")
            s!"{compName}-{digestHead wasmDigest}.wasm" :=
        hosts_join_iff h.dataDir .data _ _
      have hwrite := (stays_write made wasm (covers_writes .data
        (artifactPath h.dataDir compName wasmDigest))).congr hends
      exact (hmakes.trans hwrite).congr (by simp [hon, hfree])

/-! ### Whole operations -/

private theorem stays_install (h : Host) (hsha : ∀ bytes, IsDigest (h.sha256Hex bytes))
    (fuel : Nat) (strict : Bool) (files : Files) (site : Site) (bytes : Bytes)
    (nameOverride : Option String) :
    Stays h.dataDir ⟨files, []⟩
      (install h fuel strict ⟨⟨files, []⟩, site⟩ bytes nameOverride).1.disk
      (UploadInside h fuel strict files bytes nameOverride) := by
  have hopen := stays_openPackage h (hsha bytes) ⟨files, []⟩ bytes
  unfold install UploadInside
  dsimp only
  generalize openPackage h (h.sha256Hex bytes) ⟨files, []⟩ bytes = outcome at hopen ⊢
  obtain ⟨disk, result⟩ := outcome
  cases result with
  | error fault => exact hopen
  | ok opened =>
    dsimp only at hopen ⊢
    have hextract := hopen.trans (stays_extractEntries h (h.sha256Hex bytes) opened.archive
      opened.names.zipIdx disk)
    rw [true_and] at hextract
    cases verifyWasm h (h.sha256Hex bytes) opened.manifest
        (extract h (h.sha256Hex bytes) opened disk).files with
    | error fault => exact hextract.congr (iff_of_eq (and_true _).symm)
    | ok wasm =>
      obtain ⟨wasm, wasmDigest⟩ := wasm
      have hmounts := hextract.trans (stays_resolveMounts h fuel (h.sha256Hex bytes)
        (nameOverride.getD opened.manifest.component.name) opened.manifest.mounts
        (extract h (h.sha256Hex bytes) opened disk, []))
      have hstage := (hmounts.trans (stays_stageWasm h strict
        (nameOverride.getD opened.manifest.component.name) wasm wasmDigest _)).congr and_assoc
      dsimp only
      split
      · next hstaged =>
        rw [← resolveMounts, hstaged] at hstage
        exact hstage
      · next hstaged =>
        rw [← resolveMounts, hstaged] at hstage
        exact hstage

private theorem noted_install (h : Host) (fuel : Nat) (strict : Bool) (m : Machine)
    (bytes : Bytes) (nameOverride : Option String) {name : String} {component : DesiredComponent}
    (hdesired : (install h fuel strict m bytes nameOverride).1.site.desired[name]? =
      some component) :
    m.site.desired[name]? = some component ∨
      ∀ mounts ∈ component.spec.mounts,
        Noted (install h fuel strict m bytes nameOverride).1.disk mounts := by
  revert hdesired
  unfold install
  dsimp only
  split
  · exact .inl
  · next disk opened _ =>
    split
    · exact .inl
    · next wasm wasmDigest _ =>
      have hempty : Noted (extract h (h.sha256Hex bytes) opened disk) [] :=
        fun _ hin ↦ absurd hin List.not_mem_nil
      have hnoted := noted_resolveMounts h fuel (h.sha256Hex bytes)
        (nameOverride.getD opened.manifest.component.name) opened.manifest.mounts
        (extract h (h.sha256Hex bytes) opened disk, []) hempty
      have hstays := stays_stageWasm h strict (nameOverride.getD opened.manifest.component.name)
        wasm wasmDigest (resolveMounts h fuel (h.sha256Hex bytes)
          (nameOverride.getD opened.manifest.component.name)
          (extract h (h.sha256Hex bytes) opened disk) opened.manifest.mounts).1
      split
      · exact .inl
      · next hstaged =>
        rw [hstaged] at hstays
        intro hdesired
        simp only [Machine.upsert, updatePersistent_keeps, Site.upsertComponent,
          Site.setDesired, Table.getElem?_insert] at hdesired
        split at hdesired
        · cases hdesired
          right
          intro mounts hmounts
          simp only [componentSpec] at hmounts
          split at hmounts
          · cases hmounts
          · cases hmounts
            exact hnoted.later hstays
        · exact .inl hdesired

private theorem stays_removals {dataDir : String} (area : Area) (dir : List String)
    (names : List String) (disk : Disk) :
    Stays dataDir disk (names.foldl (fun disk name ↦ disk.remove area (dir ++ [name])) disk)
      (∀ name ∈ names, Path.Below (area.place dataDir) (dir ++ [name])) := by
  induction names generalizing disk with
  | nil => exact (stays_refl disk).congr (by simp)
  | cons name rest ih =>
    apply ((stays_remove disk area (dir ++ [name])).trans (ih _)).congr
    rw [List.forall_mem_cons]
    rfl

private theorem below_entries_iff {base dir : List String} {names : List String} :
    (∀ name ∈ names, Path.Below base (dir ++ [name])) ↔ names = [] ∨ base <+: dir := by
  constructor
  · intro h
    cases names with
    | nil => exact .inl rfl
    | cons name rest =>
      obtain ⟨hpre, hne⟩ := h name List.mem_cons_self
      exact .inr ((List.prefix_concat_iff.mp hpre).resolve_left hne)
  · rintro (rfl | hpre) name hin
    · cases hin
    · refine ⟨hpre.trans (List.prefix_append _ _), ?_⟩
      rintro rfl
      have hlen := hpre.length_le
      rw [List.length_append, List.length_singleton] at hlen
      omega

private theorem stays_clear (h : Host) (files : Files) (site : Site) (name : String) :
    Stays h.dataDir ⟨files, []⟩ (apiVolumesClear h ⟨⟨files, []⟩, site⟩ name).1.disk
      (VolumeInside h files name) := by
  unfold apiVolumesClear VolumeInside
  split
  · next hblank => exact (stays_refl _).congr (by simp [hblank])
  · next hname =>
    dsimp only
    split
    · next hmissing => exact (stays_refl _).congr (by simp [hmissing])
    · next hfile => exact (stays_refl _).congr (by simp [hfile])
    · next hdir =>
      have hnil (names : List String) : h.arrange names = [] ↔ names = [] := by
        rw [← List.length_eq_zero_iff, (h.arrange_perm names).length_eq, List.length_eq_zero_iff]
      apply (stays_removals .volumes _ _ ⟨files, []⟩).congr
      rw [below_entries_iff, hnil, Path.place_join_eq]
      simp [hname, hdir]

private theorem installPackageFromBytes_fst (h : Host) (fuel : Nat) (m : Machine)
    (bytes : Bytes) (nameOverride : Option String) :
    (installPackageFromBytes h fuel m bytes nameOverride).1 =
      (install h fuel false m bytes nameOverride).1 := by
  unfold installPackageFromBytes
  generalize install h fuel false m bytes nameOverride = outcome
  rfl

private theorem apiDeployPackageMultipart_fst (h : Host) (fuel : Nat) (m : Machine)
    (fields : List Field) :
    (apiDeployPackageMultipart h fuel m fields).1 =
      match readFields fields with
      | (none, _) => m
      | (some bytes, nameOverride) => (install h fuel true m bytes nameOverride).1 := by
  unfold apiDeployPackageMultipart
  obtain ⟨upload, nameOverride⟩ := readFields fields
  cases upload with
  | none => rfl
  | some bytes =>
    dsimp only
    split
    · next hdone => rw [hdone]
    · next hdone => rw [hdone]

private theorem apiVolumesClear_site (h : Host) (m : Machine) (name : String) :
    (apiVolumesClear h m name).1.site = m.site := by
  unfold apiVolumesClear
  dsimp only
  split
  · rfl
  · split <;> rfl

private theorem stays_perform (h : Host) (hsha : ∀ bytes, IsDigest (h.sha256Hex bytes))
    (fuel : Nat) (files : Files) (site : Site) (op : Operation) :
    Stays h.dataDir ⟨files, []⟩ (perform h fuel files site op).disk
      (NamesInside h fuel files op) := by
  cases op with
  | install bytes nameOverride =>
    rw [perform, installPackageFromBytes_fst, NamesInside]
    exact stays_install h hsha fuel false files site bytes nameOverride
  | multipart fields =>
    rw [perform, apiDeployPackageMultipart_fst, NamesInside]
    generalize readFields fields = read
    obtain ⟨upload, nameOverride⟩ := read
    cases upload with
    | none => exact stays_refl _
    | some bytes => exact stays_install h hsha fuel true files site bytes nameOverride
  | clear name =>
    rw [perform, NamesInside]
    exact stays_clear h files site name

private theorem noted_perform (h : Host) (fuel : Nat) (files : Files) (site : Site)
    (op : Operation) {name : String} {component : DesiredComponent}
    (hdesired : (perform h fuel files site op).site.desired[name]? = some component) :
    site.desired[name]? = some component ∨
      ∀ mounts ∈ component.spec.mounts, Noted (perform h fuel files site op).disk mounts := by
  cases op with
  | install bytes nameOverride =>
    rw [perform, installPackageFromBytes_fst] at hdesired ⊢
    exact noted_install h fuel false ⟨⟨files, []⟩, site⟩ bytes nameOverride hdesired
  | multipart fields =>
    rw [perform, apiDeployPackageMultipart_fst] at hdesired ⊢
    generalize readFields fields = read at hdesired ⊢
    obtain ⟨upload, nameOverride⟩ := read
    cases upload with
    | none => exact .inl hdesired
    | some bytes =>
      exact noted_install h fuel true ⟨⟨files, []⟩, site⟩ bytes nameOverride hdesired
  | clear volume =>
    rw [perform, apiVolumesClear_site] at hdesired
    exact .inl hdesired

/-- Every path that an operation changes or hands out is among its uses, and these stay in their
areas below the data directory exactly when the names that the operation is given do. -/
theorem operations_confined_iff (h : Host) (hsha : ∀ bytes, IsDigest (h.sha256Hex bytes))
    (fuel : Nat) (files : Files) (site : Site) (op : Operation) :
    (∀ place, (perform h fuel files site op).disk.files[place]? ≠ files[place]? →
      ∃ use ∈ (perform h fuel files site op).disk.uses, use.Covers place) ∧
    (∀ (name : String) (component : DesiredComponent),
      (perform h fuel files site op).site.desired[name]? = some component →
        site.desired[name]? = some component ∨
          ∀ mounts ∈ component.spec.mounts, ∀ mount ∈ mounts, ∃ area,
            Use.hosts area mount.host ∈ (perform h fuel files site op).disk.uses) ∧
    ((∀ use ∈ (perform h fuel files site op).disk.uses, use.Confined h.dataDir) ↔
      NamesInside h fuel files op) := by
  obtain ⟨used, ⟨huses, hchanged⟩, hiff⟩ := stays_perform h hsha fuel files site op
  rw [List.nil_append] at huses
  refine ⟨?_, fun name component ↦ noted_perform h fuel files site op, ?_⟩
  · rw [huses]
    exact hchanged
  · rw [huses]
    exact hiff

/-- An entry of an archive may lead to the files of the system. -/
example : ¬ Inside "/srv/realm-agent" (.package "d") (Area.dir "/srv/realm-agent" (.package "d"))
    "../../../../../etc/motd" := by
  decide

/-! ### Packages that were written by `package_create` -/

section Created

variable {h : Host} {digest : String}

private theorem place_package (h : Host) (hdigest : IsDigest digest) :
    Path.place (packagesDir h digest) = (Area.package digest).place h.dataDir :=
  Area.place_dir h.dataDir fun d hd ↦ by
    cases hd
    exact hdigest

private theorem inside_of_represents (h : Host) (hdigest : IsDigest digest) {entry : ZipEntry}
    {names : List String} {value : Entry} (hrep : Represents entry names value) :
    Inside h.dataDir (.package digest) (packagesDir h digest) entry.name := by
  have hadmits {text : String} (hnames : Path.Names text names) {place : List String}
      (hin : place ∈ Path.stations (Path.join (packagesDir h digest) text)) :
      (Area.package digest).Admits h.dataDir place := by
    rcases (Path.mem_stations_join_names _ hnames place).mp hin with hbase | ⟨front, hne, -, rfl⟩
    · exact .inl hbase
    · rw [place_package h hdigest]
      exact .inr (below_append _ hne)
  intro place hin
  have hstation := (Path.mem_stations_join_iff _ _ place).mpr (.inl hin)
  cases value with
  | dir =>
    obtain ⟨text, hnames, rfl⟩ := hrep
    exact hadmits hnames ((Path.mem_stations_join_slash _ hnames place).mp hstation)
  | file bytes => exact hadmits hrep.1 hstation

private theorem mountInside_created (compName : String) (hdigest : IsDigest digest)
    (source : Files) (dir : String) {volume : String} (hvolume : Path.Plain volume) :
    ∀ m ∈ createMounts source dir volume, MountInside h digest compName m := by
  have hsource {name : String} (hname : Path.Plain name) :
      EndsBelow h.dataDir .data (packagesDir h digest) (name ++ "/") := by
    rw [EndsBelow, ← Path.place_join_eq, Path.place_join_slash _ (Path.names_plain hname),
      place_package h hdigest, Area.place, Area.place, List.append_assoc]
    exact below_append _ (by simp)
  have hplace : Path.place (Area.volumes.dir h.dataDir) = Area.volumes.place h.dataDir :=
    Area.place_dir h.dataDir nofun
  have hstate : Inside h.dataDir .volumes (Area.volumes.dir h.dataDir) volume ∧
      EndsBelow h.dataDir .volumes (Area.volumes.dir h.dataDir) volume := by
    constructor
    · intro place hin
      have hstation := (Path.mem_stations_join_iff _ _ place).mpr (.inl hin)
      rcases (Path.mem_stations_join_plain _ hvolume place).mp hstation with hbase | rfl
      · exact .inl hbase
      · rw [hplace]
        exact .inr (below_append _ (by simp))
    · rw [EndsBelow, ← Path.place_join_eq, Path.place_join _ hvolume, hplace]
      exact below_append _ (by simp)
  intro m hm
  unfold createMounts at hm
  simp only [List.mem_append, List.mem_ite_nil_right, List.mem_singleton] at hm
  rcases hm with (⟨-, rfl⟩ | ⟨-, rfl⟩) | ⟨-, rfl⟩
  · intro src hsrc
    cases hsrc
    exact hsource (by decide : Path.Plain "static")
  · intro src hsrc
    cases hsrc
    exact hsource (by decide : Path.Plain "config")
  · exact hstate

private theorem digest_of_verifyWasm {manifest : PackageManifest} {files : Files} {wasm : Bytes}
    {wasmDigest : String} (hverify : verifyWasm h digest manifest files = .ok (wasm, wasmDigest)) :
    wasmDigest = h.sha256Hex wasm := by
  unfold verifyWasm at hverify
  dsimp only at hverify
  split at hverify
  · split at hverify
    · cases hverify
    · split at hverify
      · cases hverify
        rfl
      · split at hverify
        · cases hverify
        · cases hverify
          rfl
  · cases hverify

/-- The names of a package that `package_create` wrote stay inside, wherever nothing is in the way
of it. -/
theorem namesInside_created (hsha : ∀ bytes, IsDigest (h.sha256Hex bytes)) {source : Files}
    {dir : String} {wasm : Bytes} (hp : Packable source dir wasm)
    {createOverride installOverride : Option String}
    (hcreate : ∀ name ∈ createOverride, Path.Plain name)
    (hinstall : ∀ name ∈ installOverride, Path.Plain name) {text : String}
    (hwrite : h.writeManifest
      (createManifest h source dir (createName dir createOverride) wasm) = .ok text)
    (hparse : h.parseManifest text =
      .ok (createManifest h source dir (createName dir createOverride) wasm))
    {entries : List ZipEntry} (hentries : createEntries h source dir createOverride = .ok entries)
    (hreads : ReadsBack h.zip entries) (fuel : Nat) {files : Files}
    (hi : Installable h (installTarget h source dir (createName dir createOverride)
      (installOverride.getD (createName dir createOverride)) text (h.zip.write entries) wasm)
        (h.zip.write entries) files) :
    NamesInside h fuel files (.install (h.zip.write entries) installOverride) := by
  have hdigest := hsha (h.zip.write entries)
  have hname := plain_override dir hcreate hinstall
  obtain ⟨disk, hopen⟩ :=
    openPackage_created ⟨files, []⟩ hsha hp hcreate hname hwrite hparse hentries hreads hi
  obtain ⟨_, hentries', hsound, -, -⟩ := createEntries_spec hp createOverride hwrite []
  rw [hentries] at hentries'
  cases hentries'
  unfold NamesInside UploadInside
  dsimp only
  rw [hopen]
  dsimp only
  constructor
  · have hinside : ∀ entry ∈ (entries.map (·.name)).zipIdx,
        Inside h.dataDir (.package (h.sha256Hex (h.zip.write entries)))
          (packagesDir h (h.sha256Hex (h.zip.write entries))) entry.1 := by
      intro entry hin
      have hmem : entry.1 ∈ entries.map (·.name) := (List.mem_zipIdx' hin).2 ▸ List.getElem_mem _
      obtain ⟨written, hwritten, hsame⟩ := List.mem_map.mp hmem
      obtain ⟨names, value, hrep, -⟩ := hsound written hwritten
      rw [← hsame]
      exact inside_of_represents h hdigest hrep
    -- whatever the disk holds when an entry is met
    have hentry : ∀ disk entry, Inside h.dataDir (.package (h.sha256Hex (h.zip.write entries)))
        (packagesDir h (h.sha256Hex (h.zip.write entries))) (Prod.fst entry) →
          EntryInside h (h.sha256Hex (h.zip.write entries)) (h.zip.write entries) disk entry :=
      fun _ _ hin _ ↦ hin
    exact stepsMeet_mono hentry (stepsMeet_of_forall hinside _)
  · split
    · trivial
    · next wasm' wasmDigest hverify =>
      have hcache : Path.Plain (cacheName (installOverride.getD (createName dir createOverride))
          wasmDigest) := by
        rw [digest_of_verifyWasm hverify]
        exact (plain_cacheName hname (hsha _)).1
      refine ⟨mountInside_created _ hdigest source dir (plain_createName dir hcreate),
        .inr (.inr ?_)⟩
      change EndsBelow h.dataDir .data (Path.join h.dataDir "artifacts")
        (cacheName (installOverride.getD (createName dir createOverride)) wasmDigest)
      rw [EndsBelow, ← Path.place_join_eq, Path.place_join _ hcache,
        Path.place_join _ plain_literal.1, List.append_assoc]
      exact below_append _ (by simp)

end Created

/-! ### A request that deletes outside -/

/-- A zip library that meets no archive. -/
def noArchive : ZipLibrary where
  write _ := []
  entryNames _ := .error "invalid Zip archive: Invalid zip header"
  indexOf _ _ := none
  opens _ _ _ := false
  content _ _ _ := ([], none)

/-- An agent of the root user, with `XDG_DATA_HOME` set. -/
def volumeHost : Host where
  toExternals := sampleLibrary
  dataDir := "/srv/realm-agent"
  zip := noArchive
  parseManifest _ := .error "TOML parse error"
  writeManifest _ := .ok ""
  arrange names := names
  arrange_perm names := .refl names

/-- One volume with a file, and a file of the system. -/
def volumeFiles : Files :=
  ([["srv"], ["srv", "realm-agent"], ["srv", "realm-agent", "state"],
    ["srv", "realm-agent", "state", "components"],
    ["srv", "realm-agent", "state", "components", "web"], ["etc"]].foldl
      (fun files place ↦ files.insert place .dir) ((∅ : Files).insert [] .dir)
    |>.insert ["srv", "realm-agent", "state", "components", "web", "db"] (.file [1])).insert
      ["etc", "passwd"] (.file [2])

private theorem isDigest_volumeHost (bytes : Bytes) : IsDigest (volumeHost.sha256Hex bytes) := by
  change IsDigest (if bytes = emptyWasm then _ else _)
  split <;> decide

/-- Clearing the volume by its name stays inside, and so does installing a page with its entries,
its mounts and its seed data, on an empty machine and on one whose volume is in use. -/
theorem operations_confined_iff_volume :
    (NamesInside volumeHost 0 volumeFiles (.clear "web") ∧
      ∀ use ∈ (perform volumeHost 0 volumeFiles {} (.clear "web")).disk.uses,
        use.Confined volumeHost.dataDir) ∧
    ∀ files ∈ [(∅ : Files).insert [] .dir, usedFiles],
      NamesInside pageHost 9 files (.install (pageHost.zip.write pageEntries) none) ∧
        ∀ use ∈ (perform pageHost 9 files {}
            (.install (pageHost.zip.write pageEntries) none)).disk.uses,
          use.Confined pageHost.dataDir := by
  have hnone : ∀ name ∈ (none : Option String), Path.Plain name := by simp
  have hclear : NamesInside volumeHost 0 volumeFiles (.clear "web") :=
    .inr (.inr (.inr (by decide)))
  refine ⟨⟨hclear, ?_⟩, ?_⟩
  · exact (operations_confined_iff volumeHost isDigest_volumeHost 0 volumeFiles {}
      (.clear "web")).2.2.mpr hclear
  · intro files hin
    have htarget : Installable pageHost (installTarget pageHost pageFiles "/home/page"
        (createName "/home/page" none) ((none : Option String).getD (createName "/home/page" none))
          pageToml (pageHost.zip.write pageEntries) emptyWasm) (pageHost.zip.write pageEntries)
            files := by
      rw [Option.getD_none, createName_page]
      exact pageInstallable _ files hin
    have hinstall := namesInside_created isDigest_pageHost pageFiles_packable hnone hnone
      writeManifest_page parseManifest_page pageEntries_created pageEntries_readBack 9 htarget
    exact ⟨hinstall, (operations_confined_iff pageHost isDigest_pageHost 9 files {}
      (.install (pageHost.zip.write pageEntries) none)).2.2.mpr hinstall⟩

/-- A name with `..` components clears a directory of the system. -/
theorem system_file_deleted :
    volumeFiles[["etc", "passwd"]]? = some (.file [2]) ∧
    (perform volumeHost 0 volumeFiles {}
        (.clear "../../../../etc")).disk.files[["etc", "passwd"]]? = none ∧
      ¬ ∀ use ∈ (perform volumeHost 0 volumeFiles {} (.clear "../../../../etc")).disk.uses,
        use.Confined volumeHost.dataDir := by
  decide +kernel

end PeerDeploy.Package
