import PeerDeploy.Deploy.Owner
import PeerDeploy.Package.Unpack
import PeerDeploy.Storage.ContentStore

/-!
# Round trip of packages

Installing what `package_create` wrote: the directories come back file by file, an empty
volume is seeded, and the component gets the mounts of the directories that were there.
-/

namespace PeerDeploy.Package

open PeerDeploy.Common PeerDeploy.Base PeerDeploy.Deploy PeerDeploy.Storage

/-- The directories that a package takes along. -/
def assetNames : List String := ["static", "config", "seed-data"]

/-- What the package directory holds after an extraction, besides the archive. -/
def packageTree (source : Tree) (archive manifest wasm : Bytes) : Tree := fun names ↦
  if names = [] then some .dir
  else if names = ["package.zip"] then some (.file archive)
  else if names = ["manifest.toml"] then some (.file manifest)
  else if names = ["component.wasm"] then some (.file wasm)
  else if ∃ name ∈ assetNames, names.head? = some name then source names
  else none

/-- A directory with a program, in which the asset names are directories if they exist. -/
structure Packable (files : Files) (dir : String) (wasm : Bytes) : Prop where
  reaches : Tree.Reaches files dir
  closed : (Tree.ofFiles files (Path.place dir)).Closed
  program : files[Path.place dir ++ ["component.wasm"]]? = some (.file wasm)
  assets : ∀ name ∈ assetNames, ∀ bytes, files[Path.place dir ++ [name]]? ≠ some (.file bytes)

/-! ### The tree of a package -/

section PackageTree

variable {source : Tree} {archive manifest wasm : Bytes}

private theorem packageTree_root : packageTree source archive manifest wasm [] = some .dir := rfl

private theorem packageTree_archive :
    packageTree source archive manifest wasm ["package.zip"] = some (.file archive) := by
  simp [packageTree]

private theorem packageTree_manifest :
    packageTree source archive manifest wasm ["manifest.toml"] = some (.file manifest) := by
  simp [packageTree]

private theorem packageTree_wasm :
    packageTree source archive manifest wasm ["component.wasm"] = some (.file wasm) := by
  simp [packageTree]

private theorem packageTree_asset {name : String} (h : name ∈ assetNames) (rest : List String) :
    packageTree source archive manifest wasm (name :: rest) = source (name :: rest) := by
  have hne : name ≠ "package.zip" ∧ name ≠ "manifest.toml" ∧ name ≠ "component.wasm" := by
    simp only [assetNames, List.mem_cons, List.not_mem_nil, or_false] at h
    rcases h with rfl | rfl | rfl <;> decide
  have hasset : ∃ other ∈ assetNames, (name :: rest).head? = some other := ⟨name, h, rfl⟩
  rw [packageTree, if_neg (by simp), if_neg (by simp [hne.1]), if_neg (by simp [hne.2.1]),
    if_neg (by simp [hne.2.2]), if_pos hasset]

private theorem packageTree_cases {names : List String} {value : Entry}
    (h : packageTree source archive manifest wasm names = some value) :
    names = [] ∧ value = .dir ∨ names = ["package.zip"] ∧ value = .file archive ∨
      names = ["manifest.toml"] ∧ value = .file manifest ∨
      names = ["component.wasm"] ∧ value = .file wasm ∨
      ∃ name ∈ assetNames, ∃ rest, names = name :: rest ∧ source names = some value := by
  unfold packageTree at h
  split at h
  · next hnil =>
    cases h
    exact .inl ⟨hnil, rfl⟩
  split at h
  · next hzip =>
    cases h
    exact .inr (.inl ⟨hzip, rfl⟩)
  split at h
  · next hmanifest =>
    cases h
    exact .inr (.inr (.inl ⟨hmanifest, rfl⟩))
  split at h
  · next hwasm =>
    cases h
    exact .inr (.inr (.inr (.inl ⟨hwasm, rfl⟩)))
  split at h
  · next hasset =>
    obtain ⟨name, hname, hhead⟩ := hasset
    obtain ⟨rest, rfl⟩ := List.head?_eq_some_iff.mp hhead
    exact .inr (.inr (.inr (.inr ⟨name, hname, rest, rfl, h⟩)))
  · cases h

private theorem packageTree_closed (h : source.Closed) :
    (packageTree source archive manifest wasm).Closed := by
  have hfile {names : List String} {name file : String} (heq : names ++ [name] = [file])
      (hplain : Path.Plain file) : Path.Plain name ∧ names = [] := by
    have hlen := congrArg List.length heq
    rw [List.length_append, List.length_singleton, List.length_singleton] at hlen
    have hnil : names = [] := List.length_eq_zero_iff.mp (by omega)
    rw [hnil, List.nil_append, List.cons.injEq] at heq
    exact ⟨heq.1 ▸ hplain, hnil⟩
  have hboth (names : List String) (name : String)
      (hsome : (packageTree source archive manifest wasm (names ++ [name])).isSome) :
      Path.Plain name ∧ packageTree source archive manifest wasm names = some .dir := by
    obtain ⟨value, hvalue⟩ := Option.isSome_iff_exists.mp hsome
    rcases packageTree_cases hvalue with ⟨hnil, -⟩ | ⟨heq, -⟩ | ⟨heq, -⟩ | ⟨heq, -⟩ |
      ⟨asset, hasset, rest, heq, hsource⟩
    · exact absurd hnil (by simp)
    · obtain ⟨hplain, rfl⟩ := hfile heq (by decide)
      exact ⟨hplain, packageTree_root⟩
    · obtain ⟨hplain, rfl⟩ := hfile heq (by decide)
      exact ⟨hplain, packageTree_root⟩
    · obtain ⟨hplain, rfl⟩ := hfile heq (by decide)
      exact ⟨hplain, packageTree_root⟩
    · have hin := Option.isSome_of_eq_some hsource
      refine ⟨h.plain names name hin, ?_⟩
      cases names with
      | nil => exact packageTree_root
      | cons first others =>
        rw [List.cons_append, List.cons.injEq] at heq
        obtain ⟨rfl, -⟩ := heq
        rw [packageTree_asset hasset]
        exact h.parent _ name hin
  exact ⟨fun names name hsome ↦ (hboth names name hsome).1,
    fun names name hsome ↦ (hboth names name hsome).2⟩

end PackageTree

/-! ### What is packed -/

section Pack

variable {h : Host} {files : Files} {dir : String} {wasm : Bytes}

private theorem plain_asset {name : String} (h : name ∈ assetNames) : Path.Plain name := by
  simp only [assetNames, List.mem_cons, List.not_mem_nil, or_false] at h
  rcases h with rfl | rfl | rfl <;> decide

private theorem lookup_asset (hp : Packable files dir wasm) {name : String}
    (hname : name ∈ assetNames) :
    files.lookup (Path.join dir name) = files[Path.place dir ++ [name]]? ∧
      (files[Path.place dir ++ [name]]? = none ∨
        files[Path.place dir ++ [name]]? = some .dir) := by
  refine ⟨Tree.lookup_join hp.reaches (plain_asset hname), ?_⟩
  cases hfound : files[Path.place dir ++ [name]]? with
  | none => exact .inl rfl
  | some entry =>
    cases entry with
    | dir => exact .inr rfl
    | file bytes => exact absurd hfound (hp.assets name hname bytes)

private theorem addAssets_spec (h : Host) (hp : Packable files dir wasm) {name : String}
    (hname : name ∈ assetNames) :
    ∃ entries, addAssets h files dir name = .ok entries ∧
      Lists (fun rest ↦ files[Path.place dir ++ name :: rest]?) [name] entries := by
  obtain ⟨hlookup, hmissing | hdir⟩ := lookup_asset hp hname
  · refine ⟨[], ?_, ⟨?_, ?_⟩⟩
    · rw [addAssets, hlookup, hmissing]
    · intro entry hin
      cases hin
    · intro rest value htree
      have hin : (Tree.ofFiles files (Path.place dir) (name :: rest)).isSome :=
        Option.isSome_of_eq_some htree
      have hchild := (Files.mem_children.mp (Tree.mem_children_of_isSome hp.closed hin)).2
      rw [hmissing] at hchild
      cases hchild
  · have hplain := plain_asset hname
    have hplace := Path.place_join dir hplain
    have hsub : Tree.ofFiles files (Path.place (Path.join dir name)) =
        fun rest ↦ files[Path.place dir ++ name :: rest]? := by
      rw [hplace, Tree.ofFiles_append]
      rfl
    have hdepth (names : List String)
        (hsome : (Tree.ofFiles files (Path.place (Path.join dir name)) names).isSome) :
        names.length < files.depth + 1 := by
      have hle := Files.length_le_depth hsome
      rw [List.length_append] at hle
      omega
    obtain ⟨entries, hok, hlists⟩ := addDirToZip_spec h
      (Tree.reaches_join hp.reaches hplain hdir) (Path.names_plain hplain)
      (by
        rw [hplace, Tree.ofFiles_append]
        exact hp.closed.sub [name]) hdepth
    rw [hsub] at hlists
    refine ⟨entries, ?_, hlists⟩
    rw [addAssets, hlookup, hdir]
    exact hok

/-- The archive of a directory lists what an extraction is to leave. -/
theorem createEntries_spec (hp : Packable files dir wasm) (nameOverride : Option String)
    {text : String}
    (htext : h.writeManifest (createManifest h files dir (createName dir nameOverride) wasm) =
      .ok text) (archive : Bytes) :
    ∃ entries, createEntries h files dir nameOverride = .ok entries ∧
      (∀ entry ∈ entries, ∃ names value, Represents entry names value ∧
        packageTree (Tree.ofFiles files (Path.place dir)) archive (asBytes text) wasm names =
          some value ∧ names ≠ ["package.zip"]) ∧
      (∀ names value, names ≠ [] → names ≠ ["package.zip"] →
        packageTree (Tree.ofFiles files (Path.place dir)) archive (asBytes text) wasm names =
          some value → ∃ entry ∈ entries, Represents entry names value) ∧
      ∃ entry ∈ entries, entry.name = "manifest.toml" := by
  obtain ⟨static, hstatic, hlist⟩ := addAssets_spec h hp (show "static" ∈ assetNames by decide)
  obtain ⟨config, hconfig, hlist'⟩ := addAssets_spec h hp (show "config" ∈ assetNames by decide)
  obtain ⟨seed, hseed, hlist''⟩ := addAssets_spec h hp (show "seed-data" ∈ assetNames by decide)
  have hmanifest : Path.Names "manifest.toml" ["manifest.toml"] := Path.names_plain (by decide)
  have hcomponent : Path.Names "component.wasm" ["component.wasm"] := Path.names_plain (by decide)
  have hprogram : files.lookup (Path.join dir "component.wasm") = some (.file wasm) := by
    rw [Tree.lookup_join hp.reaches (by decide), hp.program]
  have hexists : files.pathExists (Path.join dir "component.wasm") = true := by
    rw [Files.pathExists, hprogram]
    rfl
  have hread := Files.readPath_eq_ok.mpr hprogram
  have hassets (name : String) (entries : List ZipEntry)
      (hname : name ∈ assetNames)
      (hlists : Lists (fun rest ↦ files[Path.place dir ++ name :: rest]?) [name] entries) :
      ∀ entry ∈ entries, ∃ names value, Represents entry names value ∧
        packageTree (Tree.ofFiles files (Path.place dir)) archive (asBytes text) wasm names =
          some value ∧ names ≠ ["package.zip"] := by
    intro entry hin
    obtain ⟨rest, value, htree, hrep⟩ := hlists.sound entry hin
    refine ⟨name :: rest, value, hrep, ?_, ?_⟩
    · rw [packageTree_asset hname]
      exact htree
    · intro heq
      rw [List.cons.injEq] at heq
      rw [heq.1] at hname
      exact absurd hname (by decide)
  refine ⟨[⟨"manifest.toml", asBytes text⟩, ⟨"component.wasm", wasm⟩] ++ static ++ config ++ seed,
    ?_, ?_, ?_, ?_⟩
  · rw [createEntries, if_neg (by simpa using Tree.lookup_eq_dir.mpr hp.reaches),
      if_neg (by simpa using hexists), hread, hstatic, hconfig, hseed]
    simp only [Except.mapError, bind, Except.bind, htext]
    rfl
  · intro entry hin
    simp only [List.mem_append, List.mem_cons, List.not_mem_nil, or_false] at hin
    rcases hin with (((rfl | rfl) | hin) | hin) | hin
    · exact ⟨["manifest.toml"], .file (asBytes text), ⟨hmanifest, rfl⟩, packageTree_manifest,
        by decide⟩
    · exact ⟨["component.wasm"], .file wasm, ⟨hcomponent, rfl⟩, packageTree_wasm, by decide⟩
    · exact hassets "static" static (by decide) hlist entry hin
    · exact hassets "config" config (by decide) hlist' entry hin
    · exact hassets "seed-data" seed (by decide) hlist'' entry hin
  · intro names value hnil hzip htree
    rcases packageTree_cases htree with ⟨rfl, -⟩ | ⟨rfl, -⟩ | ⟨rfl, rfl⟩ | ⟨rfl, rfl⟩ |
      ⟨asset, hasset, rest, rfl, hsource⟩
    · exact absurd rfl hnil
    · exact absurd rfl hzip
    · exact ⟨⟨"manifest.toml", asBytes text⟩, by simp, hmanifest, rfl⟩
    · exact ⟨⟨"component.wasm", wasm⟩, by simp, hcomponent, rfl⟩
    · simp only [assetNames, List.mem_cons, List.not_mem_nil, or_false] at hasset
      rcases hasset with rfl | rfl | rfl
      · obtain ⟨entry, hin, hrep⟩ := hlist.complete rest value hsource
        exact ⟨entry, by simp [hin], hrep⟩
      · obtain ⟨entry, hin, hrep⟩ := hlist'.complete rest value hsource
        exact ⟨entry, by simp [hin], hrep⟩
      · obtain ⟨entry, hin, hrep⟩ := hlist''.complete rest value hsource
        exact ⟨entry, by simp [hin], hrep⟩
  · exact ⟨⟨"manifest.toml", asBytes text⟩, by simp, rfl⟩

end Pack

/-! ### Where a package is installed -/

/-- The directories below the data directory that an installation makes. -/
def madeDirs (digest volume : String) : List (List String) :=
  [["artifacts"], ["artifacts", "packages"], ["artifacts", "packages", digest], ["state"],
    ["state", "components"], ["state", "components", volume]]

/-- The name of the cached program below `artifacts`. -/
def cacheName (name digest : String) : String := s!"{name}-{digestHead digest}.wasm"

/-- What an installation leaves, and where: the tree of the package, the digest of its archive,
the volume, the cached program. -/
structure Target where
  tree : Tree
  digest : String
  volume : String
  cache : String
  wasm : Bytes

/-- The directory of the package. -/
def Target.package (t : Target) (h : Host) : List String :=
  Path.place h.dataDir ++ ["artifacts", "packages", t.digest]

/-- The directory of the volume. -/
def Target.host (t : Target) (h : Host) : List String :=
  Path.place h.dataDir ++ ["state", "components", t.volume]

/-- Nothing is in the way: the directories are there or can be made, the package directory holds
nothing that the package has not, and the cache holds no other program. -/
structure Vacant (h : Host) (t : Target) (files : Files) : Prop where
  home : ∀ place ∈ Path.stations h.dataDir, files[place]? = some .dir ∨
    files[place]? = none ∧ ¬ Path.Below (Path.place h.dataDir) place
  dirs : ∀ names ∈ madeDirs t.digest t.volume, ∀ bytes,
    files[Path.place h.dataDir ++ names]? ≠ some (.file bytes)
  fits : t.tree.Fits (t.package h) files
  cached : files[Path.place h.dataDir ++ ["artifacts", t.cache]]? = none ∨
    files[Path.place h.dataDir ++ ["artifacts", t.cache]]? = some (.file t.wasm)

/-- The volume holds what it held before. -/
def VolumeKept (h : Host) (t : Target) (before after : Files) : Prop :=
  ∀ names, names ≠ [] → after[t.host h ++ names]? = before[t.host h ++ names]?

/-- A target as packages have it. -/
structure Target.Sound (t : Target) : Prop where
  root : t.tree [] = some .dir
  digest : Path.Plain t.digest
  volume : Path.Plain t.volume
  cache : t.cache ≠ "packages"

section Vacant

variable {h : Host} {t : Target} {files : Files} {path : String}

-- The path goes along the directories that an installation makes.
private def OnWay (h : Host) (t : Target) (path : String) : Prop :=
  ∀ place ∈ Path.stations path, place ∈ Path.stations h.dataDir ∨
    ∃ names ∈ madeDirs t.digest t.volume, place = Path.place h.dataDir ++ names

private theorem plain_dirs : Path.Plain "artifacts" ∧ Path.Plain "packages" ∧
    Path.Plain "state" ∧ Path.Plain "components" := by
  decide

private theorem onWay_artifacts (h : Host) (t : Target) :
    OnWay h t (Path.join h.dataDir "artifacts") := by
  intro place hin
  rcases (Path.mem_stations_join_plain _ plain_dirs.1 place).mp hin with hhome | rfl
  · exact .inl hhome
  · exact .inr ⟨["artifacts"], by simp [madeDirs], rfl⟩

private theorem onWay_package (h : Host) (ht : t.Sound) : OnWay h t (packagesDir h t.digest) := by
  obtain ⟨hartifacts, hpackages, -⟩ := plain_dirs
  intro place hin
  rcases (Path.mem_stations_join_plain _ ht.digest place).mp hin with hin | rfl
  · rcases (Path.mem_stations_join_plain _ hpackages place).mp hin with hin | rfl
    · exact onWay_artifacts h t place hin
    · refine .inr ⟨["artifacts", "packages"], by simp [madeDirs], ?_⟩
      rw [Path.place_join _ hartifacts, List.append_assoc, List.singleton_append]
  · refine .inr ⟨["artifacts", "packages", t.digest], by simp [madeDirs], ?_⟩
    rw [Path.place_join _ hpackages, Path.place_join _ hartifacts, List.append_assoc,
      List.append_assoc, List.singleton_append, List.singleton_append]

private theorem place_packagesDir (h : Host) (ht : t.Sound) :
    Path.place (packagesDir h t.digest) = t.package h := by
  obtain ⟨hartifacts, hpackages, -⟩ := plain_dirs
  rw [packagesDir, Area.dir, Path.place_join _ ht.digest, Path.place_join _ hpackages,
    Path.place_join _ hartifacts, List.append_assoc, List.append_assoc]
  rfl

private theorem Vacant.createDirs_same (hv : Vacant h t files) (hway : OnWay h t path)
    {names : List String} (hne : names ≠ []) (hnot : names ∉ madeDirs t.digest t.volume) :
    (files.createDirs (Path.stations path))[Path.place h.dataDir ++ names]? =
      files[Path.place h.dataDir ++ names]? := by
  rcases Files.createDirs_getElem? files (Path.stations path) (Path.place h.dataDir ++ names) with
    hsame | ⟨hin, hnone, -⟩
  · exact hsame
  · rcases hway _ hin with hhome | ⟨others, hothers, heq⟩
    · rcases hv.home _ hhome with hdir | ⟨-, hbelow⟩
      · rw [hdir] at hnone
        cases hnone
      · refine absurd ⟨List.prefix_append _ _, fun he ↦ hne ?_⟩ hbelow
        exact List.self_eq_append_right.mp he
    · rw [List.append_cancel_left heq] at hnot
      exact absurd hothers hnot

private theorem Vacant.createDirs_volume (hv : Vacant h t files) (hway : OnWay h t path) :
    VolumeKept h t files (files.createDirs (Path.stations path)) := by
  intro names hne
  rw [Target.host, List.append_assoc]
  exact hv.createDirs_same hway (by simp) (by simp [madeDirs, hne])

private theorem Vacant.makeDirs (hv : Vacant h t files) (ht : t.Sound) (hway : OnWay h t path)
    (hdot : Path.endsInDot path = false) :
    (files.makeDirs path).2 = none ∧ Tree.Reaches (files.makeDirs path).1 path ∧
      Vacant h t (files.makeDirs path).1 ∧ VolumeKept h t files (files.makeDirs path).1 := by
  have hmade : (files.makeDirs path).1 = files.createDirs (Path.stations path) := by
    rw [Files.makeDirs_fst, Files.madeBy, hdot]
    rfl
  have hfree (place : List String) (hin : place ∈ Path.stations path) (bytes : Bytes) :
      files[place]? ≠ some (.file bytes) := by
    rcases hway place hin with hhome | ⟨names, hnames, rfl⟩
    · rcases hv.home place hhome with hdir | ⟨hnone, -⟩
      · simp [hdir]
      · simp [hnone]
    · exact hv.dirs names hnames bytes
  have hreach : Tree.Reaches (files.makeDirs path).1 path := by
    intro place hin
    rw [hmade]
    exact Files.createDirs_dir hfree hin
  have hsame (names : List String) (hne : names ≠ [])
      (hnot : names ∉ madeDirs t.digest t.volume) := hv.createDirs_same hway hne hnot
  refine ⟨Files.makeDirs_snd_eq_none.mpr (Tree.lookup_eq_dir.mpr hreach), hreach, ?_, ?_⟩
  swap
  · rw [hmade]
    exact hv.createDirs_volume hway
  rw [hmade]
  refine ⟨?_, ?_, ?_, ?_⟩
  · intro place hin
    rcases Files.createDirs_getElem? files (Path.stations path) place with hsame | ⟨-, -, hdir⟩
    · rw [hsame]
      exact hv.home place hin
    · exact .inl hdir
  · intro names hin bytes
    rcases Files.createDirs_getElem? files (Path.stations path)
      (Path.place h.dataDir ++ names) with hsame | ⟨-, -, hdir⟩
    · rw [hsame]
      exact hv.dirs names hin bytes
    · simp [hdir]
  · intro names entry hentry
    rcases Files.createDirs_getElem? files (Path.stations path) (t.package h ++ names) with
      hold | ⟨-, -, hdir⟩
    · rw [hold] at hentry
      exact hv.fits names entry hentry
    · by_cases hnil : names = []
      · rw [hdir] at hentry
        cases hentry
        rw [hnil]
        exact ⟨.dir, ht.root, Iff.rfl⟩
      · rw [Target.package, List.append_assoc, hsame _ (by simp) (by simp [madeDirs, hnil]),
          ← List.append_assoc] at hentry
        exact hv.fits names entry hentry
  · rw [hsame _ (by simp) (by simp [madeDirs, ht.cache])]
    exact hv.cached

private theorem Vacant.fills {after : Files} (hv : Vacant h t files) (ht : t.Sound)
    (hfills : t.tree.Fills (t.package h) files after) : Vacant h t after where
  home place hin := by
    rcases hv.home place hin with hdir | ⟨hnone, hbelow⟩
    · exact .inl (hfills.dirs place hdir)
    · rw [hfills.outside]
      · exact .inr ⟨hnone, hbelow⟩
      · rintro ⟨rest, rfl⟩
        apply hbelow
        rw [Target.package, List.append_assoc]
        exact ⟨List.prefix_append _ _, fun he ↦ by simpa using List.self_eq_append_right.mp he⟩
  dirs names hin bytes := by
    by_cases hpackage : names = ["artifacts", "packages", t.digest]
    · intro hfile
      rw [hpackage] at hfile
      obtain ⟨planned, hplanned, hkind⟩ :=
        hfills.fits hv.fits [] (.file bytes) (by rw [List.append_nil]; exact hfile)
      rw [ht.root] at hplanned
      cases hplanned
      cases hkind.mpr rfl
    · rw [hfills.outside]
      · exact hv.dirs names hin bytes
      · rw [Target.package, List.prefix_append_right_inj]
        intro hpre
        have hlen := hpre.length_le
        simp only [madeDirs, List.mem_cons, List.not_mem_nil, or_false] at hin
        rcases hin with rfl | rfl | rfl | rfl | rfl | rfl <;> simp_all
  fits := hfills.fits hv.fits
  cached := by
    rw [hfills.outside]
    · exact hv.cached
    · rw [Target.package, List.prefix_append_right_inj]
      simp

private theorem volumeKept_of_fills {after : Files}
    (hfills : t.tree.Fills (t.package h) files after) : VolumeKept h t files after := by
  intro names _
  apply hfills.outside
  rw [Target.package, Target.host, List.append_assoc, List.prefix_append_right_inj]
  simp

end Vacant

section Phases

variable {h : Host} {t : Target} {entries : List ZipEntry} {disk : Disk}

private theorem readPackage_spec {text : String} {manifest : PackageManifest} {files : Files}
    (ht : t.Sound) (hreads : ReadsBack h.zip entries)
    (hreach : Tree.Reaches files (packagesDir h t.digest))
    (hstaged : files[t.package h ++ ["package.zip"]]? = some (.file (h.zip.write entries)))
    (hsound : ∀ entry ∈ entries, ∃ names value, Represents entry names value ∧
      t.tree names = some value ∧ names ≠ ["package.zip"])
    (hlists : "manifest.toml" ∈ entries.map (·.name))
    (htree : t.tree ["manifest.toml"] = some (.file (asBytes text)))
    (hparse : h.parseManifest text = .ok manifest) :
    readPackage h t.digest files =
      .ok ⟨h.zip.write entries, entries.map (·.name), manifest⟩ := by
  have hlookup : files.lookup (zipPath h t.digest) = some (.file (h.zip.write entries)) := by
    rw [zipPath, Tree.lookup_join hreach (by decide), place_packagesDir h ht, hstaged]
  obtain ⟨i, entry, hentry, hname, hindex⟩ := hreads.finds _ hlists
  have hopens := hreads.opens i (List.getElem?_eq_some_iff.mp hentry).1
  have hcontent := hreads.content i entry hentry
  -- the entry is the manifest, since no directory has its name
  have hbytes : entry.bytes = asBytes text := by
    obtain ⟨names, value, hrep, hvalue, -⟩ := hsound entry (List.mem_of_getElem? hentry)
    cases value with
    | dir =>
      obtain ⟨front, -, rfl⟩ := hrep
      have hlast := congrArg (fun name : String ↦ name.toList.getLast?) hname
      simp at hlast
    | file bytes =>
      obtain ⟨hnames, rfl⟩ := hrep
      rw [hname] at hnames
      rw [Path.names_unique hnames (Path.names_plain (by decide)), htree] at hvalue
      exact (Entry.file.inj (Option.some.inj hvalue)).symm
  unfold readPackage
  rw [hlookup]
  dsimp only
  rw [hreads.names, hindex]
  simp only [Except.mapError, bind, Except.bind, hopens, hcontent, hbytes, fromUTF8_asBytes,
    hparse, if_true]
  rfl

private theorem openPackage_spec {text : String} {manifest : PackageManifest}
    (hv : Vacant h t disk.files) (ht : t.Sound) (hreads : ReadsBack h.zip entries)
    (hclosed : t.tree.Closed)
    (harchive : t.tree ["package.zip"] = some (.file (h.zip.write entries)))
    (hstaged : disk.files[t.package h ++ ["package.zip"]]? = none ∨
      disk.files[t.package h ++ ["package.zip"]]? = some (.file (h.zip.write entries)))
    (hsound : ∀ entry ∈ entries, ∃ names value, Represents entry names value ∧
      t.tree names = some value ∧ names ≠ ["package.zip"])
    (hlists : "manifest.toml" ∈ entries.map (·.name))
    (htree : t.tree ["manifest.toml"] = some (.file (asBytes text)))
    (hparse : h.parseManifest text = .ok manifest) :
    ∃ after, openPackage h t.digest disk (h.zip.write entries) =
        (after, .ok ⟨h.zip.write entries, entries.map (·.name), manifest⟩) ∧
      Vacant h t after.files ∧
      ExtractReady h t.digest (h.zip.write entries) t.tree after.files ∧
      VolumeKept h t disk.files after.files := by
  have hdot : Path.endsInDot (packagesDir h t.digest) = false :=
    (Path.endsInDot_join_names _ (Path.names_plain ht.digest)).1
  have hplace := place_packagesDir h ht
  have hzipPlace : Path.place (zipPath h t.digest) = t.package h ++ ["package.zip"] := by
    rw [zipPath, Path.place_join _ (by decide), hplace]
  obtain ⟨hnone, hreach, hv', hkept⟩ := hv.makeDirs ht (onWay_package h ht) hdot
  have hsame : (disk.files.makeDirs (packagesDir h t.digest)).1[t.package h ++ ["package.zip"]]? =
      disk.files[t.package h ++ ["package.zip"]]? := by
    rw [Files.makeDirs_fst, Files.madeBy, hdot, Target.package, List.append_assoc]
    exact hv.createDirs_same (onWay_package h ht) (by simp) (by simp [madeDirs])
  rw [← hsame] at hstaged
  have hready (after : Files) (hreach : Tree.Reaches after (packagesDir h t.digest))
      (hv : Vacant h t after)
      (hfile : after[t.package h ++ ["package.zip"]]? = some (.file (h.zip.write entries))) :
      ExtractReady h t.digest (h.zip.write entries) t.tree after := by
    refine ⟨hreach, hclosed, ?_, harchive, ?_⟩
    · rw [hplace]
      exact hv.fits
    · rw [hplace]
      exact hfile
  rw [← makeDirs_error disk (.package t.digest)] at hnone
  rw [← makeDirs_files disk (.package t.digest)] at hreach hv' hstaged hkept
  unfold openPackage
  generalize disk.makeDirs (.package t.digest) (packagesDir h t.digest) = outcome
    at hnone hreach hv' hstaged hkept
  obtain ⟨made, error⟩ := outcome
  dsimp only at hnone hreach hv' hstaged hkept ⊢
  subst hnone
  dsimp only
  rcases hstaged with hfree | hstaged
  · have hlookup : made.files.pathExists (zipPath h t.digest) = false := by
      rw [Files.pathExists, zipPath, Tree.lookup_join hreach (by decide), hplace, hfree]
      rfl
    have hfills : t.tree.Fills (t.package h) made.files
        (made.files.insert (t.package h ++ ["package.zip"]) (.file (h.zip.write entries))) :=
      Tree.fills_insert harchive (by simp [hfree])
    have happroach : ∀ place ∈ Path.approach (zipPath h t.digest),
        made.files[place]? = some .dir := by
      intro place hin
      exact hreach place ((Path.mem_approach_join_plain _ (by decide) place).mp hin)
    have hparent : made.files[(t.package h ++ ["package.zip"]).dropLast]? = some .dir := by
      rw [List.dropLast_concat, ← hplace]
      exact hreach _ (Path.place_mem_stations _)
    obtain ⟨herror, hwritten⟩ := write_spec (.writes (.package t.digest) (zipPath h t.digest))
      (h.zip.write entries) hzipPlace happroach hparent hv'.fits harchive
    rw [hlookup, if_neg (by simp)]
    generalize made.write (.writes (.package t.digest) (zipPath h t.digest))
      (zipPath h t.digest) (h.zip.write entries) = outcome at herror hwritten
    obtain ⟨written, error⟩ := outcome
    dsimp only at herror hwritten ⊢
    subst herror
    rw [← hwritten] at hfills
    have hfile : written.files[t.package h ++ ["package.zip"]]? =
        some (.file (h.zip.write entries)) := by
      rw [hwritten, Table.getElem?_insert, if_pos rfl]
    have hreach' := hreach.mono hfills.dirs
    refine ⟨written, ?_, hv'.fills ht hfills, hready _ hreach' (hv'.fills ht hfills) hfile,
      fun names hne ↦ (volumeKept_of_fills hfills names hne).trans (hkept names hne)⟩
    dsimp only
    rw [readPackage_spec ht hreads hreach' hfile hsound hlists htree hparse]
  · have hlookup : made.files.pathExists (zipPath h t.digest) = true := by
      rw [Files.pathExists, zipPath, Tree.lookup_join hreach (by decide), hplace, hstaged]
      rfl
    refine ⟨made, ?_, hv', hready _ hreach hv' hstaged, hkept⟩
    rw [hlookup, if_pos rfl, readPackage_spec ht hreads hreach hstaged hsound hlists htree hparse]

end Phases

/-! ### The round trip -/

section RoundTrip

variable {h : Host} {source : Files} {dir : String} {wasm : Bytes}

/-- What the installation of a packed directory is to leave. -/
def installTarget (h : Host) (source : Files) (dir volume name text : String)
    (archive wasm : Bytes) : Target where
  tree := packageTree (Tree.ofFiles source (Path.place dir)) archive (asBytes text) wasm
  digest := h.sha256Hex archive
  volume
  cache := cacheName name (h.sha256Hex wasm)
  wasm

/-- Nothing is in the way of the package, its archive is staged at most as it is, the volume is
a tree, and a file system takes the names of the volume and of the program (`NAME_MAX`). -/
structure Installable (h : Host) (t : Target) (archive : Bytes) (files : Files) : Prop
    extends Vacant h t files where
  staged : files[t.package h ++ ["package.zip"]]? = none ∨
    files[t.package h ++ ["package.zip"]]? = some (.file archive)
  tree : (Tree.ofFiles files (t.host h)).Closed
  short : t.volume.utf8ByteSize ≤ 255 ∧ t.cache.utf8ByteSize ≤ 255

/-- The name of a package is a file name. -/
theorem plain_createName (dir : String) {nameOverride : Option String}
    (h : ∀ name ∈ nameOverride, Path.Plain name) : Path.Plain (createName dir nameOverride) := by
  unfold createName
  cases nameOverride with
  | some name => exact h name rfl
  | none =>
    cases hname : Path.fileName dir with
    | none => decide
    | some name => exact Path.plain_fileName hname

/-- So is the name of a cached program, and another one than that of the packages. -/
theorem plain_cacheName {name digest : String} (hname : Path.Plain name)
    (hdigest : IsDigest digest) :
    Path.Plain (cacheName name digest) ∧ cacheName name digest ≠ "packages" := by
  have hlist : (cacheName name digest).toList =
      name.toList ++ '-' :: (digest.toList.take 16 ++ ".wasm".toList) := by
    change (name ++ "-" ++ String.ofList (digest.toList.take 16) ++ ".wasm").toList = _
    simp [String.toList_append]
  have hlast : (cacheName name digest).toList.getLast? = some 'm' := by
    rw [hlist, ← List.cons_append, ← List.append_assoc, List.getLast?_append]
    rfl
  have hne (other : String) (h : other.toList.getLast? ≠ some 'm') :
      cacheName name digest ≠ other := by
    rintro rfl
    exact h hlast
  refine ⟨⟨hne _ (by decide), hne _ (by decide), hne _ (by decide), ?_⟩, hne _ (by decide)⟩
  rw [hlist]
  intro hin
  rcases List.mem_append.mp hin with hin | hin
  · exact hname.2.2.2 hin
  · rcases List.mem_cons.mp hin with heq | hin
    · exact absurd heq (by decide)
    · rcases List.mem_append.mp hin with hin | hin
      · exact ((plain_of_isDigest hdigest).2 _ (List.mem_of_mem_take hin)).2.1 rfl
      · exact absurd hin (by decide)

/-- The mounts of a component are those that were resolved. -/
theorem getD_mounts (digest : String) (mounts : List MountSpec) :
    (componentSpec digest mounts).mounts.getD [] = mounts := by
  unfold componentSpec
  cases mounts <;> rfl

/-- An installed component is desired with its cached program. -/
theorem upsert_desired (h : Host) (m : Machine) (name digest : String)
    (mounts : List MountSpec) :
    (m.upsert h name digest mounts).site.desired[name]? =
      some { name, path := artifactPath h.dataDir name digest,
             spec := componentSpec digest mounts } := by
  unfold Machine.upsert
  dsimp only
  rw [(updatePersistent_keeps _ _ _ _).1]
  exact Std.ExtTreeMap.getElem?_insert_self

-- The target is what the entries of the packed directory make, with the manifest's text.
private structure Packs (h : Host) (source : Files) (dir text : String) (entries : List ZipEntry)
    (t : Target) : Prop extends t.Sound where
  packable : Packable source dir t.wasm
  reads : ReadsBack h.zip entries
  closed : t.tree.Closed
  sound : ∀ entry ∈ entries, ∃ names value, Represents entry names value ∧
    t.tree names = some value ∧ names ≠ ["package.zip"]
  complete : ∀ names value, names ≠ [] → names ≠ ["package.zip"] →
    t.tree names = some value → ∃ entry ∈ entries, Represents entry names value
  lists : "manifest.toml" ∈ entries.map (·.name)
  archive : t.tree ["package.zip"] = some (.file (h.zip.write entries))
  manifest : t.tree ["manifest.toml"] = some (.file (asBytes text))
  program : t.tree ["component.wasm"] = some (.file t.wasm)
  assets : ∀ asset ∈ assetNames, ∀ names, t.tree (asset :: names) =
    Tree.ofFiles source (Path.place dir) (asset :: names)
  digest_eq : t.digest = h.sha256Hex (h.zip.write entries)
  parses : h.parseManifest text = .ok (createManifest h source dir t.volume t.wasm)

private theorem Packs.opened {t : Target} {text : String} {entries : List ZipEntry} {disk : Disk}
    (ht : Packs h source dir text entries t)
    (hi : Installable h t (h.zip.write entries) disk.files) :
    ∃ after, openPackage h t.digest disk (h.zip.write entries) =
        (after, .ok ⟨h.zip.write entries, entries.map (·.name),
          createManifest h source dir t.volume t.wasm⟩) ∧
      Vacant h t after.files ∧
      ExtractReady h t.digest (h.zip.write entries) t.tree after.files ∧
      VolumeKept h t disk.files after.files :=
  openPackage_spec hi.toVacant ht.toSound ht.reads ht.closed ht.archive hi.staged ht.sound ht.lists
    ht.manifest ht.parses

private theorem packs_installTarget (hsha : ∀ bytes, IsDigest (h.sha256Hex bytes))
    (hp : Packable source dir wasm) {createOverride : Option String} {name text : String}
    (hcreate : ∀ name ∈ createOverride, Path.Plain name) (hname : Path.Plain name)
    (hwrite : h.writeManifest
      (createManifest h source dir (createName dir createOverride) wasm) = .ok text)
    (hparse : h.parseManifest text =
      .ok (createManifest h source dir (createName dir createOverride) wasm))
    {entries : List ZipEntry} (hentries : createEntries h source dir createOverride = .ok entries)
    (hreads : ReadsBack h.zip entries) :
    Packs h source dir text entries (installTarget h source dir (createName dir createOverride) name
      text (h.zip.write entries) wasm) := by
  obtain ⟨_, hentries', hsound, hcomplete, hlists⟩ :=
    createEntries_spec hp createOverride hwrite (h.zip.write entries)
  rw [hentries] at hentries'
  cases hentries'
  have htree : (installTarget h source dir (createName dir createOverride) name text
      (h.zip.write entries) wasm).tree = packageTree (Tree.ofFiles source (Path.place dir))
        (h.zip.write entries) (asBytes text) wasm := rfl
  exact
    { root := rfl
      digest := path_plain_of_isDigest (hsha _)
      volume := plain_createName dir hcreate
      cache := (plain_cacheName hname (hsha wasm)).2
      packable := hp
      reads := hreads
      closed := packageTree_closed hp.closed
      sound := hsound
      complete := hcomplete
      lists := by
        obtain ⟨entry, hin, heq⟩ := hlists
        exact List.mem_map.mpr ⟨entry, hin, heq⟩
      archive := by rw [htree, packageTree_archive]
      manifest := by rw [htree, packageTree_manifest]
      program := by
        rw [htree, packageTree_wasm]
        rfl
      assets := fun asset hin names ↦ by rw [htree, packageTree_asset hin]
      digest_eq := rfl
      parses := hparse }

/-- A component is installed under a file name. -/
theorem plain_override (dir : String) {createOverride installOverride : Option String}
    (hcreate : ∀ name ∈ createOverride, Path.Plain name)
    (hinstall : ∀ name ∈ installOverride, Path.Plain name) :
    Path.Plain (installOverride.getD (createName dir createOverride)) := by
  cases installOverride with
  | none => exact plain_createName dir hcreate
  | some name => exact hinstall name rfl

/-- The archive of a packed directory is opened with its names and its manifest where nothing is
in the way. -/
theorem openPackage_created (disk : Disk) (hsha : ∀ bytes, IsDigest (h.sha256Hex bytes))
    (hp : Packable source dir wasm) {createOverride : Option String} {name text : String}
    (hcreate : ∀ name ∈ createOverride, Path.Plain name) (hname : Path.Plain name)
    (hwrite : h.writeManifest
      (createManifest h source dir (createName dir createOverride) wasm) = .ok text)
    (hparse : h.parseManifest text =
      .ok (createManifest h source dir (createName dir createOverride) wasm))
    {entries : List ZipEntry} (hentries : createEntries h source dir createOverride = .ok entries)
    (hreads : ReadsBack h.zip entries)
    (hi : Installable h (installTarget h source dir (createName dir createOverride) name text
      (h.zip.write entries) wasm) (h.zip.write entries) disk.files) :
    ∃ after, openPackage h (h.sha256Hex (h.zip.write entries)) disk (h.zip.write entries) =
      (after, .ok ⟨h.zip.write entries, entries.map (·.name),
        createManifest h source dir (createName dir createOverride) wasm⟩) := by
  obtain ⟨after, hopen, -⟩ :=
    (packs_installTarget hsha hp hcreate hname hwrite hparse hentries hreads).opened hi
  exact ⟨after, hopen⟩

end RoundTrip

/-! ### A page that is packed and installed -/

/-- A page with a static file in a directory, and seed data. -/
def pageFiles : Files :=
  ((([["home"], ["home", "page"], ["home", "page", "static"], ["home", "page", "static", "img"],
    ["home", "page", "seed-data"]].foldl (fun files place ↦ files.insert place .dir)
      ((∅ : Files).insert [] .dir)).insert ["home", "page", "component.wasm"]
        (.file emptyWasm)).insert ["home", "page", "static", "img", "dot"] (.file [7])).insert
          ["home", "page", "seed-data", "db"] (.file [1, 2])

/-- Its manifest. -/
def pageManifest : PackageManifest where
  component :=
    { name := "page", wasm := "component.wasm"
      sha256 := some "93a44bbb96c751218e4c00d479e4c14358122a389acca16205b1e4d0dc5f9476" }
  mounts :=
    [{ kind := .static, guest := "/www", source := some "static/" },
      { kind := .state, guest := "/data", volume := some "page", seed := some "seed-data/" }]

/-- The text of its manifest. -/
def pageToml : String :=
  "[component]\nname = \"page\"\nwasm = \"component.wasm\"\nsha256 = " ++
    "\"93a44bbb96c751218e4c00d479e4c14358122a389acca16205b1e4d0dc5f9476\"\n\n" ++
    "[[mounts]]\nkind = \"static\"\nguest = \"/www\"\nsource = \"static/\"\n\n" ++
    "[[mounts]]\nkind = \"state\"\nguest = \"/data\"\nvolume = \"page\"\n" ++
    "seed = \"seed-data/\"\n"

/-- What is packed. -/
def pageEntries : List ZipEntry :=
  [⟨"manifest.toml", asBytes pageToml⟩, ⟨"component.wasm", emptyWasm⟩, ⟨"static/", []⟩,
    ⟨"static/img/", []⟩, ⟨"static/img/dot", [7]⟩, ⟨"seed-data/", []⟩, ⟨"seed-data/db", [1, 2]⟩]

/-- A zip library that knows this one archive. -/
def pageZip : ZipLibrary where
  write _ := [80, 75, 3, 4]
  entryNames bytes :=
    if bytes = [80, 75, 3, 4] then .ok (pageEntries.map (·.name))
    else .error "invalid Zip archive: Invalid zip header"
  indexOf _ name := pageEntries.findIdx? (·.name == name)
  opens first second i := first = second && decide (i < pageEntries.length)
  content _ _ i := ((pageEntries[i]?.map (·.bytes)).getD [], none)

/-- A host that uses it. -/
def pageHost : Host where
  toExternals :=
    { sampleLibrary with
      sha256Hex := fun bytes ↦
        if bytes = emptyWasm then
          "93a44bbb96c751218e4c00d479e4c14358122a389acca16205b1e4d0dc5f9476"
        else "8dcc7e601606217f3b754766511182a916b17e9a26a94c9d887104eba92e9bb2" }
  dataDir := "/srv/realm-agent"
  zip := pageZip
  parseManifest text :=
    if text = pageToml then .ok pageManifest else .error "TOML parse error"
  writeManifest manifest :=
    if manifest = pageManifest then .ok pageToml else .error "unsupported value"
  arrange names := names
  arrange_perm names := .refl names

/-- The page can be packed, -/
theorem pageFiles_packable : Packable pageFiles "/home/page" emptyWasm := by
  have hkeys : ∀ key ∈ pageFiles.keys, ["home", "page"] <+: key → key ≠ ["home", "page"] →
      (∀ name ∈ key.getLast?, Path.Plain name) ∧ pageFiles[key.dropLast]? = some .dir := by
    decide
  have hplace : Path.place "/home/page" = ["home", "page"] := by decide
  have hclosed (names : List String) (name : String)
      (hsome : (Tree.ofFiles pageFiles (Path.place "/home/page") (names ++ [name])).isSome) :
      Path.Plain name ∧ Tree.ofFiles pageFiles (Path.place "/home/page") names = some .dir := by
    rw [hplace, Tree.ofFiles, ← List.append_assoc] at hsome
    have hin := Std.ExtTreeMap.mem_keys.mpr (Std.ExtTreeMap.mem_iff_isSome_getElem?.mpr hsome)
    obtain ⟨hplain, hparent⟩ := hkeys _ hin
      ((List.prefix_append _ names).trans (List.prefix_append _ _)) (by simp)
    rw [List.getLast?_concat] at hplain
    rw [List.dropLast_concat] at hparent
    rw [hplace]
    exact ⟨hplain name rfl, hparent⟩
  have hreaches : ∀ place ∈ Path.stations "/home/page", pageFiles[place]? = some .dir := by
    decide
  have hassets : ∀ name ∈ assetNames, pageFiles[["home", "page"] ++ [name]]? = none ∨
      pageFiles[["home", "page"] ++ [name]]? = some .dir := by
    decide
  refine ⟨hreaches, ⟨fun names name h ↦ (hclosed names name h).1,
    fun names name h ↦ (hclosed names name h).2⟩, by decide, ?_⟩
  intro name hin bytes
  rw [hplace]
  rcases hassets name hin with hnone | hdir
  · rw [hnone]
    simp
  · rw [hdir]
    simp

/-- its entries are these, -/
theorem pageEntries_created :
    createEntries pageHost pageFiles "/home/page" none = .ok pageEntries := by
  have hsome : (createEntries pageHost pageFiles "/home/page" none).toOption =
      some pageEntries := by
    decide +kernel
  generalize createEntries pageHost pageFiles "/home/page" none = created at hsome
  cases created with
  | error e => cases hsome
  | ok entries => exact congrArg Except.ok (Option.some.inj hsome)

/-- and the zip library reads them back. -/
theorem pageEntries_readBack : ReadsBack pageHost.zip pageEntries where
  names := rfl
  finds name hin := by
    have hfound : ∀ name ∈ pageEntries.map (·.name), ∃ i ∈ List.range pageEntries.length,
        pageHost.zip.indexOf (pageHost.zip.write pageEntries) name = some i ∧
          pageEntries[i]?.map (·.name) = some name := by
      decide
    obtain ⟨i, -, hindex, hname⟩ := hfound name hin
    obtain ⟨entry, hentry, hname⟩ := Option.map_eq_some_iff.mp hname
    exact ⟨i, entry, hentry, hname, hindex⟩
  opens i hi := by simpa [pageHost, pageZip] using hi
  content i entry hentry := by simp [pageHost, pageZip, hentry]

/-- A machine on which only the volume of the page holds something. -/
def usedFiles : Files :=
  ([["srv"], ["srv", "realm-agent"], ["srv", "realm-agent", "state"],
    ["srv", "realm-agent", "state", "components"],
    ["srv", "realm-agent", "state", "components", "page"]].foldl
      (fun files place ↦ files.insert place .dir) ((∅ : Files).insert [] .dir)).insert
        ["srv", "realm-agent", "state", "components", "page", "db"] (.file [9])

private theorem page_mem_keys {files : Files} {names : List String} {entry : Entry}
    (h : files[names]? = some entry) : names ∈ files.keys :=
  Std.ExtTreeMap.mem_keys.mpr
    (Std.ExtTreeMap.mem_iff_isSome_getElem?.mpr (Option.isSome_of_eq_some h))

private theorem installable_of_keys {files : Files} (archive : Bytes)
    (hhome : ∀ place ∈ Path.stations pageHost.dataDir, files[place]? = some .dir ∨
      files[place]? = none ∧ ¬ Path.Below (Path.place pageHost.dataDir) place)
    (hkeys : ∀ key ∈ files.keys, ¬ ["srv", "realm-agent", "artifacts"] <+: key ∧
      (["srv", "realm-agent", "state"] <+: key → files[key]? = some .dir ∨
        ["srv", "realm-agent", "state", "components", "page"] <+: key.dropLast))
    (hvolume : ∀ key ∈ files.keys,
      ["srv", "realm-agent", "state", "components", "page"] <+: key.dropLast →
        (∀ name ∈ key.getLast?, Path.Plain name) ∧ files[key.dropLast]? = some .dir) :
    Installable pageHost (installTarget pageHost pageFiles "/home/page" "page" "page" pageToml
      archive emptyWasm) archive files := by
  have hplace : Path.place pageHost.dataDir = ["srv", "realm-agent"] := by decide
  have hfree (names : List String) :
      files[Path.place pageHost.dataDir ++ "artifacts" :: names]? = none := by
    rw [Option.eq_none_iff_forall_ne_some]
    intro entry hentry
    apply (hkeys _ (page_mem_keys hentry)).1
    rw [hplace]
    exact ⟨names, rfl⟩
  have hclosed (names : List String) (name : String)
      (hsome : files[["srv", "realm-agent", "state", "components", "page"] ++
        (names ++ [name])]?.isSome) : Path.Plain name ∧
      files[["srv", "realm-agent", "state", "components", "page"] ++ names]? = some .dir := by
    obtain ⟨entry, hentry⟩ := Option.isSome_iff_exists.mp hsome
    rw [← List.append_assoc] at hentry
    have hdrop := hvolume _ (page_mem_keys hentry)
    rw [List.dropLast_concat, List.getLast?_concat] at hdrop
    obtain ⟨hplain, hdir⟩ := hdrop (List.prefix_append _ names)
    exact ⟨hplain name rfl, hdir⟩
  have hshort : "page".utf8ByteSize ≤ 255 ∧
      (cacheName "page" (pageHost.sha256Hex emptyWasm)).utf8ByteSize ≤ 255 := by
    decide +kernel
  refine ⟨⟨hhome, ?_, ?_, .inl (hfree _)⟩, .inl ?_, ?_, hshort⟩
  · intro names hin bytes hfile
    have hkey := hkeys _ (page_mem_keys hfile)
    rw [hplace] at hkey hfile
    simp only [madeDirs, installTarget, List.mem_cons, List.not_mem_nil, or_false] at hin
    rcases hin with rfl | rfl | rfl | rfl | rfl | rfl
    · exact hkey.1 ⟨[], rfl⟩
    · exact hkey.1 ⟨["packages"], rfl⟩
    · exact hkey.1 ⟨["packages", _], rfl⟩
    all_goals
      rcases hkey.2 (by simp) with hdir | hbelow
      · rw [hfile] at hdir
        cases hdir
      · exact absurd hbelow (by decide)
  · intro names entry hentry
    rw [Target.package, List.append_assoc, List.cons_append, hfree] at hentry
    cases hentry
  · rw [Target.package, List.append_assoc, List.cons_append]
    exact hfree _
  · have hhost : (installTarget pageHost pageFiles "/home/page" "page" "page" pageToml archive
        emptyWasm).host pageHost = ["srv", "realm-agent", "state", "components", "page"] := by
      rw [Target.host, hplace]
      rfl
    rw [hhost]
    exact ⟨fun names name h ↦ (hclosed names name h).1, fun names name h ↦ (hclosed names name h).2⟩

/-- An empty machine takes the page, and one whose volume is in use. -/
theorem pageInstallable (archive : Bytes) : ∀ files ∈ [(∅ : Files).insert [] .dir, usedFiles],
    Installable pageHost (installTarget pageHost pageFiles "/home/page" "page" "page" pageToml
      archive emptyWasm) archive files := by
  intro files hin
  simp only [List.mem_cons, List.not_mem_nil, or_false] at hin
  rcases hin with rfl | rfl
  · exact installable_of_keys archive (by decide) (by decide) (by decide)
  · exact installable_of_keys archive (by decide) (by decide) (by decide)

/-- It is named after its directory, -/
theorem createName_page : createName "/home/page" none = "page" := by decide

private theorem createManifest_page : createManifest pageHost pageFiles "/home/page"
    (createName "/home/page" none) emptyWasm = pageManifest := by
  rw [createName_page]
  decide

/-- and its manifest is written -/
theorem writeManifest_page : pageHost.writeManifest (createManifest pageHost pageFiles "/home/page"
    (createName "/home/page" none) emptyWasm) = .ok pageToml := by
  rw [createManifest_page]
  simp only [pageHost, if_true]

/-- and read. -/
theorem parseManifest_page : pageHost.parseManifest pageToml = .ok (createManifest pageHost
    pageFiles "/home/page" (createName "/home/page" none) emptyWasm) := by
  rw [createManifest_page]
  simp only [pageHost, if_true]

/-- The digests of its host are digests. -/
theorem isDigest_pageHost (bytes : Bytes) : IsDigest (pageHost.sha256Hex bytes) := by
  change IsDigest (if bytes = emptyWasm then _ else _)
  split <;> decide

end PeerDeploy.Package
