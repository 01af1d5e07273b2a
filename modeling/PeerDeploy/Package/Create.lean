import PeerDeploy.Base.Tree
import PeerDeploy.Package.Disk

/-!
# Creating packages

`package_create` of `crates/agent/src/cmd/package.rs`: the archive that it writes for a
directory. The output file is taken to lie outside the directories that are packed; its path
and the line printed at the end are left out.
-/

namespace PeerDeploy.Package

open PeerDeploy.Common PeerDeploy.Base

/-- One entry of the loop; `crates/agent/src/cmd/package.rs:151–164`. -/
def addEntry (addDir : String → String → Except String (List ZipEntry)) (files : Files)
    (src rel name : String) : Except String (List ZipEntry) :=
  let path := Path.join src name
  let relChild := Path.join rel name
  match files.lookup path with
  | some .dir => addDir path relChild
  | some (.file bytes) => .ok [⟨relChild, bytes⟩]
  | none => .ok []

/-- The loop, up to the first error. -/
def addEntries (addDir : String → String → Except String (List ZipEntry)) (files : Files)
    (src rel : String) : List String → Except String (List ZipEntry)
  | [] => .ok []
  | name :: rest => do
    let entries ← addEntry addDir files src rel name
    let others ← addEntries addDir files src rel rest
    return entries ++ others

/-- `crates/agent/src/cmd/package.rs:140–167`: the entries that are added. The fuel is how deep
directories may nest. -/
def addDirToZip (h : Host) (files : Files) : Nat → String → String →
    Except String (List ZipEntry)
  | 0, _, _ => .error "read_dir"
  | fuel + 1, src, rel =>
    match files.lookup src with
    | some .dir => do
      let entries ← addEntries (addDirToZip h files fuel) files src rel
        (h.arrange (files.children (Path.place src)))
      return ⟨rel ++ "/", []⟩ :: entries
    | some (.file _) | none => .error "read_dir"

/-- The name of the component; `crates/agent/src/cmd/package.rs:24–30`. -/
def createName (dir : String) (nameOverride : Option String) : String :=
  nameOverride.getD ((Path.fileName dir).getD "component")

/-- The mounts of the manifest, by what exists in the directory;
`crates/agent/src/cmd/package.rs:46–76`. -/
def createMounts (files : Files) (dir compName : String) : List PackageMountSpec :=
  (if files.pathExists (Path.join dir "static") then
    [{ kind := .static, guest := "/www", source := some "static/" }] else []) ++
  (if files.pathExists (Path.join dir "config") then
    [{ kind := .config, guest := "/etc/app", source := some "config/" }] else []) ++
  (if files.pathExists (Path.join dir "seed-data") then
    [{ kind := .state, guest := "/data", volume := some compName, seed := some "seed-data/" }]
    else [])

/-- The entries of one of the asset directories; `crates/agent/src/cmd/package.rs:126–132`. -/
def addAssets (h : Host) (files : Files) (dir name : String) : Except String (List ZipEntry) :=
  match files.lookup (Path.join dir name) with
  | some .dir => addDirToZip h files (files.depth + 1) (Path.join dir name) name
  | some (.file _) | none => .ok []

/-- `crates/agent/src/cmd/package.rs:43,78–85`. -/
def createManifest (h : Host) (files : Files) (dir compName : String) (wasm : Bytes) :
    PackageManifest where
  component := { name := compName, wasm := "component.wasm", sha256 := some (h.sha256Hex wasm) }
  mounts := createMounts files dir compName

/-- What is written to the archive; `crates/agent/src/cmd/package.rs:19–131`. -/
def createEntries (h : Host) (files : Files) (dir : String) (nameOverride : Option String) :
    Except String (List ZipEntry) := do
  if files.lookup dir ≠ some .dir then
    throw "package create: input path must be a directory"
  let compName := createName dir nameOverride
  let wasmPath := Path.join dir "component.wasm"
  if ¬ files.pathExists wasmPath then throw s!"component.wasm not found in {dir}"
  let wasm ← (files.readPath wasmPath).mapError fun _ ↦ "read component.wasm"
  let manifest := createManifest h files dir compName wasm
  let text ← (h.writeManifest manifest).mapError fun _ ↦ "serialize manifest"
  let static ← addAssets h files dir "static"
  let config ← addAssets h files dir "config"
  let seed ← addAssets h files dir "seed-data"
  return [⟨"manifest.toml", asBytes text⟩, ⟨"component.wasm", wasm⟩] ++ static ++ config ++ seed

/-- The entry stands for what the names lead to. -/
def Represents (entry : ZipEntry) (names : List String) : Entry → Prop
  | .dir => ∃ text, Path.Names text names ∧ entry = ⟨text ++ "/", []⟩
  | .file bytes => Path.Names entry.name names ∧ entry.bytes = bytes

/-- The entries are those of a tree, below the names. -/
structure Lists (tree : Tree) (front : List String) (entries : List ZipEntry) : Prop where
  sound : ∀ entry ∈ entries, ∃ names value, tree names = some value ∧
    Represents entry (front ++ names) value
  complete : ∀ names value, tree names = some value → ∃ entry ∈ entries,
    Represents entry (front ++ names) value

private theorem addEntry_spec {files : Files} {src rel name : String} {front : List String}
    {addDir : String → String → Except String (List ZipEntry)} (hsrc : Tree.Reaches files src)
    (hrel : Path.Names rel front) (hname : name ∈ files.children (Path.place src))
    (hadd : Tree.Reaches files (Path.join src name) →
      Path.Names (Path.join rel name) (front ++ [name]) → ∃ entries,
        addDir (Path.join src name) (Path.join rel name) = .ok entries ∧
          Lists (Tree.ofFiles files (Path.place (Path.join src name))) (front ++ [name]) entries)
    (hclosed : (Tree.ofFiles files (Path.place src)).Closed) :
    ∃ entries, addEntry addDir files src rel name = .ok entries ∧
      Lists (Tree.ofFiles files (Path.place src ++ [name])) (front ++ [name]) entries := by
  obtain ⟨hplain, hsome⟩ := Files.mem_children.mp hname
  have hnames := Path.names_join hrel hplain
  unfold addEntry
  dsimp only
  rw [Tree.lookup_join hsrc hplain]
  cases hentry : files[Path.place src ++ [name]]? with
  | none =>
    rw [hentry] at hsome
    cases hsome
  | some entry =>
    cases entry with
    | dir =>
      obtain ⟨entries, hok, hlists⟩ := hadd (Tree.reaches_join hsrc hplain hentry) hnames
      rw [Path.place_join src hplain] at hlists
      exact ⟨entries, hok, hlists⟩
    | file bytes =>
      -- nothing lies below a file
      have hleaf (names : List String) (value : Entry)
          (h : Tree.ofFiles files (Path.place src ++ [name]) names = some value) :
          names = [] ∧ value = .file bytes := by
        have hin := h
        rw [Tree.ofFiles_append] at hin
        have hnil : names = [] := hclosed.leaf hentry (Option.isSome_of_eq_some hin)
        rw [hnil, Tree.ofFiles, List.append_nil, hentry] at h
        exact ⟨hnil, (Option.some.inj h).symm⟩
      refine ⟨_, rfl, ⟨?_, ?_⟩⟩
      · intro found hin
        rw [List.mem_singleton.mp hin]
        refine ⟨[], .file bytes, by rw [Tree.ofFiles, List.append_nil, hentry], ?_⟩
        rw [List.append_nil]
        exact ⟨hnames, rfl⟩
      · intro names value h
        obtain ⟨rfl, rfl⟩ := hleaf names value h
        refine ⟨_, List.mem_singleton_self _, ?_⟩
        rw [List.append_nil]
        exact ⟨hnames, rfl⟩

-- The entries are those of some of the names of a directory.
private structure ListsNames (tree : Tree) (front chosen : List String)
    (entries : List ZipEntry) : Prop where
  sound : ∀ entry ∈ entries, ∃ names value, tree names = some value ∧
    Represents entry (front ++ names) value
  complete : ∀ name names value, name ∈ chosen → tree (name :: names) = some value →
    ∃ entry ∈ entries, Represents entry (front ++ name :: names) value

private theorem addEntries_spec {tree : Tree} {files : Files} {src rel : String}
    {front chosen : List String} {addDir : String → String → Except String (List ZipEntry)}
    (h : ∀ name ∈ chosen, ∃ entries, addEntry addDir files src rel name = .ok entries ∧
      Lists (fun names ↦ tree (name :: names)) (front ++ [name]) entries) :
    ∃ entries, addEntries addDir files src rel chosen = .ok entries ∧
      ListsNames tree front chosen entries := by
  induction chosen with
  | nil =>
    refine ⟨[], rfl, ⟨?_, ?_⟩⟩
    · intro entry hin
      cases hin
    · intro name names value hin
      cases hin
  | cons name rest ih =>
    obtain ⟨entries, hentry, hlists⟩ := h name List.mem_cons_self
    obtain ⟨others, hothers, hrest⟩ := ih fun n hn ↦ h n (List.mem_cons_of_mem name hn)
    refine ⟨entries ++ others, ?_, ⟨?_, ?_⟩⟩
    · rw [addEntries, hentry, hothers]
      rfl
    · intro entry hin
      rcases List.mem_append.mp hin with hin | hin
      · obtain ⟨names, value, htree, hrep⟩ := hlists.sound entry hin
        exact ⟨name :: names, value, htree, by simpa using hrep⟩
      · exact hrest.sound entry hin
    · intro other names value hin htree
      rcases List.mem_cons.mp hin with rfl | hin
      · obtain ⟨entry, hmem, hrep⟩ := hlists.complete names value htree
        exact ⟨entry, List.mem_append_left _ hmem, by simpa using hrep⟩
      · obtain ⟨entry, hmem, hrep⟩ := hrest.complete other names value hin htree
        exact ⟨entry, List.mem_append_right _ hmem, hrep⟩

/-- With enough fuel, a directory is listed with all that it holds. -/
theorem addDirToZip_spec (h : Host) {files : Files} {fuel : Nat} {src rel : String}
    {front : List String} (hsrc : Tree.Reaches files src) (hrel : Path.Names rel front)
    (hclosed : (Tree.ofFiles files (Path.place src)).Closed)
    (hfuel : ∀ names, (Tree.ofFiles files (Path.place src) names).isSome → names.length < fuel) :
    ∃ entries, addDirToZip h files fuel src rel = .ok entries ∧
      Lists (Tree.ofFiles files (Path.place src)) front entries := by
  have hroot : Tree.ofFiles files (Path.place src) [] = some .dir := by
    rw [Tree.ofFiles, List.append_nil]
    exact hsrc _ (Path.place_mem_stations src)
  induction fuel generalizing src rel front with
  | zero => exact absurd (hfuel [] (by rw [hroot]; rfl)) (Nat.not_lt_zero _)
  | succ fuel ih =>
    let chosen := h.arrange (files.children (Path.place src))
    have hchild (name : String) (hin : name ∈ chosen) :
        name ∈ files.children (Path.place src) := (h.arrange_perm _).mem_iff.mp hin
    have hentries : ∀ name ∈ chosen, ∃ entries,
        addEntry (addDirToZip h files fuel) files src rel name = .ok entries ∧
          Lists (fun names ↦ Tree.ofFiles files (Path.place src) (name :: names))
            (front ++ [name]) entries := by
      intro name hin
      have hplain := (Files.mem_children.mp (hchild name hin)).1
      have hplace := Path.place_join src hplain
      have hsub : Tree.ofFiles files (Path.place src ++ [name]) =
          fun names ↦ Tree.ofFiles files (Path.place src) (name :: names) :=
        Tree.ofFiles_append files (Path.place src) [name]
      rw [← hsub]
      refine addEntry_spec hsrc hrel (hchild name hin) (fun hreach hnames ↦ ?_) hclosed
      apply ih hreach hnames
      · rw [hplace, hsub]
        exact hclosed.sub [name]
      · intro names hsome
        rw [hplace, hsub] at hsome
        have hlt := hfuel (name :: names) hsome
        rw [List.length_cons] at hlt
        omega
      · rw [Tree.ofFiles, List.append_nil]
        exact hreach _ (Path.place_mem_stations _)
    obtain ⟨entries, hok, hlists⟩ := addEntries_spec hentries
    refine ⟨⟨rel ++ "/", []⟩ :: entries, ?_, ⟨?_, ?_⟩⟩
    · rw [addDirToZip, Tree.lookup_eq_dir.mpr hsrc]
      dsimp only
      rw [hok]
      rfl
    · intro entry hin
      rcases List.mem_cons.mp hin with rfl | hin
      · refine ⟨[], .dir, hroot, rel, ?_, rfl⟩
        rw [List.append_nil]
        exact hrel
      · exact hlists.sound entry hin
    · intro names value htree
      cases names with
      | nil =>
        rw [hroot] at htree
        cases htree
        refine ⟨_, List.mem_cons_self, rel, ?_, rfl⟩
        rw [List.append_nil]
        exact hrel
      | cons name names =>
        have hname : name ∈ chosen := by
          apply (h.arrange_perm _).mem_iff.mpr
          exact Tree.mem_children_of_isSome hclosed (by rw [htree]; rfl)
        obtain ⟨entry, hin, hrep⟩ := hlists.complete name names value hname htree
        exact ⟨entry, List.mem_cons_of_mem _ hin, hrep⟩

end PeerDeploy.Package
