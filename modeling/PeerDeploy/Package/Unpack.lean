import PeerDeploy.Package.Create
import PeerDeploy.Package.Install

/-!
# Unpacking packages

What the copying loop and the extraction loop leave behind, as steps that fill a directory
with a tree.
-/

namespace PeerDeploy.Package

open PeerDeploy.Common PeerDeploy.Base

/-- `create_dir_all` on the files of a disk. -/
theorem makeDirs_files (disk : Disk) (area : Area) (path : String) :
    (disk.makeDirs area path).1.files = (disk.files.makeDirs path).1 := rfl

/-- The error of `create_dir_all`. -/
theorem makeDirs_error (disk : Disk) (area : Area) (path : String) :
    (disk.makeDirs area path).2 = (disk.files.makeDirs path).2 := rfl

/-- A file of the tree is written where parts of the tree lie. -/
theorem write_spec {tree : Tree} {base names : List String} {disk : Disk} (use : Use)
    {path : String} (bytes : Bytes) {content : Bytes} (hplace : Path.place path = base ++ names)
    (happroach : ∀ place ∈ Path.approach path, disk.files[place]? = some .dir)
    (hparent : disk.files[(base ++ names).dropLast]? = some .dir)
    (hfits : tree.Fits base disk.files) (hfile : tree names = some (.file content)) :
    (disk.write use path bytes).2 = none ∧
      (disk.write use path bytes).1.files = disk.files.insert (base ++ names) (.file bytes) := by
  have hfree := hfits.ne_dir hfile
  rw [← hplace] at hparent hfree ⊢
  rw [Disk.write, Files.writePath_eq_ok happroach hparent hfree]
  exact ⟨rfl, rfl⟩

/-- Neither place lies in the other one. -/
def Apart (a b : List String) : Prop := ¬ a <+: b ∧ ¬ b <+: a

private theorem Apart.append {a b : List String} (h : Apart a b) (c d : List String) :
    Apart (a ++ c) (b ++ d) := by
  constructor
  · intro hpre
    have ha : a <+: b ++ d := (List.prefix_append a c).trans hpre
    rcases List.prefix_or_prefix_of_prefix ha (List.prefix_append b d) with hab | hba
    · exact h.1 hab
    · exact h.2 hba
  · intro hpre
    have hb : b <+: a ++ c := (List.prefix_append b d).trans hpre
    rcases List.prefix_or_prefix_of_prefix hb (List.prefix_append a c) with hba | hab
    · exact h.2 hba
    · exact h.1 hab

/-- A directory with this tree can be copied to a target apart from it that holds nothing else
than parts of the tree. -/
structure CopyReady (tree : Tree) (files : Files) (src dst : String) : Prop where
  reaches : Tree.Reaches files src
  holds : Tree.ofFiles files (Path.place src) = tree
  closed : tree.Closed
  leads : tree.Leads (Path.place dst) files (Path.stations dst)
  fits : tree.Fits (Path.place dst) files
  plain : Path.endsInDot dst = false
  apart : Apart (Path.place src) (Path.place dst)

section Copy

variable {tree : Tree} {src dst name : String} {disk : Disk}

private theorem CopyReady.later {before after : Files} (h : CopyReady tree before src dst)
    (hfills : tree.Fills (Path.place dst) before after) : CopyReady tree after src dst := by
  have hsame (names : List String) :
      after[Path.place src ++ names]? = before[Path.place src ++ names]? := by
    apply hfills.outside
    intro hpre
    exact (h.apart.append names []).2 (by simpa using hpre)
  refine ⟨h.reaches.mono hfills.dirs, ?_, h.closed, ?_, hfills.fits h.fits, h.plain, h.apart⟩
  · funext names
    rw [Tree.ofFiles, hsame, ← h.holds]
    rfl
  · intro place hin
    rcases h.leads place hin with hdir | hplanned
    · exact .inl (hfills.dirs place hdir)
    · exact .inr hplanned

end Copy

/-! ### Extracting an archive -/

/-- The library reads back what it wrote. -/
structure ReadsBack (zip : ZipLibrary) (entries : List ZipEntry) : Prop where
  names : zip.entryNames (zip.write entries) = .ok (entries.map (·.name))
  finds : ∀ name ∈ entries.map (·.name), ∃ i entry, entries[i]? = some entry ∧ entry.name = name ∧
    zip.indexOf (zip.write entries) name = some i
  opens : ∀ i < entries.length, zip.opens (zip.write entries) (zip.write entries) i = true
  content : ∀ i entry, entries[i]? = some entry →
    zip.content (zip.write entries) (zip.write entries) i = (entry.bytes, none)

/-- The directory of a package can be filled with a tree that holds the archive itself. -/
structure ExtractReady (h : Host) (digest : String) (archive : Bytes) (tree : Tree)
    (files : Files) : Prop where
  reaches : Tree.Reaches files (packagesDir h digest)
  closed : tree.Closed
  fits : tree.Fits (Path.place (packagesDir h digest)) files
  holds : tree ["package.zip"] = some (.file archive)
  staged : files[Path.place (packagesDir h digest) ++ ["package.zip"]]? = some (.file archive)

section Extract

variable {h : Host} {digest : String} {entries : List ZipEntry} {tree : Tree} {disk : Disk}

private theorem ExtractReady.later {archive : Bytes} {before after : Files}
    (hready : ExtractReady h digest archive tree before)
    (hfills : tree.Fills (Path.place (packagesDir h digest)) before after) :
    ExtractReady h digest archive tree after where
  reaches := hready.reaches.mono hfills.dirs
  closed := hready.closed
  fits := hfills.fits hready.fits
  holds := hready.holds
  staged := hfills.kept _ _ hready.holds hready.staged

end Extract

end PeerDeploy.Package
