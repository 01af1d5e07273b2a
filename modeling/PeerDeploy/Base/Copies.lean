import PeerDeploy.Base.Files

/-!
# Copying files

General support: `fs::copy`, which truncates its target before it reads its source, and what a
sequence of copies finds as long as none of them changes a source.
-/

namespace PeerDeploy.Base.Files

/-- The bytes of the file at a place. -/
def fileAt (files : Files) (place : List String) : Option (List UInt8) :=
  match files[place]? with
  | some (.file bytes) => some bytes
  | some .dir | none => none

/-- `fs::copy` of a file. -/
def copy (files : Files) (src dst : String) : Except String Files := do
  let _ ← files.readPath src
  let truncated ← files.writePath dst []
  let bytes ← truncated.readPath src
  truncated.writePath dst bytes

/-- The source is a file, and the target is in a directory and is none. -/
structure Copies (files : Files) (src dst : String) : Prop where
  srcWay : ∀ place ∈ Path.approach src, files[place]? = some .dir
  source : (files.fileAt (Path.place src)).isSome
  dstWay : ∀ place ∈ Path.approach dst, files[place]? = some .dir
  parent : files[(Path.place dst).dropLast]? = some .dir
  target : files[Path.place dst]? ≠ some .dir

/-- What a copy leaves at its target: nothing of a file that is copied onto itself. -/
def leaves (files : Files) (src dst : String) : List UInt8 :=
  if Path.place src = Path.place dst then [] else (files.fileAt (Path.place src)).getD []

/-- The same directories, and the same files at the given places. -/
structure Alike (places : List (List String)) (before after : Files) : Prop where
  dirs : ∀ place : List String, after[place]? = some Entry.dir ↔ before[place]? = some Entry.dir
  kept : ∀ place ∈ places, after.fileAt place = before.fileAt place

/-- The file at a place is what a lookup of the place finds. -/
theorem fileAt_eq_some {files : Files} {place : List String} {bytes : List UInt8} :
    files.fileAt place = some bytes ↔ files[place]? = some (.file bytes) := by
  unfold fileAt
  split <;> simp_all

/-- A file that is put somewhere is there, and the others are where they were. -/
theorem fileAt_insert (files : Files) (put place : List String) (bytes : List UInt8) :
    Files.fileAt (files.insert put (.file bytes)) place =
      if put = place then some bytes else files.fileAt place := by
  unfold fileAt
  rw [Table.getElem?_insert]
  by_cases hplace : put = place
  · rw [if_pos hplace, if_pos hplace]
  · rw [if_neg hplace, if_neg hplace]

/-- Making directories keeps all files and adds none. -/
theorem fileAt_createDirs (files : Files) (places : List (List String)) (place : List String) :
    (files.createDirs places).fileAt place = files.fileAt place := by
  rw [fileAt, fileAt]
  rcases createDirs_getElem? files places place with hsame | ⟨-, hnone, hdir⟩
  · rw [hsame]
  · rw [hnone, hdir]

/-- The same with all the directories before them. -/
theorem fileAt_createDirAll (files : Files) (dirs place : List String) :
    (files.createDirAll dirs).fileAt place = files.fileAt place :=
  fileAt_createDirs files _ place

/-- A file that a path text names is the one at its place. -/
theorem readPath_eq_ok_iff {files : Files} {path : String} {bytes : List UInt8} :
    files.readPath path = .ok bytes ↔
      (∀ place ∈ Path.approach path, files[place]? = some .dir) ∧
        files.fileAt (Path.place path) = some bytes := by
  rw [readPath_eq_ok, lookup_eq_some, fileAt_eq_some]

private theorem writePath_eq_ok_iff {files next : Files} {path : String} {bytes : List UInt8} :
    files.writePath path bytes = .ok next ↔
      (∀ place ∈ Path.approach path, files[place]? = some .dir) ∧
        files[(Path.place path).dropLast]? = some .dir ∧ files[Path.place path]? ≠ some .dir ∧
        next = files.insert (Path.place path) (.file bytes) := by
  constructor
  · intro h
    have hnext := eq_insert_of_writePath h
    unfold writePath at h
    cases henter : files.enter (Path.approach path) with
    | error e =>
      rw [henter] at h
      cases h
    | ok _ =>
      rw [henter] at h
      change files.write (Path.place path) bytes none = .ok next at h
      have hway := enter_eq_ok.mp henter
      unfold write at h
      split at h <;> simp_all
  · rintro ⟨hway, hparent, hdir, rfl⟩
    exact writePath_eq_ok hway hparent hdir

/-- A file in place of none or of another file leaves the directories as they are. -/
theorem dir_insert_file {files : Files} {target : List String} (h : files[target]? ≠ some .dir)
    (bytes : List UInt8) (place : List String) :
    (files.insert target (.file bytes))[place]? = some .dir ↔ files[place]? = some .dir := by
  rw [Table.getElem?_insert]
  split
  · next heq =>
    subst heq
    simp [h]
  · rfl

/-- A copy succeeds in the files that it needs, and leaves one file. -/
theorem copy_eq_ok_iff {files next : Files} {src dst : String} :
    files.copy src dst = .ok next ↔ Copies files src dst ∧
      next = (files.insert (Path.place dst) (.file [])).insert (Path.place dst)
        (.file (files.leaves src dst)) := by
  unfold copy
  cases hread : files.readPath src with
  | error e =>
    apply iff_of_false
    · intro h
      cases h
    · rintro ⟨hc, -⟩
      obtain ⟨bytes, hbytes⟩ := Option.isSome_iff_exists.mp hc.source
      rw [readPath_eq_ok_iff.mpr ⟨hc.srcWay, hbytes⟩] at hread
      cases hread
  | ok bytes =>
    obtain ⟨hway, hbytes⟩ := readPath_eq_ok_iff.mp hread
    cases hwrite : files.writePath dst [] with
    | error e =>
      apply iff_of_false
      · intro h
        cases h
      · rintro ⟨hc, -⟩
        rw [writePath_eq_ok_iff.mpr ⟨hc.dstWay, hc.parent, hc.target, rfl⟩] at hwrite
        cases hwrite
    | ok truncated =>
      obtain ⟨hdstWay, hparent, htarget, rfl⟩ := writePath_eq_ok_iff.mp hwrite
      have hdirs := dir_insert_file htarget []
      have hleaves : readPath (files.insert (Path.place dst) (.file [])) src =
          .ok (files.leaves src dst) := by
        rw [readPath_eq_ok_iff]
        refine ⟨fun place hin ↦ (hdirs place).mpr (hway place hin), ?_⟩
        rw [fileAt_eq_some, Table.getElem?_insert, leaves]
        by_cases hself : Path.place src = Path.place dst
        · rw [if_pos hself.symm, if_pos hself]
        · rw [if_neg (Ne.symm hself), if_neg hself, hbytes, Option.getD_some]
          exact fileAt_eq_some.mp hbytes
      have hagain : writePath (files.insert (Path.place dst) (.file [])) dst
          (files.leaves src dst) = .ok ((files.insert (Path.place dst) (.file [])).insert
            (Path.place dst) (.file (files.leaves src dst))) := by
        rw [writePath_eq_ok_iff]
        refine ⟨fun place hin ↦ (hdirs place).mpr (hdstWay place hin), (hdirs _).mpr hparent, ?_,
          rfl⟩
        exact fun h ↦ htarget ((hdirs _).mp h)
      have hc : Copies files src dst :=
        ⟨hway, Option.isSome_of_eq_some hbytes, hdstWay, hparent, htarget⟩
      simp only [bind, Except.bind, hleaves, hagain, Except.ok.injEq, hc, true_and]
      exact eq_comm

/-- A copy changes the file at its target only. -/
theorem fileAt_copy {files next : Files} {src dst : String} (h : files.copy src dst = .ok next)
    (place : List String) : next.fileAt place =
      if place = Path.place dst then some (files.leaves src dst) else files.fileAt place := by
  obtain ⟨-, rfl⟩ := copy_eq_ok_iff.mp h
  by_cases hplace : place = Path.place dst
  · rw [if_pos hplace, fileAt_insert, if_pos hplace.symm]
  · rw [if_neg hplace, fileAt_insert, if_neg (Ne.symm hplace), fileAt_insert,
      if_neg (Ne.symm hplace)]

/-- A copy leaves the directories as they are. -/
theorem dir_copy {files next : Files} {src dst : String} (h : files.copy src dst = .ok next)
    (place : List String) : next[place]? = some .dir ↔ files[place]? = some .dir := by
  obtain ⟨hc, rfl⟩ := copy_eq_ok_iff.mp h
  have hdirs := dir_insert_file hc.target []
  rw [dir_insert_file (fun h ↦ hc.target ((hdirs _).mp h)), hdirs]

section Sources

variable {places : List (List String)} {before after next : Files}

/-- Every tree is like itself. -/
theorem Alike.refl (places : List (List String)) (files : Files) : Alike places files files :=
  ⟨fun _ ↦ Iff.rfl, fun _ _ ↦ rfl⟩

/-- A source is copied alike. -/
theorem Alike.copies_iff (h : Alike places before after) {src : String}
    (hsrc : Path.place src ∈ places) (dst : String) :
    Copies after src dst ↔ Copies before src dst := by
  constructor
  · rintro ⟨hsrcWay, hsource, hdstWay, hparent, htarget⟩
    exact ⟨fun place hin ↦ (h.dirs place).mp (hsrcWay place hin), by rwa [← h.kept _ hsrc],
      fun place hin ↦ (h.dirs place).mp (hdstWay place hin), (h.dirs _).mp hparent,
      fun hdir ↦ htarget ((h.dirs _).mpr hdir)⟩
  · rintro ⟨hsrcWay, hsource, hdstWay, hparent, htarget⟩
    exact ⟨fun place hin ↦ (h.dirs place).mpr (hsrcWay place hin), by rwa [h.kept _ hsrc],
      fun place hin ↦ (h.dirs place).mpr (hdstWay place hin), (h.dirs _).mpr hparent,
      fun hdir ↦ htarget ((h.dirs _).mp hdir)⟩

/-- A copy leaves the same in trees that are alike at its source. -/
theorem Alike.leaves_eq (h : Alike places before after) {src : String}
    (hsrc : Path.place src ∈ places) (dst : String) :
    after.leaves src dst = before.leaves src dst := by
  rw [leaves, leaves, h.kept _ hsrc]

/-- A copy that puts into the place of a source only what is there keeps the sources. -/
theorem Alike.copy (h : Alike places before after) {src dst : String}
    (hcopy : after.copy src dst = .ok next)
    (hsame : Path.place dst ∈ places →
      before.fileAt (Path.place dst) = some (after.leaves src dst)) :
    Alike places before next := by
  refine ⟨fun place ↦ (dir_copy hcopy place).trans (h.dirs place), ?_⟩
  intro place hin
  rw [fileAt_copy hcopy]
  split
  · next heq =>
    subst heq
    exact (hsame hin).symm
  · exact h.kept place hin

end Sources

end PeerDeploy.Base.Files
