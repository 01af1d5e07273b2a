import PeerDeploy.Base.Path
import PeerDeploy.Base.Table

/-!
# A file system

General support: files and directories by place. A write is one step that succeeds or fails
as a whole; the reason of a failure other than a missing or wrong entry is an argument.
Permissions and links are not modelled. An operation on a path text goes through all its
places, so that a `..` after a missing directory fails.
-/

namespace PeerDeploy.Base

/-- What lies at a place. -/
inductive Entry where
  | file (bytes : List UInt8)
  | dir
  deriving DecidableEq

/-- Entries by place, the components from the root. -/
abbrev Files := Std.ExtTreeMap (List String) Entry

namespace Files

/-- `fs::read`. -/
def read (files : Files) (place : List String) (fault : Option String) :
    Except String (List UInt8) :=
  match fault, files[place]? with
  | some e, _ => .error e
  | none, some (.file bytes) => .ok bytes
  | none, some .dir => .error "Is a directory (os error 21)"
  | none, none => .error "No such file or directory (os error 2)"

/-- `fs::write`. -/
def write (files : Files) (place : List String) (bytes : List UInt8) (fault : Option String) :
    Except String Files :=
  match fault, files[place]?, files[place.dropLast]? with
  | some e, _, _ => .error e
  | none, some .dir, _ => .error "Is a directory (os error 21)"
  | none, _, some .dir => .ok (files.insert place (.file bytes))
  | none, _, some (.file _) => .error "Not a directory (os error 20)"
  | none, _, none => .error "No such file or directory (os error 2)"

/-- Make the missing directories among the places, up to the first one that is a file. -/
def createDirs (files : Files) : List (List String) → Files
  | [] => files
  | place :: rest =>
    match files[place]? with
    | some (.file _) => files
    | some .dir => createDirs files rest
    | none => createDirs (files.insert place .dir) rest

/-- `fs::create_dir_all`, its error ignored. -/
def createDirAll (files : Files) (place : List String) : Files :=
  files.createDirs ((List.range (place.length + 1)).map place.take)

/-- `fs::remove_file`, its error ignored. -/
def removeFile (files : Files) (place : List String) : Files :=
  match files[place]? with
  | some (.file _) => files.erase place
  | some .dir | none => files

/-! ### Operations on path texts -/

/-- Go through the places; each one must be a directory. -/
def enter (files : Files) : List (List String) → Except String Unit
  | [] => .ok ()
  | place :: rest =>
    match files[place]? with
    | some .dir => enter files rest
    | some (.file _) => .error "Not a directory (os error 20)"
    | none => .error "No such file or directory (os error 2)"

/-- What a path text names, if there is something. -/
def lookup (files : Files) (path : String) : Option Entry :=
  match files.enter (Path.approach path) with
  | .ok () => files[Path.place path]?
  | .error _ => none

/-- What a name leads to when it is joined to a directory. The directories above its end are
there whenever something lies at the end, so only the other places on its route are asked for. -/
def reach (files : Files) (base name : String) : Option Entry :=
  match files.enter (Path.detours (Path.route base name) (Path.leads base name)) with
  | .ok () => files[Path.leads base name]?
  | .error _ => none

/-- `Path::exists`. -/
def pathExists (files : Files) (path : String) : Bool := (files.lookup path).isSome

/-- `fs::read` of a path text. -/
def readPath (files : Files) (path : String) : Except String (List UInt8) := do
  files.enter (Path.approach path)
  files.read (Path.place path) none

/-- `fs::write` to a path text. -/
def writePath (files : Files) (path : String) (bytes : List UInt8) : Except String Files := do
  files.enter (Path.approach path)
  files.write (Path.place path) bytes none

/-- The places that `fs::create_dir_all` makes; what a final `.` follows must be there already. -/
def madeBy (path : String) : List (List String) :=
  if Path.endsInDot path then Path.parentStations path else Path.stations path

/-- `fs::create_dir_all` of a path text; the error is `none` if the directory is there then. -/
def makeDirs (files : Files) (path : String) : Files × Option String :=
  let made := files.createDirs (madeBy path)
  match made.enter (Path.approach path), made[Path.place path]? with
  | .error e, _ => (made, some e)
  | .ok (), some .dir => (made, none)
  | .ok (), some (.file _) => (made, some "File exists (os error 17)")
  | .ok (), none => (made, some "No such file or directory (os error 2)")

/-- The names in a directory, in the order of the table. -/
def children (files : Files) (place : List String) : List String :=
  files.keys.filterMap fun key ↦
    key.getLast?.filter fun name ↦ decide (key = place ++ [name] ∧ Path.Plain name)

/-- How deep the files lie. -/
def depth (files : Files) : Nat := (files.keys.map List.length).foldr max 0

/-- `fs::remove_dir_all` or `fs::remove_file`. -/
def removeTree (files : Files) (place : List String) : Files :=
  files.filter fun key _ ↦ !place.isPrefixOf key

/-! ### What the operations do -/

private theorem createDirs_file {files : Files} {places : List (List String)} {place : List String}
    {bytes : List UInt8} (h : (files.createDirs places)[place]? = some (.file bytes)) :
    files[place]? = some (.file bytes) := by
  induction places generalizing files with
  | nil => exact h
  | cons p rest ih =>
    simp only [createDirs] at h
    split at h
    · exact h
    · exact ih h
    · have hins := ih h
      rw [Std.ExtTreeMap.getElem?_insert] at hins
      split at hins
      · cases hins
      · exact hins

/-- Making directories adds no file. -/
theorem createDirAll_file {files : Files} {dirs place : List String} {bytes : List UInt8}
    (h : (files.createDirAll dirs)[place]? = some (.file bytes)) :
    files[place]? = some (.file bytes) :=
  createDirs_file h

/-- Making directories changes nothing but free places among them, which become directories. -/
theorem createDirs_getElem? (files : Files) (places : List (List String))
    (place : List String) :
    (files.createDirs places)[place]? = files[place]? ∨
      place ∈ places ∧ files[place]? = none ∧ (files.createDirs places)[place]? = some .dir := by
  induction places generalizing files with
  | nil => exact .inl rfl
  | cons p rest ih =>
    simp only [createDirs]
    split
    · exact .inl rfl
    · rcases ih files with h | ⟨hin, h⟩
      · exact .inl h
      · exact .inr ⟨List.mem_cons_of_mem p hin, h⟩
    · next hfree =>
      rcases ih (files.insert p .dir) with h | ⟨hin, hnone, h⟩
      · rw [Table.getElem?_insert] at h
        split at h
        · next heq =>
          subst heq
          exact .inr ⟨List.mem_cons_self, hfree, h⟩
        · exact .inl h
      · rw [Table.getElem?_insert] at hnone
        split at hnone
        · cases hnone
        · exact .inr ⟨List.mem_cons_of_mem p hin, hnone, h⟩

private theorem mem_dirsOf {dirs place : List String} :
    place ∈ (List.range (dirs.length + 1)).map dirs.take ↔ place <+: dirs := by
  rw [List.prefix_iff_eq_take, List.mem_map]
  constructor
  · rintro ⟨n, hn, rfl⟩
    rw [List.length_take, Nat.min_eq_left (by simpa [Nat.lt_succ_iff] using hn)]
  · intro h
    refine ⟨place.length, ?_, h.symm⟩
    have hle : place.length ≤ dirs.length := by
      rw [h, List.length_take]
      omega
    simpa [Nat.lt_succ_iff] using hle

/-- Making directories changes nothing but free places on the way, which become directories. -/
theorem createDirAll_getElem? (files : Files) (dirs place : List String) :
    (files.createDirAll dirs)[place]? = files[place]? ∨
      place <+: dirs ∧ files[place]? = none ∧ (files.createDirAll dirs)[place]? = some .dir := by
  rcases createDirs_getElem? files _ place with h | ⟨hin, h⟩
  · exact .inl h
  · exact .inr ⟨mem_dirsOf.mp hin, h⟩

/-- Where no file is in the way, all the places become directories. -/
theorem createDirs_dir {files : Files} {places : List (List String)}
    (hfree : ∀ place ∈ places, ∀ bytes, files[place]? ≠ some (.file bytes)) {place : List String}
    (hin : place ∈ places) : (files.createDirs places)[place]? = some .dir := by
  induction places generalizing files with
  | nil => cases hin
  | cons p rest ih =>
    have hrest : ∀ q ∈ rest, ∀ bytes, files[q]? ≠ some (.file bytes) :=
      fun q hq ↦ hfree q (List.mem_cons_of_mem p hq)
    simp only [createDirs]
    split
    · next hfile => exact absurd hfile (hfree p List.mem_cons_self _)
    · next hdir =>
      rcases List.mem_cons.mp hin with rfl | hin
      · rcases createDirs_getElem? files rest place with h | ⟨-, hnone, -⟩
        · rw [h, hdir]
        · rw [hdir] at hnone
          cases hnone
      · exact ih hrest hin
    · next hnone =>
      rcases List.mem_cons.mp hin with rfl | hin
      · rcases createDirs_getElem? (files.insert place .dir) rest place with h | ⟨-, hfree', -⟩
        · rw [h, Table.getElem?_insert, if_pos rfl]
        · rw [Table.getElem?_insert, if_pos rfl] at hfree'
          cases hfree'
      · apply ih _ hin
        intro q hq bytes
        rw [Table.getElem?_insert]
        split
        · simp
        · exact hrest q hq bytes

/-- Where no file is in the way, all directories are made. -/
theorem createDirAll_dir {files : Files} {dirs : List String}
    (hfree : ∀ place, place <+: dirs → ∀ bytes, files[place]? ≠ some (.file bytes))
    {place : List String} (h : place <+: dirs) : (files.createDirAll dirs)[place]? = some .dir :=
  createDirs_dir (fun p hp ↦ hfree p (mem_dirsOf.mp hp)) (mem_dirsOf.mpr h)

/-- Removing a file frees its place and no other one. -/
theorem removeFile_getElem? {files : Files} {removed : List String}
    (hdir : files[removed]? ≠ some .dir) (place : List String) :
    (files.removeFile removed)[place]? = if removed = place then none else files[place]? := by
  unfold removeFile
  cases hfound : files[removed]? with
  | none =>
    by_cases heq : removed = place
    · rw [if_pos heq, ← heq]
      exact hfound
    · rw [if_neg heq]
  | some entry =>
    cases entry with
    | file bytes => exact Table.getElem?_erase files removed place
    | dir => exact absurd hfound hdir

/-- A file that is read lies at the place. -/
theorem file_of_read {files : Files} {place : List String} {fault : Option String}
    {bytes : List UInt8} (h : files.read place fault = .ok bytes) :
    files[place]? = some (.file bytes) := by
  unfold read at h
  split at h <;> simp_all

/-- A write that succeeds is an insertion. -/
theorem eq_insert_of_write {files next : Files} {place : List String} {bytes : List UInt8}
    {fault : Option String} (h : files.write place bytes fault = .ok next) :
    next = files.insert place (.file bytes) := by
  unfold write at h
  split at h <;> simp_all

/-- A file is written where no directory lies, below a directory. -/
theorem write_eq_ok {files : Files} {place : List String} {bytes : List UInt8}
    (hparent : files[place.dropLast]? = some .dir) (hdir : files[place]? ≠ some .dir) :
    files.write place bytes none = .ok (files.insert place (.file bytes)) := by
  unfold write
  split <;> simp_all

/-- Going through places succeeds when all are directories. -/
theorem enter_eq_ok {files : Files} {places : List (List String)} :
    files.enter places = .ok () ↔ ∀ place ∈ places, files[place]? = some .dir := by
  induction places with
  | nil => simp [enter]
  | cons place rest ih =>
    rw [List.forall_mem_cons, enter]
    split
    · next hdir => rw [ih, hdir, eq_self, true_and]
    · next hfile => simp [hfile]
    · next hnone => simp [hnone]

/-- A path text names an entry when all places before its end are directories. -/
theorem lookup_eq_some {files : Files} {path : String} {entry : Entry} :
    files.lookup path = some entry ↔
      (∀ place ∈ Path.approach path, files[place]? = some .dir) ∧
        files[Path.place path]? = some entry := by
  rw [← enter_eq_ok, lookup]
  cases files.enter (Path.approach path) with
  | ok _ => simp
  | error e => simp

/-- A name leads to an entry when the walk makes its detours through directories. -/
theorem reach_eq_some {files : Files} {base name : String} {entry : Entry} :
    files.reach base name = some entry ↔
      (∀ place ∈ Path.detours (Path.route base name) (Path.leads base name),
        files[place]? = some .dir) ∧ files[Path.leads base name]? = some entry := by
  rw [← enter_eq_ok, reach]
  cases files.enter (Path.detours (Path.route base name) (Path.leads base name)) with
  | ok _ => simp
  | error e => simp

/-- Names one below the other lead to what lies there. -/
theorem reach_names {files : Files} {base name : String} {names : List String}
    (h : Path.Names name names) : files.reach base name = files[Path.leads base name]? := by
  rw [reach, Path.detours_names base h]
  rfl

/-- A file that a path text names is read. -/
theorem readPath_eq_ok {files : Files} {path : String} {bytes : List UInt8} :
    files.readPath path = .ok bytes ↔ files.lookup path = some (.file bytes) := by
  unfold readPath lookup
  cases files.enter (Path.approach path) with
  | error e => simp [bind, Except.bind]
  | ok _ =>
    change files.read (Path.place path) none = .ok bytes ↔ _
    unfold read
    split <;> simp_all

/-- A write to a path text is an insertion at its end. -/
theorem eq_insert_of_writePath {files next : Files} {path : String} {bytes : List UInt8}
    (h : files.writePath path bytes = .ok next) :
    next = files.insert (Path.place path) (.file bytes) := by
  unfold writePath at h
  cases henter : files.enter (Path.approach path) with
  | error e =>
    rw [henter] at h
    cases h
  | ok _ =>
    rw [henter] at h
    exact eq_insert_of_write h

/-- A path text is written below directories, where no directory lies. -/
theorem writePath_eq_ok {files : Files} {path : String} {bytes : List UInt8}
    (happroach : ∀ place ∈ Path.approach path, files[place]? = some .dir)
    (hparent : files[(Path.place path).dropLast]? = some .dir)
    (hdir : files[Path.place path]? ≠ some .dir) :
    files.writePath path bytes = .ok (files.insert (Path.place path) (.file bytes)) := by
  unfold writePath
  rw [enter_eq_ok.mpr happroach]
  exact write_eq_ok hparent hdir

/-- What `create_dir_all` makes lies on the way of its path text. -/
theorem mem_stations_of_mem_madeBy {path : String} {place : List String}
    (h : place ∈ madeBy path) : place ∈ Path.stations path := by
  unfold madeBy at h
  split at h
  · exact Path.mem_stations_of_mem_parentStations h
  · exact h

/-- Making directories along a path text, whatever it reports. -/
theorem makeDirs_fst (files : Files) (path : String) :
    (files.makeDirs path).1 = files.createDirs (madeBy path) := by
  unfold makeDirs
  dsimp only
  split <;> rfl

/-- `create_dir_all` reports no error exactly when the directory is there. -/
theorem makeDirs_snd_eq_none {files : Files} {path : String} :
    (files.makeDirs path).2 = none ↔ (files.makeDirs path).1.lookup path = some .dir := by
  rw [makeDirs_fst, makeDirs, lookup]
  split <;> simp_all

/-- The names in a directory. -/
theorem mem_children {files : Files} {place : List String} {name : String} :
    name ∈ files.children place ↔ Path.Plain name ∧ files[place ++ [name]]?.isSome := by
  rw [children, List.mem_filterMap, ← Std.ExtTreeMap.mem_iff_isSome_getElem?]
  constructor
  · rintro ⟨key, hkey, hname⟩
    obtain ⟨-, hdecide⟩ := Option.filter_eq_some_iff.mp hname
    obtain ⟨rfl, hplain⟩ := of_decide_eq_true hdecide
    exact ⟨hplain, Std.ExtTreeMap.mem_keys.mp hkey⟩
  · rintro ⟨hplain, hin⟩
    refine ⟨place ++ [name], Std.ExtTreeMap.mem_keys.mpr hin, ?_⟩
    simp [hplain]

/-- No file lies deeper. -/
theorem length_le_depth {files : Files} {place : List String} (h : files[place]?.isSome) :
    place.length ≤ files.depth := by
  have hin : place.length ∈ files.keys.map List.length :=
    List.mem_map_of_mem (Std.ExtTreeMap.mem_keys.mpr (Std.ExtTreeMap.mem_iff_isSome_getElem?.mpr h))
  unfold depth
  generalize files.keys.map List.length = lengths at hin
  induction lengths with
  | nil => cases hin
  | cons n rest ih =>
    rw [List.foldr_cons]
    rcases List.mem_cons.mp hin with rfl | hin
    · exact Nat.le_max_left _ _
    · exact Nat.le_trans (ih hin) (Nat.le_max_right _ _)

/-- Removing a tree frees the place and all places below it. -/
theorem removeTree_getElem? (files : Files) (removed place : List String) :
    (files.removeTree removed)[place]? = if removed <+: place then none else files[place]? := by
  rw [removeTree, Std.ExtTreeMap.getElem?_filter']
  by_cases hpre : removed <+: place
  · simp [hpre]
  · have hno : removed.isPrefixOf place = false := by
      rw [Bool.eq_false_iff]
      exact fun he ↦ hpre (List.isPrefixOf_iff_prefix.mp he)
    rw [hno, if_neg hpre]
    cases files[place]? <;> rfl

end Files

end PeerDeploy.Base
