import Mathlib.Data.List.Induction
import PeerDeploy.Base.Files

/-!
# Directory trees

General support: what a directory holds, by relative place, and steps that fill a directory
with a tree. A step may meet a directory that holds parts of the tree already; it completes
them, keeps what is complete, and changes nothing elsewhere.
-/

namespace PeerDeploy.Base

/-- What a directory holds, by the names that lead there. -/
abbrev Tree := List String → Option Entry

namespace Tree

/-- The tree in a directory of the files. -/
def ofFiles (files : Files) (place : List String) : Tree := fun names ↦ files[place ++ names]?

/-- Names are those of files, and entries lie in directories. -/
structure Closed (tree : Tree) : Prop where
  plain : ∀ names name, (tree (names ++ [name])).isSome → Path.Plain name
  parent : ∀ names name, (tree (names ++ [name])).isSome → tree names = some .dir

/-- What lies below the base is of the kind that the tree has there. -/
def Fits (tree : Tree) (base : List String) (files : Files) : Prop :=
  ∀ names entry, files[base ++ names]? = some entry →
    ∃ planned, tree names = some planned ∧ (entry = .dir ↔ planned = .dir)

/-- From one state of the files to the other, the base is filled with parts of the tree. -/
structure Fills (tree : Tree) (base : List String) (before after : Files) : Prop where
  outside : ∀ place, ¬ base <+: place → after[place]? = before[place]?
  fits : tree.Fits base before → tree.Fits base after
  kept : ∀ names entry, tree names = some entry → before[base ++ names]? = some entry →
    after[base ++ names]? = some entry
  dirs : ∀ place : List String, before[place]? = some .dir → after[place]? = some .dir

section Fills

variable {tree : Tree} {base : List String} {before after last : Files}

/-- Nothing is filled. -/
theorem Fills.refl (files : Files) : tree.Fills base files files :=
  ⟨fun _ _ ↦ rfl, id, fun _ _ _ h ↦ h, fun _ h ↦ h⟩

/-- Steps that fill the base can follow each other. -/
theorem Fills.trans (h : tree.Fills base before after) (h' : tree.Fills base after last) :
    tree.Fills base before last where
  outside place hout := (h'.outside place hout).trans (h.outside place hout)
  fits hfits := h'.fits (h.fits hfits)
  kept names entry htree hbefore := h'.kept names entry htree (h.kept names entry htree hbefore)
  dirs place hdir := h'.dirs place (h.dirs place hdir)

/-- A file of the tree is put in its place, where no directory lies. -/
theorem fills_insert {names : List String} {bytes : List UInt8} {files : Files}
    (h : tree names = some (.file bytes)) (hfree : files[base ++ names]? ≠ some .dir) :
    tree.Fills base files (files.insert (base ++ names) (.file bytes)) where
  outside place hout := by
    rw [Table.getElem?_insert, if_neg]
    rintro rfl
    exact hout (List.prefix_append base names)
  fits hfits others entry hafter := by
    rw [Table.getElem?_insert] at hafter
    split at hafter
    · next heq =>
      obtain rfl := List.append_cancel_left heq
      cases hafter
      exact ⟨_, h, Iff.rfl⟩
    · exact hfits others entry hafter
  kept others entry htree hbefore := by
    rw [Table.getElem?_insert]
    split
    · next heq =>
      obtain rfl := List.append_cancel_left heq
      rw [← htree, h]
    · exact hbefore
  dirs place hdir := by
    rw [Table.getElem?_insert]
    split
    · next heq =>
      rw [← heq] at hdir
      exact absurd hdir hfree
    · exact hdir

/-- A file of the tree may have other bytes for a while. -/
theorem Fits.insert {names : List String} {bytes content : List UInt8} {files : Files}
    (h : tree.Fits base files) (hfile : tree names = some (.file content)) :
    tree.Fits base (files.insert (base ++ names) (.file bytes)) := by
  intro others entry hafter
  rw [Table.getElem?_insert] at hafter
  split at hafter
  · next heq =>
    obtain rfl := List.append_cancel_left heq
    cases hafter
    exact ⟨_, hfile, by simp⟩
  · exact h others entry hafter

/-- Where parts of the tree lie, no directory is in the way of a file. -/
theorem Fits.ne_dir {names : List String} {bytes : List UInt8} {files : Files}
    (h : tree.Fits base files) (hfile : tree names = some (.file bytes)) :
    files[base ++ names]? ≠ some .dir := by
  intro hdir
  obtain ⟨planned, hplanned, hkind⟩ := h names .dir hdir
  rw [hfile] at hplanned
  cases hplanned
  cases hkind.mp rfl

/-- The places are directories already or those of the tree. -/
def Leads (tree : Tree) (base : List String) (files : Files) (places : List (List String)) :
    Prop :=
  ∀ place ∈ places, files[place]? = some .dir ∨ ∃ names, place = base ++ names ∧
    tree names = some .dir

end Fills

section Closed

variable {tree : Tree}

/-- Above an entry there are only directories. -/
theorem Closed.dir_of_prefix (h : tree.Closed) {front names : List String}
    (hsome : (tree names).isSome) (hpre : front <+: names) (hne : front ≠ names) :
    tree front = some .dir := by
  obtain ⟨rest, rfl⟩ := hpre
  induction rest using List.reverseRecOn with
  | nil => exact absurd (List.append_nil front).symm hne
  | append_singleton rest name ih =>
    rw [← List.append_assoc] at hsome
    have hdir := h.parent _ _ hsome
    by_cases hrest : rest = []
    · rwa [hrest, List.append_nil] at hdir
    · exact ih (by rw [hdir]; rfl) (by simpa using hrest)

/-- Nothing lies below a file. -/
theorem Closed.leaf (h : tree.Closed) {front names : List String} {bytes : List UInt8}
    (hfile : tree front = some (.file bytes)) (hsome : (tree (front ++ names)).isSome) :
    names = [] := by
  by_cases hnil : names = []
  · exact hnil
  · have hdir := h.dir_of_prefix hsome (List.prefix_append front names) (by simpa using hnil)
    rw [hfile] at hdir
    cases hdir

/-- A directory of a tree holds a tree. -/
theorem Closed.sub (h : tree.Closed) (front : List String) :
    Closed fun names ↦ tree (front ++ names) where
  plain names name hsome := h.plain (front ++ names) name (by rwa [List.append_assoc])
  parent names name hsome := h.parent (front ++ names) name (by rwa [List.append_assoc])

/-- The names of an entry are plain. -/
theorem Closed.plain_of_mem (h : tree.Closed) {names : List String}
    (hsome : (tree names).isSome) {name : String} (hin : name ∈ names) : Path.Plain name := by
  obtain ⟨front, rest, rfl⟩ := List.append_of_mem hin
  by_cases hrest : rest = []
  · exact h.plain front name (by rwa [hrest] at hsome)
  · have hpre : front ++ [name] <+: front ++ name :: rest := by simp
    apply h.plain front name
    rw [h.dir_of_prefix hsome hpre (by simpa using Ne.symm hrest)]
    rfl

/-- What lies in a directory has its first name among the children. -/
theorem mem_children_of_isSome {files : Files} {place : List String}
    (h : (ofFiles files place).Closed) {name : String} {names : List String}
    (hsome : (ofFiles files place (name :: names)).isSome) : name ∈ files.children place := by
  rw [Files.mem_children]
  refine ⟨h.plain_of_mem hsome List.mem_cons_self, ?_⟩
  by_cases hnil : names = []
  · rwa [hnil] at hsome
  · have hdir := h.dir_of_prefix hsome (List.prefix_append [name] names) (by simpa using hnil)
    rw [ofFiles] at hdir
    rw [hdir]
    rfl

/-- The tree in a directory of a directory. -/
theorem ofFiles_append (files : Files) (place front : List String) :
    ofFiles files (place ++ front) = fun names ↦ ofFiles files place (front ++ names) := by
  funext names
  simp [ofFiles]

end Closed

/-! ### Trees by path texts -/

/-- The path text goes through directories to a directory. -/
def Reaches (files : Files) (path : String) : Prop :=
  ∀ place ∈ Path.stations path, files[place]? = some .dir

/-- A directory is found exactly when its path reaches it. -/
theorem lookup_eq_dir {files : Files} {path : String} :
    files.lookup path = some .dir ↔ Reaches files path := by
  rw [Files.lookup_eq_some, Reaches]
  constructor
  · rintro ⟨happroach, hend⟩ place hin
    rcases (Path.mem_stations path place).mp hin with hon | rfl
    · exact happroach place hon
    · exact hend
  · intro h
    exact ⟨fun place hin ↦ h place ((Path.mem_stations path place).mpr (.inl hin)),
      h _ (Path.place_mem_stations path)⟩

/-- A directory in a directory is reached. -/
theorem reaches_join {files : Files} {path name : String} (h : Reaches files path)
    (hname : Path.Plain name) (hdir : files[Path.place path ++ [name]]? = some .dir) :
    Reaches files (Path.join path name) := by
  intro place hin
  rcases (Path.mem_stations_join_plain path hname place).mp hin with hbase | rfl
  · exact h place hbase
  · exact hdir

/-- An entry of a directory is found by its name. -/
theorem lookup_join {files : Files} {path name : String} (h : Reaches files path)
    (hname : Path.Plain name) :
    files.lookup (Path.join path name) = files[Path.place path ++ [name]]? := by
  apply Option.ext
  intro entry
  rw [Files.lookup_eq_some, Path.place_join path hname]
  constructor
  · exact fun hfound ↦ hfound.2
  · intro hfound
    exact ⟨fun place hin ↦ h place ((Path.mem_approach_join_plain path hname place).mp hin),
      hfound⟩

/-- In a tree, a name leads from a directory to what its path text names. -/
theorem reach_eq_lookup {files : Files} {path : String} (hclosed : (ofFiles files []).Closed)
    (h : Reaches files path) (name : String) :
    files.reach path name = files.lookup (Path.join path name) := by
  apply Option.ext
  intro entry
  rw [Files.reach_eq_some, Files.lookup_eq_some, Path.place_join_eq]
  constructor
  · rintro ⟨hdetours, hend⟩
    refine ⟨fun place hin ↦ ?_, hend⟩
    rcases (Path.mem_approach_join_iff path name place).mp hin with hon | ⟨-, hbase⟩
    · by_cases habove : Path.Below place (Path.leads path name)
      · have hsome : (ofFiles files [] (Path.leads path name)).isSome := by
          rw [ofFiles, List.nil_append, hend]
          rfl
        exact hclosed.dir_of_prefix hsome habove.1 habove.2
      · exact hdetours place (List.mem_filter.mpr ⟨hon, by simpa using habove⟩)
    · exact h place hbase
  · rintro ⟨happroach, hend⟩
    refine ⟨fun place hin ↦ ?_, hend⟩
    apply happroach
    exact (Path.mem_approach_join_iff path name place).mpr (.inl (List.mem_filter.mp hin).1)

/-- Reaching a directory is kept while directories stay. -/
theorem Reaches.mono {before after : Files} {path : String} (h : Reaches before path)
    (hdirs : ∀ place : List String, before[place]? = some .dir → after[place]? = some .dir) :
    Reaches after path := fun place hin ↦ hdirs place (h place hin)

section Names

variable {tree : Tree} {files : Files} {dir text : String} {names : List String}

end Names

end Tree

end PeerDeploy.Base
