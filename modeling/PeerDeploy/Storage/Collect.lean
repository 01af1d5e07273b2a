import PeerDeploy.Storage.ContentStore

/-!
# Pinning and collecting blobs

The operations of `crates/agent/src/storage/mod.rs` on the whole index: `has`, `list`, `pin`
and the garbage collection that removes the least recently used blobs.
-/

namespace PeerDeploy.Storage

open PeerDeploy.Common PeerDeploy.Base

namespace Store

/-- `crates/agent/src/storage/mod.rs:72–74`; `none` when it panics. -/
def has (base : String) (s : Store) (digest : String) : Option Bool :=
  (pathForDigest base digest).map fun _ ↦ (lookupDigest base s.files digest).isSome

/-- `crates/agent/src/storage/mod.rs:108–111`. -/
def list (s : Store) : List (String × IndexEntry) := s.index.toList

/-- `crates/agent/src/storage/mod.rs:113–121`. -/
def pin (s : Store) (digest : String) (value : Bool) (input : StoreInput) :
    Store × Except String Unit :=
  match s.index[digest]? with
  | none => (s, .error "digest not found")
  | some entry =>
    match s.saveEntry digest { entry with pinned := value } input with
    | .error e => (s, .error e)
    | .ok s => (s, .ok ())

/-- The entries with their digests, the least recently accessed first. -/
def leastRecent (s : Store) : List (String × IndexEntry) :=
  s.list.mergeSort fun x y ↦ x.2.lastAccessedUnix ≤ y.2.lastAccessedUnix

/-- The total size of some entries, as a `u64`. -/
def totalSize (items : List (String × IndexEntry)) : Nat :=
  (items.map fun item ↦ item.2.sizeBytes).sum % 2 ^ 64

/-- The loop of `gc_to_target`, on the files and on the loaded index. A removal that fails
leaves the file; `crates/agent/src/storage/mod.rs:140–152`. -/
def collect (base : String) (target : Nat) (removeFails : List String → Bool) :
    Store → Nat → List (String × IndexEntry) → Option Store
  | s, _, [] => some s
  | s, current, (digest, entry) :: rest =>
    if current ≤ target then some s
    else if entry.pinned then collect base target removeFails s current rest
    else do
      let path ← pathForDigest base digest
      let files :=
        if removeFails (Path.place path) then s.files else s.files.removeFile (Path.place path)
      collect base target removeFails { files, index := s.index.erase digest }
        (current - entry.sizeBytes) rest

/-- `crates/agent/src/storage/mod.rs:129–153`; `none` when it panics. -/
def gcToTarget (base : String) (s : Store) (target : Nat) (removeFails : List String → Bool)
    (input : StoreInput) : Option (Store × Except String Unit) := do
  let items := s.leastRecent
  let collected ← s.collect base target removeFails (totalSize items) items
  match input.indexError with
  | some e => return ({ s with files := collected.files }, .error e)
  | none => return (collected, .ok ())

end Store

/-! ### The index and the blobs -/

/-- A file below the base directory. -/
def BlobFile (base : String) (files : Files) (place : List String) (bytes : Bytes) : Prop :=
  Path.Below (Path.place base) place ∧ files[place]? = some (.file bytes)

/-- The index lists the blob files, each under its name, which is its digest, with its size. -/
structure Consistent (sha256Hex : Bytes → String) (base : String) (s : Store) : Prop where
  names : ∀ digest, s.index.contains digest = true ↔
    ∃ place bytes, BlobFile base s.files place bytes ∧ place.getLast? = some digest
  content : ∀ place bytes, BlobFile base s.files place bytes →
    place.getLast? = some (sha256Hex bytes)
  sizes : ∀ place bytes digest entry, BlobFile base s.files place bytes →
    place.getLast? = some digest → s.index[digest]? = some entry →
      entry.sizeBytes = bytes.length

/-- No blob and no entry, and nothing below the base directory. -/
def EmptyStore (base : String) (s : Store) : Prop :=
  s.index = ∅ ∧ ∀ place, Path.Below (Path.place base) place → s.files[place]? = none

/-- Different byte strings of the list have different digests. -/
def CollisionFree (sha256Hex : Bytes → String) (stored : List Bytes) : Prop :=
  ∀ x ∈ stored, ∀ y ∈ stored, sha256Hex x = sha256Hex y → x = y

/-- Each entry has its blob, among the byte strings stored so far, and below the base directory
lie only these blobs and the directories that lead to them. -/
structure Agrees (sha256Hex : Bytes → String) (base : String) (stored : List Bytes) (s : Store) :
    Prop where
  blob : ∀ digest entry, s.index[digest]? = some entry →
    ∃ bytes ∈ stored, sha256Hex bytes = digest ∧ entry.sizeBytes = bytes.length ∧
      s.files[blobPlace base digest]? = some (.file bytes)
  below : ∀ place found, Path.Below (Path.place base) place → s.files[place]? = some found →
    found = .dir ∧ place.length < (Path.place base).length + 3 ∨
      ∃ digest entry, s.index[digest]? = some entry ∧ place = blobPlace base digest

/-- The file of a blob is named by its digest. -/
theorem getLast?_blobPlace (base digest : String) :
    (blobPlace base digest).getLast? = some digest := by
  simp [blobPlace]

/-- A blob lies three levels below the store. -/
theorem length_blobPlace (base digest : String) :
    (blobPlace base digest).length = (Path.place base).length + 3 := by
  simp [blobPlace]

/-- A blob lies below the store. -/
theorem below_blobPlace (base digest : String) :
    Path.Below (Path.place base) (blobPlace base digest) :=
  ⟨List.prefix_append _ _, by simp [blobPlace]⟩

/-- Different digests have different places. -/
theorem blobPlace_inj {base digest other : String}
    (h : blobPlace base digest = blobPlace base other) : digest = other := by
  have hlast := congrArg List.getLast? h
  rw [getLast?_blobPlace, getLast?_blobPlace] at hlast
  exact Option.some.inj hlast

section Agreement

variable {sha256Hex : Bytes → String} {base : String} {stored : List Bytes} {s : Store}

/-- A file below the base directory is the blob of an entry. -/
theorem Agrees.file (h : Agrees sha256Hex base stored s) {place : List String}
    {bytes : Bytes} (hfile : BlobFile base s.files place bytes) :
    ∃ entry, s.index[sha256Hex bytes]? = some entry ∧ place = blobPlace base (sha256Hex bytes) ∧
      entry.sizeBytes = bytes.length ∧ bytes ∈ stored := by
  rcases h.below place _ hfile.1 hfile.2 with ⟨hdir, -⟩ | ⟨digest, entry, hentry, rfl⟩
  · cases hdir
  · obtain ⟨found, hin, hsha, hsize, hat⟩ := h.blob digest entry hentry
    rw [hfile.2] at hat
    cases hat
    subst hsha
    exact ⟨entry, hentry, rfl, hsize, hin⟩

/-- Agreement of the index with the places is what is claimed of a store. -/
theorem Agrees.consistent (h : Agrees sha256Hex base stored s) : Consistent sha256Hex base s where
  names digest := by
    rw [Std.ExtTreeMap.contains_eq_isSome_getElem?, Option.isSome_iff_exists]
    constructor
    · rintro ⟨entry, hentry⟩
      obtain ⟨bytes, -, -, -, hat⟩ := h.blob digest entry hentry
      exact ⟨_, bytes, ⟨below_blobPlace base digest, hat⟩, getLast?_blobPlace base digest⟩
    · rintro ⟨place, bytes, hfile, hlast⟩
      obtain ⟨entry, hentry, rfl, -⟩ := h.file hfile
      rw [getLast?_blobPlace] at hlast
      cases hlast
      exact ⟨entry, hentry⟩
  content place bytes hfile := by
    obtain ⟨entry, -, rfl, -⟩ := h.file hfile
    exact getLast?_blobPlace base _
  sizes place bytes digest entry hfile hlast hentry := by
    obtain ⟨found, hfound, rfl, hsize, -⟩ := h.file hfile
    rw [getLast?_blobPlace] at hlast
    cases hlast
    rw [hfound] at hentry
    cases hentry
    exact hsize

/-- An empty store agrees. -/
theorem agrees_of_empty (h : EmptyStore base s) : Agrees sha256Hex base [] s where
  blob digest entry hentry := by
    rw [h.1] at hentry
    simp at hentry
  below place found hbelow hfound := by
    rw [h.2 place hbelow] at hfound
    cases hfound

/-- More byte strings may have been stored. -/
theorem Agrees.mono (h : Agrees sha256Hex base stored s) (bytes : Bytes) :
    Agrees sha256Hex base (bytes :: stored) s where
  blob digest entry hentry := by
    obtain ⟨found, hin, hrest⟩ := h.blob digest entry hentry
    exact ⟨found, List.mem_cons_of_mem bytes hin, hrest⟩
  below := h.below

private theorem Agrees.createDirAll (h : Agrees sha256Hex base stored s) {dirs : List String}
    (hdirs : dirs.length < (Path.place base).length + 3) :
    Agrees sha256Hex base stored { s with files := s.files.createDirAll dirs } where
  blob digest entry hentry := by
    obtain ⟨bytes, hin, hsha, hsize, hat⟩ := h.blob digest entry hentry
    refine ⟨bytes, hin, hsha, hsize, ?_⟩
    rcases Files.createDirAll_getElem? s.files dirs (blobPlace base digest) with hsame | ⟨-, hnone, -⟩
    · exact hsame.trans hat
    · rw [hat] at hnone
      cases hnone
  below place found hbelow hfound := by
    change (s.files.createDirAll dirs)[place]? = some found at hfound
    rcases Files.createDirAll_getElem? s.files dirs place with hsame | ⟨hpre, -, hdir⟩
    · rw [hsame] at hfound
      exact h.below place found hbelow hfound
    · rw [hdir] at hfound
      cases hfound
      exact .inl ⟨rfl, Nat.lt_of_le_of_lt hpre.length_le hdirs⟩

/-- Opening the store keeps the agreement. -/
theorem Agrees.opened (h : Agrees sha256Hex base stored s) :
    Agrees sha256Hex base stored (s.opened base) :=
  h.createDirAll (by omega)

private theorem Agrees.touch (h : Agrees sha256Hex base stored s) {digest : String}
    {entry changed : IndexEntry} (hentry : s.index[digest]? = some entry)
    (hsize : changed.sizeBytes = entry.sizeBytes) :
    Agrees sha256Hex base stored { s with index := s.index.insert digest changed } where
  blob d e he := by
    change (s.index.insert digest changed)[d]? = some e at he
    rw [Table.getElem?_insert] at he
    split at he
    · next hd =>
      subst hd
      cases he
      rw [hsize]
      exact h.blob digest entry hentry
    · exact h.blob d e he
  below place found hbelow hfound := by
    rcases h.below place found hbelow hfound with hdir | ⟨d, e, he, hplace⟩
    · exact .inl hdir
    · refine .inr ⟨d, ?_⟩
      change ∃ e, (s.index.insert digest changed)[d]? = some e ∧ _
      rw [Table.getElem?_insert]
      split
      · exact ⟨changed, rfl, hplace⟩
      · exact ⟨e, he, hplace⟩

private theorem Agrees.saveEntry (h : Agrees sha256Hex base stored s) {digest : String}
    {entry changed : IndexEntry} {input : StoreInput} {t : Store}
    (hentry : s.index[digest]? = some entry) (hsize : changed.sizeBytes = entry.sizeBytes)
    (hsave : s.saveEntry digest changed input = .ok t) : Agrees sha256Hex base stored t := by
  unfold Store.saveEntry at hsave
  split at hsave
  · cases hsave
  · cases hsave
    exact h.touch hentry hsize

/-- A lookup keeps the agreement, whatever the text. -/
theorem Agrees.getPath (h : Agrees sha256Hex base stored s) {digest : String} {input : StoreInput}
    {t : Store} {found : Option String} (hget : s.getPath base digest input = some (t, found)) :
    Agrees sha256Hex base stored t := by
  unfold Store.getPath at hget
  cases hpath : pathForDigest base digest with
  | none => simp [hpath] at hget
  | some path =>
    simp only [hpath, Option.bind_eq_bind, Option.bind_some] at hget
    split at hget
    · split at hget
      · cases hget
        exact h
      · next entry hentry =>
        split at hget
        · cases hget
          exact h
        · next hsave =>
          cases hget
          exact h.saveEntry hentry (by rfl) hsave
    · cases hget
      exact h

/-- Pinning keeps the agreement, whatever the text. -/
theorem Agrees.pin (h : Agrees sha256Hex base stored s) (digest : String) (value : Bool)
    (input : StoreInput) : Agrees sha256Hex base stored (s.pin digest value input).1 := by
  unfold Store.pin
  split
  · exact h
  · next entry hentry =>
    split
    · exact h
    · next hsave => exact h.saveEntry hentry (by rfl) hsave

private theorem Agrees.insertEntry (h : Agrees sha256Hex base stored s) {bytes : Bytes}
    {entry : IndexEntry} {files : Files} (hsize : entry.sizeBytes = bytes.length)
    (hat : files[blobPlace base (sha256Hex bytes)]? = some (.file bytes))
    (hsame : ∀ place, blobPlace base (sha256Hex bytes) ≠ place →
      files[place]? = s.files[place]?) :
    Agrees sha256Hex base (bytes :: stored)
      { files, index := s.index.insert (sha256Hex bytes) entry } where
  blob d e he := by
    change (s.index.insert (sha256Hex bytes) entry)[d]? = some e at he
    rw [Table.getElem?_insert] at he
    split at he
    · next hd =>
      subst hd
      cases he
      exact ⟨bytes, List.mem_cons_self, rfl, hsize, hat⟩
    · next hne =>
      obtain ⟨found, hin, hsha, hlen, hfile⟩ := (h.mono bytes).blob d e he
      refine ⟨found, hin, hsha, hlen, ?_⟩
      exact (hsame _ fun heq ↦ hne (blobPlace_inj heq)).trans hfile
  below place found hbelow hfound := by
    by_cases hplace : blobPlace base (sha256Hex bytes) = place
    · refine .inr ⟨sha256Hex bytes, entry, ?_, hplace.symm⟩
      change (s.index.insert (sha256Hex bytes) entry)[sha256Hex bytes]? = some entry
      rw [Table.getElem?_insert, if_pos rfl]
    · change files[place]? = some found at hfound
      rw [hsame place hplace] at hfound
      rcases h.below place found hbelow hfound with hdir | ⟨d, e, he, rfl⟩
      · exact .inl hdir
      · have hd : sha256Hex bytes ≠ d := fun heq ↦ hplace (by rw [heq])
        refine .inr ⟨d, e, ?_, rfl⟩
        change (s.index.insert (sha256Hex bytes) entry)[d]? = some e
        rw [Table.getElem?_insert, if_neg hd]
        exact he

private theorem Agrees.at_blobPlace (h : Agrees sha256Hex base stored s) {bytes : Bytes}
    {found : Entry} (hfree : CollisionFree sha256Hex (bytes :: stored))
    (hfound : s.files[blobPlace base (sha256Hex bytes)]? = some found) : found = .file bytes := by
  rcases h.below _ found (below_blobPlace base _) hfound with ⟨-, hlt⟩ | ⟨d, entry, hentry, hplace⟩
  · rw [length_blobPlace] at hlt
    omega
  · rw [← blobPlace_inj hplace] at hentry
    obtain ⟨other, hin, hsha, -, hat⟩ := h.blob _ entry hentry
    have heq : other = bytes :=
      hfree other (List.mem_cons_of_mem bytes hin) bytes List.mem_cons_self hsha
    rw [hfound, heq] at hat
    exact Option.some.inj hat

private theorem writeBlob_cases (s : Store) (path : String) (bytes : Bytes) (input : StoreInput) :
    (∃ found, s.files[Path.place path]? = some found ∧ s.writeBlob path bytes input = (s, none)) ∨
      let dirs := s.files.createDirAll (Path.parentPlace path)
      (∃ e, s.writeBlob path bytes input = ({ s with files := dirs }, some e)) ∨
        s.writeBlob path bytes input =
          ({ s with files := dirs.insert (Path.place path) (.file bytes) }, none) := by
  unfold Store.writeBlob
  rw [Std.ExtTreeMap.contains_eq_isSome_getElem?]
  cases hfound : s.files[Path.place path]? with
  | some found => exact .inl ⟨found, rfl, by simp⟩
  | none =>
    refine .inr ?_
    simp only [Option.isSome_none, Bool.false_eq_true, if_false]
    split
    · next e _ => exact .inl ⟨e, rfl⟩
    · next hwrite =>
      rw [Files.eq_insert_of_write hwrite]
      exact .inr rfl

/-- Storing bytes keeps the agreement, unless they collide with bytes stored before. -/
theorem Agrees.putBytes (hsha : ∀ bytes, IsDigest (sha256Hex bytes))
    (h : Agrees sha256Hex base stored s) {bytes : Bytes} {now : Nat} {t : Store}
    {result : Except String String} (hfree : CollisionFree sha256Hex (bytes :: stored))
    (hput : s.putBytes sha256Hex base bytes { now } = some (t, result)) :
    Agrees sha256Hex base (bytes :: stored) t := by
  obtain ⟨path, hpath, hplace, hparent⟩ := pathForDigest_eq_blob base (hsha bytes)
  have hdirs : Agrees sha256Hex base stored
      { s with files := s.files.createDirAll (Path.parentPlace path) } := by
    apply h.createDirAll
    rw [hparent, List.length_dropLast, length_blobPlace]
    omega
  unfold Store.putBytes at hput
  simp only [hpath, Option.bind_eq_bind, Option.bind_some] at hput
  rcases writeBlob_cases s path bytes { now } with
    ⟨found, hfound, hwrite⟩ | ⟨e, hwrite⟩ | hwrite
  · rw [hplace] at hfound
    have hblob := h.at_blobPlace hfree hfound
    subst hblob
    simp only [hwrite, Store.saveEntry] at hput
    cases hput
    exact h.insertEntry rfl hfound fun _ _ ↦ rfl
  · simp only [hwrite] at hput
    cases hput
    exact hdirs.mono bytes
  · simp only [hwrite, Store.saveEntry] at hput
    cases hput
    rw [hplace]
    apply hdirs.insertEntry rfl
    · rw [Table.getElem?_insert, if_pos rfl]
    · intro place hne
      rw [Table.getElem?_insert, if_neg hne]

/-- No file is where the base directory or a directory above it should be. -/
def Clear (base : String) (files : Files) : Prop :=
  ∀ place, place <+: Path.place base → ∀ bytes, files[place]? ≠ some (.file bytes)

/-- No file is in the way of the base directory, and below it files lie at the level of the blobs
and directories above that level. -/
structure Shape (base : String) (files : Files) : Prop where
  clear : Clear base files
  file : ∀ place bytes, Path.Below (Path.place base) place → files[place]? = some (.file bytes) →
    place.length = (Path.place base).length + 3
  dir : ∀ place, Path.Below (Path.place base) place → files[place]? = some .dir →
    place.length < (Path.place base).length + 3

/-- A store whose index agrees with its blobs is in shape. -/
theorem Agrees.shape (h : Agrees sha256Hex base stored s) (hclear : Clear base s.files) :
    Shape base s.files where
  clear := hclear
  file place bytes hbelow hfound := by
    rcases h.below place _ hbelow hfound with ⟨hdir, -⟩ | ⟨digest, entry, -, rfl⟩
    · cases hdir
    · exact length_blobPlace base digest
  dir place hbelow hfound := by
    rcases h.below place _ hbelow hfound with ⟨-, hlt⟩ | ⟨digest, entry, hentry, rfl⟩
    · exact hlt
    · obtain ⟨bytes, -, -, -, hat⟩ := h.blob digest entry hentry
      rw [hfound] at hat
      cases hat

/-- Where no file is in the way, a blob that is not there is written. -/
theorem Shape.writeBlob {s : Store} (h : Shape base s.files) {digest path : String}
    (hplace : Path.place path = blobPlace base digest)
    (hparent : Path.parentPlace path = (blobPlace base digest).dropLast)
    (hnone : s.files[blobPlace base digest]? = none) (bytes : Bytes) (now : Nat) :
    s.writeBlob path bytes { now } =
      ({ s with
          files := (s.files.createDirAll (blobPlace base digest).dropLast).insert
            (blobPlace base digest) (.file bytes) }, none) := by
  have hlen : (blobPlace base digest).dropLast.length < (Path.place base).length + 3 := by
    rw [List.length_dropLast, length_blobPlace]
    omega
  have hbase : Path.place base <+: (blobPlace base digest).dropLast := by
    rw [blobPlace, List.dropLast_append_of_ne_nil (by simp)]
    exact List.prefix_append _ _
  have hfree : ∀ place, place <+: (blobPlace base digest).dropLast →
      ∀ bytes, s.files[place]? ≠ some (.file bytes) := by
    intro place hpre found hfound
    rcases List.prefix_or_prefix_of_prefix hpre hbase with habove | hbelow
    · exact h.clear place habove found hfound
    · by_cases heq : Path.place base = place
      · have habove : place <+: Path.place base := heq ▸ List.prefix_refl _
        exact h.clear place habove found hfound
      · have hlevel := h.file place found ⟨hbelow, heq⟩ hfound
        have hle := hpre.length_le
        omega
  have hdir := Files.createDirAll_dir hfree (List.prefix_refl _)
  have hblob : (s.files.createDirAll (blobPlace base digest).dropLast)[blobPlace base digest]? =
      none := by
    rcases Files.createDirAll_getElem? s.files (blobPlace base digest).dropLast
      (blobPlace base digest) with hsame | ⟨hpre, -, -⟩
    · rw [hsame, hnone]
    · have hle := hpre.length_le
      rw [length_blobPlace] at hle
      omega
  unfold Store.writeBlob
  rw [Std.ExtTreeMap.contains_eq_isSome_getElem?, hplace, hparent, hnone]
  simp only [Option.isSome_none, Bool.false_eq_true, if_false, Files.write, hblob, hdir]

private theorem clear_createDirAll {files : Files} (hclear : Clear base files)
    (dirs : List String) : Clear base (files.createDirAll dirs) :=
  fun place hpre bytes hfile ↦ hclear place hpre bytes (Files.createDirAll_file hfile)

/-- Opening the store leaves the way clear. -/
theorem clear_opened (hclear : Clear base s.files) : Clear base (s.opened base).files :=
  clear_createDirAll hclear _

/-- Where no file is in the way, bytes are stored and listed under their digest. -/
theorem Agrees.stores (hsha : ∀ bytes, IsDigest (sha256Hex bytes))
    (h : Agrees sha256Hex base stored s) (hclear : Clear base s.files) {bytes : Bytes}
    (hfree : CollisionFree sha256Hex (bytes :: stored)) (now : Nat) :
    ∃ t, s.putBytes sha256Hex base bytes { now } = some (t, .ok (sha256Hex bytes)) ∧
      Clear base t.files ∧
      ∀ digest, t.index.contains digest = true ↔
        sha256Hex bytes = digest ∨ s.index.contains digest = true := by
  obtain ⟨path, hpath, hplace, hparent⟩ := pathForDigest_eq_blob base (hsha bytes)
  unfold Store.putBytes
  simp only [hpath, Option.bind_eq_bind, Option.bind_some]
  cases hfound : s.files[blobPlace base (sha256Hex bytes)]? with
  | some found =>
    have hblob := h.at_blobPlace hfree hfound
    subst hblob
    have hwrite : s.writeBlob path bytes { now } = (s, none) := by
      unfold Store.writeBlob
      rw [Std.ExtTreeMap.contains_eq_isSome_getElem?, hplace, hfound]
      simp
    simp only [hwrite, Store.saveEntry]
    exact ⟨_, rfl, hclear, fun digest ↦ Table.contains_insert_iff _ _ _ _⟩
  | none =>
    simp only [(h.shape hclear).writeBlob hplace hparent hfound bytes now, Store.saveEntry]
    refine ⟨_, rfl, ?_, fun digest ↦ Table.contains_insert_iff _ _ _ _⟩
    intro place hpre found hfile
    simp only [Table.getElem?_insert] at hfile
    split at hfile
    · next heq =>
      have hle := hpre.length_le
      rw [← heq, length_blobPlace] at hle
      omega
    · exact clear_createDirAll hclear _ place hpre found hfile

private theorem Agrees.remove (h : Agrees sha256Hex base stored s) (digest : String) :
    Agrees sha256Hex base stored
      { files := s.files.removeFile (blobPlace base digest), index := s.index.erase digest } := by
  have hfiles (place : List String) : (s.files.removeFile (blobPlace base digest))[place]? =
      if blobPlace base digest = place then none else s.files[place]? := by
    apply Files.removeFile_getElem?
    intro hdir
    rcases h.below _ _ (below_blobPlace base digest) hdir with ⟨-, hlt⟩ | ⟨d, e, he, hplace⟩
    · rw [length_blobPlace] at hlt
      omega
    · obtain ⟨bytes, -, -, -, hat⟩ := h.blob d e he
      rw [← hplace, hdir] at hat
      cases hat
  constructor
  case blob =>
    intro d e he
    change (s.index.erase digest)[d]? = some e at he
    rw [Table.getElem?_erase] at he
    split at he
    · cases he
    · next hne =>
      obtain ⟨bytes, hin, hsha, hsize, hat⟩ := h.blob d e he
      refine ⟨bytes, hin, hsha, hsize, ?_⟩
      change (s.files.removeFile (blobPlace base digest))[blobPlace base d]? = _
      rw [hfiles, if_neg fun heq ↦ hne (blobPlace_inj heq)]
      exact hat
  case below =>
    intro place found hbelow hfound
    change (s.files.removeFile (blobPlace base digest))[place]? = some found at hfound
    rw [hfiles] at hfound
    split at hfound
    · cases hfound
    · next hne =>
      rcases h.below place found hbelow hfound with hdir | ⟨d, e, he, rfl⟩
      · exact .inl hdir
      · have hd : digest ≠ d := fun heq ↦ hne (by rw [heq])
        refine .inr ⟨d, e, ?_, rfl⟩
        change (s.index.erase digest)[d]? = some e
        rw [Table.getElem?_erase, if_neg hd]
        exact he

private theorem Agrees.collect (h : Agrees sha256Hex base stored s) {target current : Nat}
    {items : List (String × IndexEntry)} (hitems : ∀ item ∈ items, IsDigest item.1) {t : Store}
    (hcollect : s.collect base target (fun _ ↦ false) current items = some t) :
    Agrees sha256Hex base stored t := by
  induction items generalizing s current with
  | nil =>
    cases hcollect
    exact h
  | cons item rest ih =>
    obtain ⟨digest, entry⟩ := item
    have hrest : ∀ item ∈ rest, IsDigest item.1 :=
      fun item hin ↦ hitems item (List.mem_cons_of_mem _ hin)
    simp only [Store.collect] at hcollect
    split at hcollect
    · cases hcollect
      exact h
    · split at hcollect
      · exact ih h hrest hcollect
      · obtain ⟨path, hpath, hplace, -⟩ :=
          pathForDigest_eq_blob base (hitems _ List.mem_cons_self)
        simp only [hpath, Option.bind_eq_bind, Option.bind_some, hplace] at hcollect
        exact ih (h.remove digest) hrest hcollect

/-- Collecting blobs keeps the agreement. -/
theorem Agrees.gcToTarget (hsha : ∀ bytes, IsDigest (sha256Hex bytes))
    (h : Agrees sha256Hex base stored s) {target now : Nat} {t : Store}
    {result : Except String Unit}
    (hgc : s.gcToTarget base target (fun _ ↦ false) { now } = some (t, result)) :
    Agrees sha256Hex base stored t := by
  obtain ⟨collected, hcollect, heq⟩ := Option.bind_eq_some_iff.mp hgc
  cases heq
  apply h.collect _ hcollect
  intro item hin
  have hlist : item ∈ s.index.toList := List.mem_mergeSort.mp hin
  obtain ⟨bytes, -, hdigest, -⟩ :=
    h.blob item.1 item.2 (Std.ExtTreeMap.mem_toList_iff_getElem?_eq_some.mp hlist)
  rw [← hdigest]
  exact hsha bytes

end Agreement

end PeerDeploy.Storage
