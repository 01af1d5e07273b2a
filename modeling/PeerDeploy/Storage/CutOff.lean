import PeerDeploy.Base.Transition
import PeerDeploy.Storage.Collect

/-!
# Interrupted writes

`put_bytes` (`crates/agent/src/storage/mod.rs:76–92`) takes a path that exists for a blob
that is stored. A write that fails or is cut off by a crash has opened the file and leaves a
front part of the bytes there, and the next call for the same bytes finds the path.
-/

namespace PeerDeploy.Storage

open PeerDeploy.Common PeerDeploy.Base

/-- How `fs::write` goes once the file can be opened. -/
inductive WriteFate where
  | done
  /-- The call returns an error; the file was not opened, or so many bytes are in it. -/
  | fails (error : String) (written : Option Nat)
  /-- The process dies; the file was not opened, or so many bytes are in it. -/
  | crashes (written : Option Nat)

/-- How a call ends. -/
inductive Ending where
  | ok
  | error (text : String)
  | dead

/-- What the write leaves in the file; `none` where it has not opened it. -/
def WriteFate.left (bytes : Bytes) : WriteFate → Option Bytes
  | .done => some bytes
  | .fails _ written | .crashes written => written.map bytes.take

/-- How the write ends. -/
def WriteFate.ending : WriteFate → Ending
  | .done => .ok
  | .fails error _ => .error error
  | .crashes _ => .dead

/-- What is left of `index.json`: the old content, one that does not parse, or the new one. -/
inductive IndexLeft where
  | old
  | garbled
  | new

/-- How the save of the index goes. -/
inductive IndexFate where
  | saved
  | fails (error : String) (left : IndexLeft)
  | crashes (left : IndexLeft)

/-- What one call reads from outside. -/
structure CutInput where
  now : Nat := 0
  blob : WriteFate := .done
  index : IndexFate := .saved

namespace Store

/-- `fs::write` with its fate. -/
def writeCut (files : Files) (place : List String) (bytes : Bytes) (fate : WriteFate) :
    Files × Ending :=
  match files.write place bytes none, fate with
  | .error _, .crashes _ => (files, .dead)
  | .error e, _ => (files, .error e)
  | .ok _, fate =>
    match fate.left bytes with
    | none => (files, fate.ending)
    | some found => (files.insert place (.file found), fate.ending)

/-- Write the blob unless its path exists; `crates/agent/src/storage/mod.rs:79–84`. -/
def writeBlobCut (s : Store) (path : String) (bytes : Bytes) (fate : WriteFate) : Store × Ending :=
  if s.files.contains (Path.place path) then (s, .ok)
  else
    let (files, ending) :=
      writeCut (s.files.createDirAll (Path.parentPlace path)) (Path.place path) bytes fate
    ({ s with files }, ending)

/-- The index after a save that did not go through. An index that does not parse counts as
empty; `crates/agent/src/storage/mod.rs:53–62`. -/
def indexLeft (s : Store) (digest : String) (entry : IndexEntry) : IndexLeft → Store
  | .old => s
  | .garbled => { s with index := ∅ }
  | .new => { s with index := s.index.insert digest entry }

/-- `crates/agent/src/storage/mod.rs:76–92`; `none` when it panics, and no result when the
process dies. -/
def putBytesCut (sha256Hex : Bytes → String) (base : String) (s : Store) (bytes : Bytes)
    (input : CutInput) : Option (Store × Option (Except String String)) := do
  let digest := sha256Hex bytes
  let path ← pathForDigest base digest
  match s.writeBlobCut path bytes input.blob with
  | (s, .dead) => return (s, none)
  | (s, .error e) => return (s, some (.error e))
  | (s, .ok) =>
    let entry := { s.index[digest]?.getD {} with
      sizeBytes := bytes.length, lastAccessedUnix := input.now }
    match input.index with
    | .saved => return (s.indexLeft digest entry .new, some (.ok digest))
    | .fails e left => return (s.indexLeft digest entry left, some (.error e))
    | .crashes left => return (s.indexLeft digest entry left, none)

end Store

/-- One call of `put_bytes`. -/
structure Put where
  bytes : Bytes
  input : CutInput := {}

/-- The store after some calls, and the bytes and the result of the last one. -/
structure PutState where
  store : Store
  last : Option (Bytes × Except String String) := none

/-- One call; a crash leaves no result. -/
def putStep (sha256Hex : Bytes → String) (base : String) (s : PutState) (put : Put) :
    Option PutState :=
  (s.store.putBytesCut sha256Hex base put.bytes put.input).map fun (store, result) ↦
    { store, last := result.map (put.bytes, ·) }

/-- The last call, if it returned a digest, has its bytes at the path of that digest, and what a
lookup of a digest leads to has that digest. -/
structure Intact (sha256Hex : Bytes → String) (base : String) (s : PutState) : Prop where
  stored : ∀ bytes digest, s.last = some (bytes, .ok digest) →
    ∃ path, pathForDigest base digest = some path ∧
      s.store.files[Path.place path]? = some (.file bytes)
  found : ∀ digest input t path bytes, IsDigest digest →
    s.store.getPath base digest input = some (t, some path) →
      t.files[Path.place path]? = some (.file bytes) → sha256Hex bytes = digest

/-- The call opens a new file for its blob and stops before the last byte. -/
def CutShort (sha256Hex : Bytes → String) (base : String) (s : PutState) (put : Put) : Prop :=
  ∃ path found files, pathForDigest base (sha256Hex put.bytes) = some path ∧
    s.store.files.contains (Path.place path) = false ∧
    (s.store.files.createDirAll (Path.parentPlace path)).write (Path.place path) put.bytes none =
      .ok files ∧
    put.input.blob.left put.bytes = some found ∧ found ≠ put.bytes

private theorem writeBlobCut_done (s : Store) (path : String) (bytes : Bytes) (now : Nat) :
    s.writeBlobCut path bytes .done =
      match s.writeBlob path bytes { now } with
      | (t, some e) => (t, .error e)
      | (t, none) => (t, .ok) := by
  unfold Store.writeBlobCut Store.writeBlob Store.writeCut
  split
  · rfl
  · cases hwrite : (s.files.createDirAll (Path.parentPlace path)).write (Path.place path) bytes none
    with
    | error e =>
      simp only [hwrite]
    | ok files =>
      simp only [hwrite, Files.eq_insert_of_write hwrite]
      rfl

/-- Without an interruption this is the operation of the store. -/
theorem putBytesCut_done (sha256Hex : Bytes → String) (base : String) (s : Store) (bytes : Bytes)
    (now : Nat) : s.putBytesCut sha256Hex base bytes { now } =
      (s.putBytes sha256Hex base bytes { now }).map fun (t, result) ↦ (t, some result) := by
  unfold Store.putBytesCut Store.putBytes
  cases hpath : pathForDigest base (sha256Hex bytes) with
  | none =>
    simp only [hpath]
    rfl
  | some path =>
    simp only [hpath, Option.bind_eq_bind, Option.bind_some, writeBlobCut_done s path bytes now]
    rcases s.writeBlob path bytes { now } with ⟨t, _ | e⟩
    · rfl
    · rfl

/-! ### What a call leaves -/

section Calls

variable {sha256Hex : Bytes → String} {base : String} {known : List Bytes}

/-- What lies at the paths of digests are files, of known contents. -/
def KnownBlobs (base : String) (known : List Bytes) (files : Files) : Prop :=
  ∀ digest found, IsDigest digest → files[blobPlace base digest]? = some found →
    ∃ bytes ∈ known, found = .file bytes

private theorem createDirAll_blob (base : String) (files : Files) (digest other : String) :
    (files.createDirAll (blobPlace base digest).dropLast)[blobPlace base other]? =
      files[blobPlace base other]? := by
  rcases Files.createDirAll_getElem? files (blobPlace base digest).dropLast (blobPlace base other)
    with hsame | ⟨hpre, -, -⟩
  · exact hsame
  · have hle := hpre.length_le
    rw [List.length_dropLast, length_blobPlace, length_blobPlace] at hle
    omega

/-- What the write of a blob can do to the files. -/
inductive BlobMoves (files : Files) (path : String) (bytes : Bytes) (fate : WriteFate) :
    Files → Ending → Prop where
  | present (hpresent : files.contains (Path.place path) = true) :
    BlobMoves files path bytes fate files .ok
  | nothing {ending : Ending} (hmissing : files.contains (Path.place path) = false)
    (hending : ending ≠ .ok)
    (hleft : ∀ next found, (files.createDirAll (Path.parentPlace path)).write
      (Path.place path) bytes none = .ok next → fate.left bytes ≠ some found) :
    BlobMoves files path bytes fate (files.createDirAll (Path.parentPlace path)) ending
  | wrote {next : Files} {found : Bytes} (hmissing : files.contains (Path.place path) = false)
    (hopened : (files.createDirAll (Path.parentPlace path)).write
      (Path.place path) bytes none = .ok next) (hleft : fate.left bytes = some found)
    (hdone : fate.ending = .ok → found = bytes) :
    BlobMoves files path bytes fate
      ((files.createDirAll (Path.parentPlace path)).insert (Path.place path) (.file found))
      fate.ending

/-- A write that ends well leaves all bytes. -/
theorem left_of_ok {fate : WriteFate} (h : fate.ending = .ok) (bytes : Bytes) :
    fate.left bytes = some bytes := by
  cases fate with
  | done => rfl
  | fails error written => cases h
  | crashes written => cases h

/-- Every write of a blob is one of these moves. -/
theorem blobMoves_writeBlobCut (s : Store) (path : String) (bytes : Bytes) (fate : WriteFate) :
    BlobMoves s.files path bytes fate (s.writeBlobCut path bytes fate).1.files
      (s.writeBlobCut path bytes fate).2 := by
  unfold Store.writeBlobCut Store.writeCut
  split
  · next hpresent => exact .present hpresent
  · next hmissing =>
    rw [Bool.not_eq_true] at hmissing
    simp only
    split
    · next hwrite =>
      exact .nothing hmissing (by simp) fun files found hok ↦ by
        rw [hwrite] at hok
        cases hok
    · next hwrite _ =>
      exact .nothing hmissing (by simp) fun files found hok ↦ by
        rw [hwrite] at hok
        cases hok
    · next files hwrite =>
      split
      · next hleft =>
        apply BlobMoves.nothing hmissing _ fun _ found _ hfound ↦ by
          rw [hleft] at hfound
          cases hfound
        intro hok
        rw [left_of_ok hok] at hleft
        cases hleft
      · next found hleft =>
        apply BlobMoves.wrote hmissing hwrite hleft
        intro hok
        rw [left_of_ok hok] at hleft
        exact (Option.some.inj hleft).symm

/-- A call writes its blob, and then the index. -/
theorem moves_of_putBytesCut {sha256Hex : Bytes → String} {base : String} {s t : Store}
    {bytes : Bytes} {input : CutInput} {result : Option (Except String String)}
    (h : s.putBytesCut sha256Hex base bytes input = some (t, result)) :
    ∃ path ending, pathForDigest base (sha256Hex bytes) = some path ∧
      BlobMoves s.files path bytes input.blob t.files ending ∧
      ∀ digest, result = some (.ok digest) → digest = sha256Hex bytes ∧ ending = .ok := by
  unfold Store.putBytesCut at h
  obtain ⟨path, hpath, h⟩ := Option.bind_eq_some_iff.mp h
  have hmoves := blobMoves_writeBlobCut s path bytes input.blob
  generalize s.writeBlobCut path bytes input.blob = wrote at h hmoves
  obtain ⟨u, ending⟩ := wrote
  refine ⟨path, ending, hpath, ?_⟩
  cases ending with
  | dead =>
    cases h
    exact ⟨hmoves, by simp⟩
  | error e =>
    cases h
    exact ⟨hmoves, by simp⟩
  | ok =>
    have hindex (entry : IndexEntry) (left : IndexLeft) :
        (u.indexLeft (sha256Hex bytes) entry left).files = u.files := by
      cases left with
      | old => rfl
      | garbled => rfl
      | new => rfl
    simp only at h
    split at h
    · cases h
      rw [hindex]
      exact ⟨hmoves, fun digest hd ↦ ⟨(Except.ok.inj (Option.some.inj hd)).symm, rfl⟩⟩
    · cases h
      rw [hindex]
      exact ⟨hmoves, by simp⟩
    · cases h
      rw [hindex]
      exact ⟨hmoves, by simp⟩

/-- What a call without a result, or with one, leaves where digests lead to: all as it was, or
what the write left at the path of its digest. -/
theorem blobs_of_putStep (hsha : ∀ bytes, IsDigest (sha256Hex bytes)) {s t : PutState} {put : Put}
    (hstep : putStep sha256Hex base s put = some t) :
    ((∀ digest, t.store.files[blobPlace base digest]? = s.store.files[blobPlace base digest]?) ∧
        ¬ CutShort sha256Hex base s put ∧
        ∀ bytes digest, t.last = some (bytes, .ok digest) → bytes = put.bytes ∧
          digest = sha256Hex put.bytes ∧ (s.store.files[blobPlace base digest]?).isSome = true) ∨
      ∃ found, put.input.blob.left put.bytes = some found ∧
        (∀ digest, t.store.files[blobPlace base digest]? =
          if sha256Hex put.bytes = digest then some (.file found)
          else s.store.files[blobPlace base digest]?) ∧
        (CutShort sha256Hex base s put ↔ found ≠ put.bytes) ∧
        ∀ bytes digest, t.last = some (bytes, .ok digest) → bytes = put.bytes ∧
          digest = sha256Hex put.bytes ∧ found = put.bytes := by
  obtain ⟨⟨store, result⟩, hput, rfl⟩ := Option.map_eq_some_iff.mp hstep
  obtain ⟨path, ending, hpath, hmoves, hresult⟩ := moves_of_putBytesCut hput
  obtain ⟨path', hpath', hplace, hparent⟩ := pathForDigest_eq_blob base (hsha put.bytes)
  rw [hpath] at hpath'
  cases hpath'
  have hlast (bytes : Bytes) (digest : String)
      (h : result.map (put.bytes, ·) = some (bytes, .ok digest)) :
      bytes = put.bytes ∧ digest = sha256Hex put.bytes ∧ ending = .ok := by
    obtain ⟨r, hr, hpair⟩ := Option.map_eq_some_iff.mp h
    cases hpair
    exact ⟨rfl, hresult digest hr⟩
  simp only
  generalize store.files = files at hmoves ⊢
  cases hmoves with
  | present hpresent =>
    rw [Std.ExtTreeMap.contains_eq_isSome_getElem?, hplace] at hpresent
    refine .inl ⟨fun _ ↦ rfl, ?_, ?_⟩
    · rintro ⟨p, found, next, hp, hmissing, -⟩
      rw [hpath] at hp
      cases hp
      rw [Std.ExtTreeMap.contains_eq_isSome_getElem?, hplace, hpresent] at hmissing
      cases hmissing
    · intro bytes digest h
      obtain ⟨hbytes, rfl, -⟩ := hlast bytes digest h
      exact ⟨hbytes, rfl, hpresent⟩
  | nothing hmissing hending hleft =>
    refine .inl ⟨fun digest ↦ ?_, ?_, ?_⟩
    · rw [hparent, createDirAll_blob]
    · rintro ⟨p, found, next, hp, -, hopened, hfound, -⟩
      rw [hpath] at hp
      cases hp
      exact hleft next found hopened hfound
    · intro bytes digest h
      exact absurd (hlast bytes digest h).2.2 hending
  | wrote hmissing hopened hleft hdone =>
    rename_i next found
    refine .inr ⟨found, hleft, fun digest ↦ ?_, ?_, ?_⟩
    · rw [Table.getElem?_insert, hplace, hparent, createDirAll_blob]
      by_cases hsame : sha256Hex put.bytes = digest
      · rw [hsame, if_pos rfl, if_pos rfl]
      · rw [if_neg hsame, if_neg fun heq ↦ hsame (blobPlace_inj heq)]
    · constructor
      · rintro ⟨p, other, -, -, -, -, hother, hne⟩
        rw [hleft] at hother
        cases hother
        exact hne
      · intro hne
        exact ⟨path, found, next, hpath, hmissing, hopened, hleft, hne⟩
    · intro bytes digest h
      obtain ⟨hbytes, hdigest, hok⟩ := hlast bytes digest h
      exact ⟨hbytes, hdigest, hdone hok⟩

private theorem left_eq_take {fate : WriteFate} {bytes found : Bytes}
    (h : fate.left bytes = some found) : ∃ n, found = bytes.take n := by
  cases fate with
  | done =>
    cases h
    exact ⟨bytes.length, List.take_length.symm⟩
  | fails error written =>
    obtain ⟨n, -, rfl⟩ := Option.map_eq_some_iff.mp h
    exact ⟨n, rfl⟩
  | crashes written =>
    obtain ⟨n, -, rfl⟩ := Option.map_eq_some_iff.mp h
    exact ⟨n, rfl⟩

/-- A call leaves known contents at the paths of digests. -/
theorem knownBlobs_putStep (hsha : ∀ bytes, IsDigest (sha256Hex bytes)) {s t : PutState} {put : Put}
    (hknown : ∀ n, put.bytes.take n ∈ known) (h : KnownBlobs base known s.store.files)
    (hstep : putStep sha256Hex base s put = some t) : KnownBlobs base known t.store.files := by
  intro digest entry hd hentry
  rcases blobs_of_putStep hsha hstep with ⟨hsame, -⟩ | ⟨found, hleft, hblobs, -⟩
  · rw [hsame] at hentry
    exact h digest entry hd hentry
  · rw [hblobs] at hentry
    split at hentry
    · cases hentry
      obtain ⟨n, rfl⟩ := left_eq_take hleft
      exact ⟨_, hknown n, rfl⟩
    · exact h digest entry hd hentry

/-- Lookups of digests lead to the right blobs if these are right. -/
theorem found_iff_storeInv (s : Store) : (∀ digest input t path bytes, IsDigest digest →
      s.getPath base digest input = some (t, some path) →
        t.files[Path.place path]? = some (.file bytes) → sha256Hex bytes = digest) ↔
      StoreInv sha256Hex base s.files := by
  constructor
  · intro h digest path bytes hd hpath hfile
    obtain ⟨⟨t, found⟩, hget⟩ := getPath_isSome hpath s {}
    obtain ⟨hfiles, path', hpath', rfl⟩ := getPath_eq_some hget
    rw [hpath] at hpath'
    cases hpath'
    have hin : (lookupDigest base s.files digest).isSome = true := by
      rw [lookupDigest_of_isDigest s.files hd hpath, hfile]
      rfl
    rw [if_pos hin] at hget
    exact h digest {} t path bytes hd hget (hfiles ▸ hfile)
  · intro h digest input t path bytes hd hget hfile
    obtain ⟨hfiles, path', hpath', hfound⟩ := getPath_eq_some hget
    split at hfound
    · cases hfound
      exact h digest path bytes hd hpath' (hfiles ▸ hfile)
    · cases hfound

private theorem putStep_total (base : String) (hsha : ∀ bytes, IsDigest (sha256Hex bytes))
    (s : PutState) (put : Put) : ∃ t, putStep sha256Hex base s put = some t := by
  obtain ⟨path, hpath, -⟩ := pathForDigest_eq_blob base (hsha put.bytes)
  unfold putStep Store.putBytesCut
  simp only [hpath, Option.bind_eq_bind, Option.bind_some]
  split
  · exact ⟨_, rfl⟩
  · exact ⟨_, rfl⟩
  · split
    · exact ⟨_, rfl⟩
    · exact ⟨_, rfl⟩
    · exact ⟨_, rfl⟩

/-- A call keeps the store sound exactly if its write is not cut short. -/
theorem sound_putStep_iff (hsha : ∀ bytes, IsDigest (sha256Hex bytes))
    (hfree : CollisionFree sha256Hex known) {s : PutState} {put : Put}
    (hknown : ∀ n, put.bytes.take n ∈ known) (h : KnownBlobs base known s.store.files)
    (hsound : Intact sha256Hex base s) : ¬ CutShort sha256Hex base s put ↔
      ∀ t, putStep sha256Hex base s put = some t → Intact sha256Hex base t := by
  have hwhole : put.bytes ∈ known := by
    have htake := hknown put.bytes.length
    rwa [List.take_length] at htake
  have hinv := (storeInv_iff_blobs _).mp ((found_iff_storeInv s.store).mp hsound.found)
  obtain ⟨path, hpath, hplace, -⟩ := pathForDigest_eq_blob base (hsha put.bytes)
  constructor
  · intro hcut t hstep
    rcases blobs_of_putStep hsha hstep with
      ⟨hsame, -, hlast⟩ | ⟨found, hleft, hblobs, hiff, hlast⟩
    · refine ⟨?_, (found_iff_storeInv _).mpr ((storeInv_iff_blobs _).mpr ?_)⟩
      · -- the path existed: what lies there is a known content with the digest of the bytes
        intro bytes digest hreturned
        obtain ⟨rfl, rfl, hpresent⟩ := hlast bytes digest hreturned
        obtain ⟨entry, hentry⟩ := Option.isSome_iff_exists.mp hpresent
        obtain ⟨other, hother, rfl⟩ := h _ entry (hsha put.bytes) hentry
        have hequal := hinv _ other (hsha put.bytes) hentry
        rw [hfree other hother put.bytes hwhole hequal, ← hsame] at hentry
        exact ⟨path, hpath, hplace ▸ hentry⟩
      · intro digest bytes hd hfile
        rw [hsame] at hfile
        exact hinv digest bytes hd hfile
    · have hfound : found = put.bytes := Decidable.not_not.mp fun hne ↦ hcut (hiff.mpr hne)
      subst hfound
      refine ⟨?_, (found_iff_storeInv _).mpr ((storeInv_iff_blobs _).mpr ?_)⟩
      · intro bytes digest hreturned
        obtain ⟨rfl, rfl, -⟩ := hlast bytes digest hreturned
        refine ⟨path, hpath, ?_⟩
        rw [hplace, hblobs, if_pos rfl]
      · intro digest bytes hd hfile
        rw [hblobs] at hfile
        split at hfile
        · next hsame =>
          cases hfile
          exact hsame
        · exact hinv digest bytes hd hfile
  · intro hnext hcut
    obtain ⟨t, hstep⟩ := putStep_total base hsha s put
    rcases blobs_of_putStep hsha hstep with ⟨-, hnot, -⟩ | ⟨found, hleft, hblobs, hiff, -⟩
    · exact hnot hcut
    · have hright := (storeInv_iff_blobs _).mp ((found_iff_storeInv _).mp (hnext t hstep).found)
      have hequal := hright (sha256Hex put.bytes) found (hsha put.bytes) (by
        rw [hblobs, if_pos rfl])
      obtain ⟨n, rfl⟩ := left_eq_take hleft
      exact hiff.mp hcut (hfree _ (hknown n) put.bytes hwhole hequal)

/-- A history of calls keeps the store sound exactly if no write of a blob is cut short. -/
theorem puts_sound_iff (hsha : ∀ bytes, IsDigest (sha256Hex bytes))
    (hfree : CollisionFree sha256Hex known) {s : Store} (hblobs : KnownBlobs base known s.files)
    (hinv : StoreInv sha256Hex base s.files) {puts : List Put}
    (hputs : ∀ put ∈ puts, ∀ n, put.bytes.take n ∈ known) :
    Throughout (putStep sha256Hex base) (Intact sha256Hex base) { store := s } puts ↔
      StepsMeet (putStep sha256Hex base) (fun s put ↦ ¬ CutShort sha256Hex base s put)
        { store := s } puts := by
  have hsound : Intact sha256Hex base { store := s } :=
    ⟨by simp, (found_iff_storeInv s).mpr hinv⟩
  have hstep (s : PutState) (put : Put) (t : PutState) (hs : KnownBlobs base known s.store.files)
      (hput : ∀ n, put.bytes.take n ∈ known) (ht : putStep sha256Hex base s put = some t) :
      KnownBlobs base known t.store.files := knownBlobs_putStep hsha hput hs ht
  exact throughout_iff_stepsMeet_of (q := fun put ↦ ∀ n, put.bytes.take n ∈ known) _ hstep
    (fun s put hs hput ↦ sound_putStep_iff hsha hfree hput hs) hblobs hsound hputs

end Calls

-- The digests of the front parts of `hi`.
private def hiSha256 (bytes : Bytes) : String :=
  if bytes = [104, 105] then "8f434346648f6b96df89dda901c5176b10a6d83961dd3c1ac88b59b2dc327aa4"
  else if bytes = [104] then "aaa9402664f1a41f40ebbc52c9993eb66aeb366602958fdfaa283b71e64db123"
  else "e3b0c44298fc1c149afbf4c8996fb92427ae41e4649b934ca495991b7852b855"

-- A write that fails before it opens the file, and a second try.
private def failedPut : List Put :=
  [⟨[104, 105], { blob := .fails "No space left on device (os error 28)" none }⟩, ⟨[104, 105], {}⟩]

-- A write that fails after its first byte, and a second try.
private def cutPut : List Put :=
  [⟨[104, 105], { blob := .fails "No space left on device (os error 28)" (some 1) }⟩,
    ⟨[104, 105], {}⟩]

/-- After the first of these histories the store is sound. -/
theorem puts_sound_iff_failed :
    Throughout (putStep hiSha256 "/blobs") (Intact hiSha256 "/blobs") { store := {} }
      failedPut := by
  have hsha : ∀ bytes, IsDigest (hiSha256 bytes) := by
    intro bytes
    unfold hiSha256
    repeat' split
    all_goals decide
  have hfree : CollisionFree hiSha256 [[], [104], [104, 105]] := by
    unfold CollisionFree
    decide
  have hknown : ∀ put ∈ failedPut, ∀ n, put.bytes.take n ∈ [[], [104], [104, 105]] := by
    intro put hput n
    have hbytes : put.bytes = [104, 105] := by
      rcases List.mem_cons.mp hput with rfl | hlast
      · rfl
      · rw [List.mem_singleton.mp hlast]
    rw [hbytes]
    match n with
    | 0 => simp
    | 1 => simp
    | n + 2 => simp
  refine (puts_sound_iff hsha hfree ?_ ?_ hknown).mpr ?_
  · intro digest found hd hfound
    simp at hfound
  · intro digest path bytes hd hpath hfile
    simp at hfile
  · refine ⟨?_, fun t ht ↦ ⟨?_, fun _ _ ↦ trivial⟩⟩
    · rintro ⟨path, found, files, -, -, -, hleft, -⟩
      cases hleft
    · rintro ⟨path, found, files, -, -, -, hleft, hne⟩
      cases hleft
      exact hne rfl

/-- After the second one the store reports the bytes as stored, and holds the first of them. -/
theorem cut_blob_kept :
    (run (putStep hiSha256 "/blobs") { store := {} } cutPut).map (fun t ↦
        (t.last, t.store.files[blobPlace "/blobs" (hiSha256 [104, 105])]?)) =
      some (some ([104, 105], .ok (hiSha256 [104, 105])), some (.file [104])) ∧
    ¬ Throughout (putStep hiSha256 "/blobs") (Intact hiSha256 "/blobs") { store := {} } cutPut := by
  have hrun : (run (putStep hiSha256 "/blobs") { store := {} } cutPut).map (fun t ↦
        (t.last, t.store.files[blobPlace "/blobs" (hiSha256 [104, 105])]?)) =
      some (some ([104, 105], .ok (hiSha256 [104, 105])), some (.file [104])) := rfl
  refine ⟨hrun, fun h ↦ ?_⟩
  obtain ⟨t, ht, hpair⟩ := Option.map_eq_some_iff.mp hrun
  obtain ⟨hlast, hfile⟩ := Prod.mk.inj hpair
  have hsound := h cutPut [] (by simp) t ht
  obtain ⟨path, hpath, hat⟩ := hsound.stored _ _ hlast
  obtain ⟨path', hpath', hplace, -⟩ := pathForDigest_eq_blob "/blobs"
    (show IsDigest (hiSha256 [104, 105]) by decide)
  rw [hpath] at hpath'
  cases hpath'
  rw [hplace, hfile] at hat
  cases hat

end PeerDeploy.Storage
