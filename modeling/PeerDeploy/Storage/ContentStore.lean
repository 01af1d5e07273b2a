import PeerDeploy.Base.Text
import PeerDeploy.Base.Tree
import PeerDeploy.Common.Command

/-!
# The content store

`crates/agent/src/storage/mod.rs`: blobs below `base_dir`, two directory levels named by
the first four bytes of the digest text, and an index of sizes and access times. The index
is kept apart from the other files; a failed save leaves it as it was.
-/

namespace PeerDeploy.Storage

open PeerDeploy.Common PeerDeploy.Base

/-- The file of a digest; `crates/agent/src/storage/mod.rs:40–44`. `none` where the two slices
of the digest text panic: fewer than four bytes, or a character across byte 2 or 4. -/
def pathForDigest (baseDir digest : String) : Option String := do
  let a ← Text.slice digest 0 2
  let b ← Text.slice digest 2 4
  return Path.join (Path.join (Path.join baseDir a) b) digest

/-- The same path, seen from the base directory. -/
def nameForDigest (digest : String) : Option String := do
  let a ← Text.slice digest 0 2
  let b ← Text.slice digest 2 4
  return Path.join (Path.join a b) digest

/-- What the path of a digest text names: the walk along it goes through directories only. -/
def lookupDigest (base : String) (files : Files) (digest : String) : Option Entry := do
  let name ← nameForDigest digest
  files.reach base name

/-- `crates/agent/src/storage/mod.rs:15–21`. -/
structure IndexEntry where
  sizeBytes : Nat := 0
  lastAccessedUnix : Nat := 0
  pinned : Bool := false
  deriving DecidableEq, Repr

/-- The file system of a node and the index of its content store. -/
structure Store where
  files : Files := ∅
  index : Std.ExtTreeMap String IndexEntry := ∅

/-- What a store operation reads from outside. -/
structure StoreInput where
  now : Nat := 0
  /-- The error of writing a blob. -/
  blobError : Option String := none
  /-- The error of saving the index. -/
  indexError : Option String := none

/-- `crates/agent/src/storage/mod.rs:30–33`. -/
def baseDir (dataDir : String) : String :=
  Path.join (Path.join (Path.join dataDir "artifacts") "blobs") "sha256"

namespace Store

/-- `crates/agent/src/storage/mod.rs:29–38`. -/
def opened (s : Store) (base : String) : Store :=
  { s with files := s.files.createDirAll (Path.place base) }

/-- Save the changed entry of a digest in the index. -/
def saveEntry (s : Store) (digest : String) (entry : IndexEntry) (input : StoreInput) :
    Except String Store :=
  match input.indexError with
  | some e => .error e
  | none => .ok { s with index := s.index.insert digest entry }

/-- Write the blob unless it exists, with the error of the write. The path is that of a sha256
digest, which goes straight down (`lookupDigest_of_isDigest`), so that it exists exactly when
something lies at its end; `crates/agent/src/storage/mod.rs:79–84`. -/
def writeBlob (s : Store) (path : String) (bytes : Bytes) (input : StoreInput) :
    Store × Option String :=
  if s.files.contains (Path.place path) then (s, none)
  else
    let files := s.files.createDirAll (Path.parentPlace path)
    match files.write (Path.place path) bytes input.blobError with
    | .error e => ({ s with files }, some e)
    | .ok files => ({ s with files }, none)

/-- `crates/agent/src/storage/mod.rs:76–92`; `none` when it panics. -/
def putBytes (sha256Hex : Bytes → String) (base : String) (s : Store) (bytes : Bytes)
    (input : StoreInput) : Option (Store × Except String String) := do
  let digest := sha256Hex bytes
  let path ← pathForDigest base digest
  match s.writeBlob path bytes input with
  | (s, some e) => return (s, .error e)
  | (s, none) =>
    let entry := { s.index[digest]?.getD {} with
      sizeBytes := bytes.length, lastAccessedUnix := input.now }
    match s.saveEntry digest entry input with
    | .error e => return (s, .error e)
    | .ok s => return (s, .ok digest)

/-- `crates/agent/src/storage/mod.rs:94–106`; `none` when it panics. -/
def getPath (base : String) (s : Store) (digest : String) (input : StoreInput) :
    Option (Store × Option String) := do
  let path ← pathForDigest base digest
  if (lookupDigest base s.files digest).isSome then
    match s.index[digest]? with
    | none => return (s, some path)
    | some entry =>
      match s.saveEntry digest { entry with lastAccessedUnix := input.now } input with
      | .error _ => return (s, some path)
      | .ok s => return (s, some path)
  else return (s, none)

end Store

/-! ### Blobs of real digests -/

/-- The digits of a hexadecimal text. -/
def hexDigits : List Char := "0123456789abcdef".toList

/-- The text is one of 64 hexadecimal digits. -/
def isDigest (text : String) : Bool :=
  text.toList.length == 64 && text.toList.all (hexDigits.contains ·)

/-- The text of a sha256 digest. -/
def IsDigest (text : String) : Prop := isDigest text = true

/-- Whether a text is a digest is decidable. -/
instance (text : String) : Decidable (IsDigest text) :=
  inferInstanceAs (Decidable (isDigest text = true))

/-- A blob that lies at the path of a digest has that digest. -/
def StoreInv (sha256Hex : Bytes → String) (base : String) (files : Files) : Prop :=
  ∀ digest path bytes, IsDigest digest → pathForDigest base digest = some path →
    files[Path.place path]? = some (.file bytes) → sha256Hex bytes = digest

private theorem hexDigit_plain {c : Char} (h : c ∈ hexDigits) :
    c.utf8Size = 1 ∧ c ≠ '/' ∧ c ≠ '.' := by
  have hall : hexDigits.all (fun c ↦ c.utf8Size == 1 && c != '/' && c != '.') = true := by
    decide
  simpa [and_assoc] using List.all_eq_true.mp hall c h

/-- The characters of a digest take one byte each and mean nothing in a path. -/
theorem plain_of_isDigest {digest : String} (h : IsDigest digest) :
    digest.toList.length = 64 ∧ ∀ c ∈ digest.toList, c.utf8Size = 1 ∧ c ≠ '/' ∧ c ≠ '.' := by
  obtain ⟨hlen, hhex⟩ : digest.toList.length = 64 ∧ ∀ c ∈ digest.toList, c ∈ hexDigits := by
    simpa [IsDigest, isDigest] using h
  exact ⟨hlen, fun c hc ↦ hexDigit_plain (hhex c hc)⟩

/-- A digest is a text of 64 ASCII characters. -/
theorem ascii_of_isDigest {digest : String} (h : IsDigest digest) :
    digest.toList.length = 64 ∧ ∀ c ∈ digest.toList, c.toNat < 128 := by
  obtain ⟨hlen, hhex⟩ : digest.toList.length = 64 ∧ ∀ c ∈ digest.toList, c ∈ hexDigits := by
    simpa [IsDigest, isDigest] using h
  have hall : hexDigits.all (fun c ↦ decide (c.toNat < 128)) = true := by
    decide
  exact ⟨hlen, fun c hc ↦ by simpa using List.all_eq_true.mp hall c (hhex c hc)⟩

private theorem plain_of_hex {text : String} (hne : text ≠ "")
    (h : ∀ c ∈ text.toList, c ∈ hexDigits) : Path.Plain text := by
  have hchars : ∀ c ∈ text.toList, c ≠ '/' ∧ c ≠ '.' := fun c hc ↦ (hexDigit_plain (h c hc)).2
  refine ⟨hne, ?_, ?_, fun hin ↦ (hchars '/' hin).1 rfl⟩
  · rintro rfl
    exact (hchars '.' (by decide)).2 rfl
  · rintro rfl
    exact (hchars '.' (by decide)).2 rfl

/-- A digest is a plain file name. -/
theorem path_plain_of_isDigest {digest : String} (h : IsDigest digest) : Path.Plain digest := by
  obtain ⟨hlen, hhex⟩ : digest.toList.length = 64 ∧ ∀ c ∈ digest.toList, c ∈ hexDigits := by
    simpa [IsDigest, isDigest] using h
  apply plain_of_hex _ hhex
  rintro rfl
  cases hlen

/-- The place of the blob of a digest, three levels below the base directory. -/
def blobPlace (base digest : String) : List String :=
  Path.place base ++ [String.ofList ((digest.toList.drop 0).take 2),
    String.ofList ((digest.toList.drop 2).take 2), digest]

private theorem slices_of_isDigest {digest : String} (h : IsDigest digest) (start : Nat)
    (hs : start + 2 ≤ 64) : Text.slice digest start (start + 2) =
        some (String.ofList ((digest.toList.drop start).take 2)) ∧
      Path.Plain (String.ofList ((digest.toList.drop start).take 2)) := by
  have hparts : digest.toList.length = 64 ∧ ∀ c ∈ digest.toList, c ∈ hexDigits := by
    simpa [IsDigest, isDigest] using h
  constructor
  · have hone : ∀ c ∈ digest.toList, c.utf8Size = 1 :=
      fun c hc ↦ (hexDigit_plain (hparts.2 c hc)).1
    rw [Text.slice_eq_some hone (by omega) (by omega), Nat.add_sub_cancel_left]
  · apply plain_of_hex
    · intro he
      have hnil := congrArg (fun text : String ↦ text.toList.length) he
      simp only [String.toList_ofList, List.length_take, List.length_drop] at hnil
      change _ = 0 at hnil
      omega
    · intro c hc
      rw [String.toList_ofList] at hc
      exact hparts.2 c (List.mem_of_mem_drop (List.mem_of_mem_take hc))

/-- The path of a digest leads to the place of its blob. -/
theorem pathForDigest_eq_blob (base : String) {digest : String} (h : IsDigest digest) :
    ∃ path, pathForDigest base digest = some path ∧ Path.place path = blobPlace base digest ∧
      Path.parentPlace path = (blobPlace base digest).dropLast := by
  obtain ⟨ha, haplain⟩ := slices_of_isDigest h 0 (by omega)
  obtain ⟨hb, hbplain⟩ := slices_of_isDigest h 2 (by omega)
  have hwhole := path_plain_of_isDigest h
  have hpath : pathForDigest base digest = some (Path.join (Path.join (Path.join base
      (String.ofList ((digest.toList.drop 0).take 2)))
        (String.ofList ((digest.toList.drop 2).take 2))) digest) := by
    simp only [pathForDigest, ha, hb]
    rfl
  have hdir := Path.place_join (Path.join base (String.ofList ((digest.toList.drop 0).take 2)))
    hbplain
  rw [Path.place_join base haplain] at hdir
  refine ⟨_, hpath, ?_, ?_⟩
  · rw [Path.place_join _ hwhole, hdir]
    simp [blobPlace]
  · rw [Path.parentPlace_join _ hwhole, hdir, blobPlace, List.dropLast_append_of_ne_nil (by simp)]
    simp

/-- The path of a digest text leads where its name leads from the base directory. -/
theorem nameForDigest_of_path {base digest path : String}
    (h : pathForDigest base digest = some path) :
    ∃ name, nameForDigest digest = some name ∧ path = Path.join base name := by
  cases ha : Text.slice digest 0 2 with
  | none => simp [pathForDigest, ha] at h
  | some a =>
    cases hb : Text.slice digest 2 4 with
    | none => simp [pathForDigest, ha, hb] at h
    | some b =>
      have hpath : Path.join (Path.join (Path.join base a) b) digest = path := by
        simpa [pathForDigest, ha, hb] using h
      refine ⟨Path.join (Path.join a b) digest, by simp [nameForDigest, ha, hb], ?_⟩
      rw [← hpath, Path.join_join, Path.join_join, Path.join_join]

/-- What a digest text names lies at the end of its path. -/
theorem entry_of_lookupDigest {base digest path : String} {files : Files} {entry : Entry}
    (hpath : pathForDigest base digest = some path)
    (h : lookupDigest base files digest = some entry) : files[Path.place path]? = some entry := by
  obtain ⟨name, hname, rfl⟩ := nameForDigest_of_path hpath
  rw [lookupDigest, hname] at h
  rw [Path.place_join_eq]
  exact (Files.reach_eq_some.mp h).2

/-- In a tree of files, the walk from the base directory finds what the whole path names. -/
theorem lookupDigest_eq_lookup {base digest path : String} {files : Files}
    (hpath : pathForDigest base digest = some path) (hclosed : (Tree.ofFiles files []).Closed)
    (hbase : Tree.Reaches files base) : lookupDigest base files digest = files.lookup path := by
  obtain ⟨name, hname, rfl⟩ := nameForDigest_of_path hpath
  rw [lookupDigest, hname]
  exact Tree.reach_eq_lookup hclosed hbase name

/-- The path of a digest goes straight down: it names what lies at its end. -/
theorem lookupDigest_of_isDigest {base digest path : String} (files : Files)
    (h : IsDigest digest) (hpath : pathForDigest base digest = some path) :
    lookupDigest base files digest = files[Path.place path]? := by
  obtain ⟨name, hname, rfl⟩ := nameForDigest_of_path hpath
  obtain ⟨ha, haplain⟩ := slices_of_isDigest h 0 (by omega)
  obtain ⟨hb, hbplain⟩ := slices_of_isDigest h 2 (by omega)
  have hnames := Path.names_join (Path.names_join (Path.names_plain haplain) hbplain)
    (path_plain_of_isDigest h)
  have hjoin : name = Path.join (Path.join (String.ofList ((digest.toList.drop 0).take 2))
      (String.ofList ((digest.toList.drop 2).take 2))) digest := by
    simpa [nameForDigest, ha, hb] using hname.symm
  rw [lookupDigest, hname, Path.place_join_eq]
  apply Files.reach_names
  rw [hjoin]
  exact hnames

/-- The blob of a digest lies three levels below the base directory. -/
theorem pathForDigest_of_isDigest (base : String) {digest : String} (h : IsDigest digest) :
    ∃ path a b, pathForDigest base digest = some path ∧
      Path.place path = Path.place base ++ [a, b, digest] := by
  obtain ⟨path, hpath, hplace, -⟩ := pathForDigest_eq_blob base h
  exact ⟨path, _, _, hpath, hplace⟩

/-- Blobs of two digests lie at two places. -/
theorem eq_of_place_eq {base digest other path path' : String} (h : IsDigest digest)
    (h' : IsDigest other) (hpath : pathForDigest base digest = some path)
    (hpath' : pathForDigest base other = some path') (hplace : Path.place path = Path.place path') :
    digest = other := by
  obtain ⟨p, a, b, hp, hplace₁⟩ := pathForDigest_of_isDigest base h
  obtain ⟨q, c, d, hq, hplace₂⟩ := pathForDigest_of_isDigest base h'
  rw [hpath] at hp
  rw [hpath'] at hq
  cases hp
  cases hq
  rw [hplace₁, hplace₂] at hplace
  have hlast := List.append_cancel_left hplace
  simp only [List.cons.injEq] at hlast
  exact hlast.2.2.1

/-! ### What the operations do -/

/-- The invariant, by the places of the blobs. -/
theorem storeInv_iff_blobs {sha256Hex : Bytes → String} {base : String} (files : Files) :
    StoreInv sha256Hex base files ↔ ∀ digest bytes, IsDigest digest →
      files[blobPlace base digest]? = some (.file bytes) → sha256Hex bytes = digest := by
  constructor
  · intro h digest bytes hd hfile
    obtain ⟨path, hpath, hplace, -⟩ := pathForDigest_eq_blob base hd
    exact h digest path bytes hd hpath (hplace ▸ hfile)
  · intro h digest path bytes hd hpath hfile
    obtain ⟨path', hpath', hplace, -⟩ := pathForDigest_eq_blob base hd
    rw [hpath] at hpath'
    cases hpath'
    exact h digest bytes hd (hplace ▸ hfile)

/-- Making directories adds no blob. -/
theorem storeInv_createDirAll {sha256Hex : Bytes → String} {base : String} {files : Files}
    (h : StoreInv sha256Hex base files) (place : List String) :
    StoreInv sha256Hex base (files.createDirAll place) :=
  fun digest path bytes hd hpath hfile ↦
    h digest path bytes hd hpath (Files.createDirAll_file hfile)

/-- Opening the store adds no file. -/
theorem file_of_opened {base : String} {s : Store} {place : List String} {bytes : Bytes}
    (h : (s.opened base).files[place]? = some (.file bytes)) :
    s.files[place]? = some (.file bytes) := by
  simp only [Store.opened] at h
  exact Files.createDirAll_file h

/-- Opening the store adds no blob. -/
theorem storeInv_opened {sha256Hex : Bytes → String} {base : String} {s : Store}
    (h : StoreInv sha256Hex base s.files) : StoreInv sha256Hex base (s.opened base).files :=
  storeInv_createDirAll h (Path.place base)

private theorem files_of_saveEntry {s t : Store} {digest : String} {entry : IndexEntry}
    {input : StoreInput} (h : s.saveEntry digest entry input = .ok t) : t.files = s.files := by
  unfold Store.saveEntry at h
  split at h
  · cases h
  · cases h
    rfl

/-- A lookup changes no file and finds what is there. -/
theorem getPath_eq_some {base digest : String} {s t : Store} {input : StoreInput}
    {found : Option String} (h : s.getPath base digest input = some (t, found)) :
    t.files = s.files ∧ ∃ path, pathForDigest base digest = some path ∧
      found = if (lookupDigest base s.files digest).isSome then some path else none := by
  unfold Store.getPath at h
  cases hpath : pathForDigest base digest with
  | none => simp [hpath] at h
  | some path =>
    simp only [hpath, Option.bind_eq_bind, Option.bind_some] at h
    split at h
    · next hin =>
      split at h
      · cases h
        exact ⟨rfl, path, rfl, by simp [hin]⟩
      · split at h
        · cases h
          exact ⟨rfl, path, rfl, by simp [hin]⟩
        · next hsave =>
          cases h
          exact ⟨files_of_saveEntry hsave, path, rfl, by simp [hin]⟩
    · next hin =>
      cases h
      exact ⟨rfl, path, rfl, by simp [hin]⟩

/-- A lookup panics only where the path does. -/
theorem getPath_isSome {base digest path : String} (hpath : pathForDigest base digest = some path)
    (s : Store) (input : StoreInput) : ∃ r, s.getPath base digest input = some r := by
  unfold Store.getPath
  simp only [hpath, Option.bind_eq_bind, Option.bind_some]
  split
  · split
    · exact ⟨_, rfl⟩
    · split
      · exact ⟨_, rfl⟩
      · exact ⟨_, rfl⟩
  · exact ⟨_, rfl⟩

/-- A write of bytes keeps the invariant if no other digest has its blob there. -/
theorem storeInv_insert {sha256Hex : Bytes → String} {base : String} {files : Files}
    {place : List String} {bytes : Bytes} (hinv : StoreInv sha256Hex base files)
    (hplace : ∀ digest path, IsDigest digest → pathForDigest base digest = some path →
      Path.place path = place → sha256Hex bytes = digest) :
    StoreInv sha256Hex base (files.insert place (.file bytes)) := by
  intro digest path found hd hpath hfile
  rw [Std.ExtTreeMap.getElem?_insert] at hfile
  split at hfile
  · next heq =>
    cases hfile
    exact hplace digest path hd hpath (Std.LawfulEqCmp.eq_of_compare heq).symm
  · exact hinv digest path found hd hpath hfile

private theorem storeInv_writeBlob {sha256Hex : Bytes → String} {base path : String} {s : Store}
    {bytes : Bytes} (input : StoreInput) (hsha : ∀ bytes, IsDigest (sha256Hex bytes))
    (hinv : StoreInv sha256Hex base s.files)
    (hpath : pathForDigest base (sha256Hex bytes) = some path) :
    StoreInv sha256Hex base (s.writeBlob path bytes input).1.files := by
  have hdirs := storeInv_createDirAll hinv (Path.parentPlace path)
  unfold Store.writeBlob
  split
  · exact hinv
  · simp only
    split
    · exact hdirs
    · next files hwrite =>
      rw [Files.eq_insert_of_write hwrite]
      exact storeInv_insert hdirs fun digest path' hd hpath' heq ↦
        eq_of_place_eq (hsha bytes) hd hpath hpath' heq.symm

/-- Storing bytes writes at most the blob of their digest. -/
theorem storeInv_putBytes {sha256Hex : Bytes → String} {base : String} {s t : Store}
    {bytes : Bytes} {input : StoreInput} {result : Except String String}
    (hsha : ∀ bytes, IsDigest (sha256Hex bytes)) (hinv : StoreInv sha256Hex base s.files)
    (h : s.putBytes sha256Hex base bytes input = some (t, result)) :
    StoreInv sha256Hex base t.files := by
  unfold Store.putBytes at h
  cases hpath : pathForDigest base (sha256Hex bytes) with
  | none => simp [hpath] at h
  | some path =>
    have hblob := storeInv_writeBlob input hsha hinv hpath
    simp only [hpath, Option.bind_eq_bind, Option.bind_some] at h
    split at h
    · next u e hwrite =>
      rw [hwrite] at hblob
      cases h
      exact hblob
    · next u hwrite =>
      rw [hwrite] at hblob
      split at h
      · cases h
        exact hblob
      · next v hsave =>
        cases h
        rw [files_of_saveEntry hsave]
        exact hblob

private theorem file_of_writeBlob {s : Store} {path : String} {bytes held : Bytes}
    {input : StoreInput} {place : List String} (h : s.files[place]? = some (.file held)) :
    (s.writeBlob path bytes input).1.files[place]? = some (.file held) := by
  have hdirs : (s.files.createDirAll (Path.parentPlace path))[place]? = some (.file held) := by
    rcases Files.createDirAll_getElem? s.files (Path.parentPlace path) place with
      hsame | ⟨-, hnone, -⟩
    · rw [hsame, h]
    · rw [h] at hnone
      cases hnone
  unfold Store.writeBlob
  split
  · exact h
  · next hfree =>
    simp only
    split
    · exact hdirs
    · next files hwrite =>
      rw [Files.eq_insert_of_write hwrite, Table.getElem?_insert, if_neg]
      · exact hdirs
      · rintro rfl
        rw [Std.ExtTreeMap.contains_eq_isSome_getElem?, h] at hfree
        exact hfree rfl

/-- Storing bytes keeps every file. -/
theorem file_of_putBytes {sha256Hex : Bytes → String} {base : String} {s t : Store}
    {bytes held : Bytes} {input : StoreInput} {result : Except String String}
    {place : List String} (hput : s.putBytes sha256Hex base bytes input = some (t, result))
    (h : s.files[place]? = some (.file held)) : t.files[place]? = some (.file held) := by
  unfold Store.putBytes at hput
  cases hpath : pathForDigest base (sha256Hex bytes) with
  | none => simp [hpath] at hput
  | some path =>
    have hblob : (s.writeBlob path bytes input).1.files[place]? = some (.file held) :=
      file_of_writeBlob h
    simp only [hpath, Option.bind_eq_bind, Option.bind_some] at hput
    split at hput
    · next u e hwrite =>
      rw [hwrite] at hblob
      cases hput
      exact hblob
    · next u hwrite =>
      rw [hwrite] at hblob
      split at hput
      · cases hput
        exact hblob
      · next v hsave =>
        cases hput
        rw [files_of_saveEntry hsave]
        exact hblob

private theorem file_writeBlob_iff {s : Store} {path : String} {bytes held : Bytes}
    {input : StoreInput} {place : List String} (hne : place ≠ Path.place path) :
    (s.writeBlob path bytes input).1.files[place]? = some (.file held) ↔
      s.files[place]? = some (.file held) := by
  have hdirs : (s.files.createDirAll (Path.parentPlace path))[place]? = some (.file held) ↔
      s.files[place]? = some (.file held) := by
    rcases Files.createDirAll_getElem? s.files (Path.parentPlace path) place with
      hsame | ⟨-, hnone, hdir⟩
    · rw [hsame]
    · simp [hnone, hdir]
  unfold Store.writeBlob
  split
  · exact Iff.rfl
  · dsimp only
    split
    · exact hdirs
    · next files hwrite =>
      rw [Files.eq_insert_of_write hwrite, Table.getElem?_insert, if_neg hne.symm]
      exact hdirs

/-- Storing bytes changes no file but the blob of their digest. -/
theorem file_putBytes_iff {sha256Hex : Bytes → String} {base path : String} {s t : Store}
    {bytes held : Bytes} {input : StoreInput} {result : Except String String}
    {place : List String} (hput : s.putBytes sha256Hex base bytes input = some (t, result))
    (hpath : pathForDigest base (sha256Hex bytes) = some path) (hne : place ≠ Path.place path) :
    t.files[place]? = some (.file held) ↔ s.files[place]? = some (.file held) := by
  have hblob : (s.writeBlob path bytes input).1.files[place]? = some (.file held) ↔
      s.files[place]? = some (.file held) := file_writeBlob_iff hne
  rw [← hblob]
  unfold Store.putBytes at hput
  simp only [hpath, Option.bind_eq_bind, Option.bind_some] at hput
  split at hput
  · next u e hwrite =>
    rw [hwrite]
    cases hput
    exact Iff.rfl
  · next u hwrite =>
    rw [hwrite]
    split at hput
    · cases hput
      exact Iff.rfl
    · next v hsave =>
      cases hput
      rw [files_of_saveEntry hsave]

/-- Stored bytes are reported under their digest. -/
theorem putBytes_ok {sha256Hex : Bytes → String} {base digest : String} {s t : Store}
    {bytes : Bytes} {input : StoreInput}
    (h : s.putBytes sha256Hex base bytes input = some (t, .ok digest)) :
    digest = sha256Hex bytes := by
  unfold Store.putBytes at h
  cases hpath : pathForDigest base (sha256Hex bytes) with
  | none => simp [hpath] at h
  | some path =>
    simp only [hpath, Option.bind_eq_bind, Option.bind_some] at h
    split at h
    · cases h
    · split at h
      · cases h
      · cases h
        rfl

/-- Storing bytes does not panic. -/
theorem putBytes_isSome {sha256Hex : Bytes → String} (hsha : ∀ bytes, IsDigest (sha256Hex bytes))
    (base : String) (s : Store) (bytes : Bytes) (input : StoreInput) :
    ∃ r, s.putBytes sha256Hex base bytes input = some r := by
  obtain ⟨path, -, -, hpath, -⟩ := pathForDigest_of_isDigest base (hsha bytes)
  unfold Store.putBytes
  simp only [hpath, Option.bind_eq_bind, Option.bind_some]
  split
  · exact ⟨_, rfl⟩
  · split
    · exact ⟨_, rfl⟩
    · exact ⟨_, rfl⟩

end PeerDeploy.Storage
