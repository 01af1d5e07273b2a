import PeerDeploy.Storage.ContentStore

/-!
# Serving blobs to other peers

The answer to `StorageGet` (`crates/agent/src/p2p/mod.rs:887–904`). The digest is a text that
any peer has chosen; the handler joins it to the base directory as it is and sends what it
reads there without hashing it.
-/

namespace PeerDeploy.Storage

open PeerDeploy.Common PeerDeploy.Base

/-- Larger files are not sent inline; `crates/agent/src/p2p/mod.rs:893`. -/
def inlineMax : Nat := 8 * 1024 * 1024

/-- What the handler of `StorageGet` reads from outside. -/
structure ServeInput where
  store : StoreInput := {}
  /-- The size that the file system reports for a directory. -/
  dirLen : Nat := 4096
  /-- The error of asking for the metadata. -/
  metadataError : Option String := none
  /-- The error of reading the file. -/
  readError : Option String := none

/-- What the handler of `StorageGet` does. -/
structure Served where
  store : Store
  /-- The place that is opened for reading. -/
  opened : Option (List String) := none
  /-- The digest and the bytes of the `StorageData` that is published. -/
  published : Option (String × Bytes) := none

/-- The size in the metadata of an entry. -/
def entryLen (dirLen : Nat) : Entry → Nat
  | .file bytes => bytes.length
  | .dir => dirLen

/-- Open and read what the path of a digest names unless it is too large: the place opened and
the bytes read; `crates/agent/src/p2p/mod.rs:891–894`. -/
def readInline (base : String) (files : Files) (digest path : String) (input : ServeInput) :
    Option (List String) × Option Bytes :=
  match input.metadataError with
  | some _ => (none, none)
  | none =>
    match lookupDigest base files digest with
    | none => (none, none)
    | some entry =>
      if entryLen input.dirLen entry ≤ inlineMax then
        (some (Path.place path), (files.read (Path.place path) input.readError).toOption)
      else (none, none)

/-- `crates/agent/src/p2p/mod.rs:887–904`; `none` when it panics. -/
def storageGet (base : String) (s : Store) (digest : String) (input : ServeInput) :
    Option Served := do
  let (store, found) ← (s.opened base).getPath base digest input.store
  match found with
  | none => return { store }
  | some path =>
    let (opened, bytes) := readInline base store.files digest path input
    return { store, opened, published := bytes.map fun bytes ↦ (digest, bytes) }

/-- Only blobs are served: what is opened lies below the base directory, and what is published
has the digest it is published under. -/
def ServesBlobs (sha256Hex : Bytes → String) (base : String) (out : Served) : Prop :=
  (∀ place, out.opened = some place → Path.Below (Path.place base) place) ∧
    ∀ digest bytes, out.published = some (digest, bytes) → sha256Hex bytes = digest

/-! ### Where a digest text leads -/

/-- The name that a digest text of at least four ASCII characters has below the base directory:
its first two characters, the next two and the text. An absolute text stands for itself; if the
third character is a separator, the name is that of the text below `/d`, `d` the fourth one. -/
def requestedName (digest : String) : String :=
  Path.join (Path.join (String.ofList (digest.toList.take 2))
    (String.ofList ((digest.toList.drop 2).take 2))) digest

/-- The walk along that name comes to nothing that is sent, or to a blob of that digest: whatever
small enough to be opened it comes to lies below the base directory, and a file among them has
the digest. -/
def HoldsBlob (sha256Hex : Bytes → String) (base digest : String) (files : Files)
    (input : ServeInput) : Prop :=
  input.metadataError = none →
    ∀ entry, files.reach base (requestedName digest) = some entry →
      entryLen input.dirLen entry ≤ inlineMax →
        Path.Below (Path.place base) (Path.leads base (requestedName digest)) ∧
          (input.readError = none → ∀ bytes, entry = .file bytes → sha256Hex bytes = digest)

/-- An ASCII character takes one byte. -/
theorem utf8Size_of_ascii {c : Char} (h : c.toNat < 128) : c.utf8Size = 1 := by
  rw [Char.utf8Size_eq_one_iff]
  have hval : c.val.toNat ≤ 127 := by
    change c.val.toNat < 128 at h
    omega
  exact UInt32.le_iff_toNat_le.mpr hval

/-- The name of such a text, and its path. -/
theorem nameForDigest_of_ascii (base : String) {digest : String}
    (hascii : ∀ c ∈ digest.toList, c.toNat < 128) (hlen : 4 ≤ digest.toList.length) :
    nameForDigest digest = some (requestedName digest) ∧
      pathForDigest base digest = some (Path.join base (requestedName digest)) := by
  have hone : ∀ c ∈ digest.toList, c.utf8Size = 1 := fun c hc ↦ utf8Size_of_ascii (hascii c hc)
  have ha : Text.slice digest 0 2 = some (String.ofList (digest.toList.take 2)) :=
    Text.slice_eq_some hone (by omega) (by omega)
  have hb : Text.slice digest 2 4 = some (String.ofList ((digest.toList.drop 2).take 2)) :=
    Text.slice_eq_some hone (by omega) hlen
  constructor
  · simp only [nameForDigest, ha, hb]
    rfl
  · simp only [pathForDigest, ha, hb, requestedName, ← Path.join_join]
    rfl

/-! ### What is served -/

private theorem opened_iff (base : String) (files : Files) (digest path : String)
    (input : ServeInput) (opened : List String) :
    (readInline base files digest path input).1 = some opened ↔
      opened = Path.place path ∧ input.metadataError = none ∧
        ∃ entry, lookupDigest base files digest = some entry ∧
          entryLen input.dirLen entry ≤ inlineMax := by
  unfold readInline
  cases input.metadataError with
  | some e => simp
  | none =>
    cases lookupDigest base files digest with
    | none => simp
    | some entry =>
      by_cases hlen : entryLen input.dirLen entry ≤ inlineMax
      · simp [hlen, eq_comm]
      · simp [hlen]

/-- What is read: a file that is small enough. -/
theorem readInline_bytes_iff {base digest path : String} (files : Files) (input : ServeInput)
    (bytes : Bytes) (hpath : pathForDigest base digest = some path) :
    (readInline base files digest path input).2 = some bytes ↔
      input.metadataError = none ∧ input.readError = none ∧
        lookupDigest base files digest = some (.file bytes) ∧ bytes.length ≤ inlineMax := by
  unfold readInline
  cases input.metadataError with
  | some e => simp
  | none =>
    cases hentry : lookupDigest base files digest with
    | none => simp
    | some entry =>
      have hend := entry_of_lookupDigest hpath hentry
      cases hread : input.readError with
      | some e =>
        by_cases hlen : entryLen input.dirLen entry ≤ inlineMax
        · simp [hlen, Files.read, Except.toOption]
        · simp [hlen]
      | none =>
        cases entry with
        | dir =>
          by_cases hlen : entryLen input.dirLen .dir ≤ inlineMax
          · simp [hlen, Files.read, hend, Except.toOption]
          · simp [hlen]
        | file found =>
          by_cases hlen : found.length ≤ inlineMax
          · simp only [entryLen, hlen, if_true, Files.read, hend, Except.toOption]
            constructor
            · intro h
              cases h
              exact ⟨trivial, trivial, rfl, hlen⟩
            · rintro ⟨-, -, h, -⟩
              cases h
              rfl
          · simp only [entryLen, hlen, if_false]
            constructor
            · intro h
              cases h
            · rintro ⟨-, -, h, hle⟩
              cases h
              exact absurd hle hlen

/-- The handler opens and publishes what the path of the digest text names. -/
theorem storageGet_eq_some {base digest path : String} (s : Store) (input : ServeInput)
    (hpath : pathForDigest base digest = some path) :
    ∃ out, storageGet base s digest input = some out ∧
      out.opened = (readInline base (s.opened base).files digest path input).1 ∧
      out.published = (readInline base (s.opened base).files digest path input).2.map
        fun bytes ↦ (digest, bytes) := by
  obtain ⟨⟨t, found⟩, hget⟩ := getPath_isSome hpath (s.opened base) input.store
  obtain ⟨hfiles, q, hq, hfound⟩ := getPath_eq_some hget
  rw [hpath] at hq
  cases hq
  unfold storageGet
  simp only [hget, Option.bind_eq_bind, Option.bind_some]
  split at hfound
  · subst hfound
    exact ⟨_, rfl, by rw [hfiles], by rw [hfiles]⟩
  · next hnone =>
    subst hfound
    have hentry : lookupDigest base (s.opened base).files digest = none := by
      simpa only [Option.not_isSome_iff_eq_none] using hnone
    have hread : readInline base (s.opened base).files digest path input = (none, none) := by
      unfold readInline
      rw [hentry]
      cases input.metadataError with
      | none => rfl
      | some e => rfl
    exact ⟨_, rfl, by rw [hread], by rw [hread]; rfl⟩

/-- A digest text is answered with a blob, or not at all, exactly when the walk along it comes to
no other file or directory that is small enough to be opened. -/
theorem serves_blobs_iff (sha256Hex : Bytes → String) (base : String) (s : Store)
    (digest : String) (hascii : ∀ c ∈ digest.toList, c.toNat < 128)
    (hlen : 4 ≤ digest.toList.length) (input : ServeInput) :
    ∃ out, storageGet base s digest input = some out ∧
      (ServesBlobs sha256Hex base out ↔
        HoldsBlob sha256Hex base digest (s.opened base).files input) := by
  obtain ⟨hname, hpath⟩ := nameForDigest_of_ascii base hascii hlen
  obtain ⟨out, hout, hopened, hpublished⟩ := storageGet_eq_some s input hpath
  have hlookup : lookupDigest base (s.opened base).files digest =
      (s.opened base).files.reach base (requestedName digest) := by
    rw [lookupDigest, hname]
    rfl
  refine ⟨out, hout, ?_⟩
  simp only [ServesBlobs, hopened, hpublished, opened_iff, Option.map_eq_some_iff,
    readInline_bytes_iff _ _ _ hpath, Path.place_join_eq, hlookup]
  constructor
  · rintro ⟨hbelow, hhash⟩ hmeta entry hentry hle
    constructor
    · exact hbelow _ ⟨rfl, hmeta, entry, hentry, hle⟩
    · rintro hread bytes rfl
      exact hhash digest bytes ⟨bytes, ⟨hmeta, hread, hentry, hle⟩, rfl⟩
  · intro h
    constructor
    · rintro place ⟨rfl, hmeta, entry, hentry, hle⟩
      exact (h hmeta entry hentry hle).1
    · rintro d bytes ⟨found, ⟨hmeta, hread, hentry, hle⟩, heq⟩
      cases heq
      exact (h hmeta _ hentry hle).2 hread bytes rfl

/-- The text of a digest meets the condition in a store whose blobs have their digests. -/
theorem holdsBlob_of_isDigest {sha256Hex : Bytes → String} {base digest : String} {files : Files}
    (hdigest : IsDigest digest) (hinv : StoreInv sha256Hex base files) (input : ServeInput) :
    HoldsBlob sha256Hex base digest files input := by
  obtain ⟨hlen, hascii⟩ := ascii_of_isDigest hdigest
  obtain ⟨-, hpath⟩ := nameForDigest_of_ascii base hascii (by omega)
  obtain ⟨path, a, b, hpath', hplace⟩ := pathForDigest_of_isDigest base hdigest
  obtain rfl := Option.some.inj (hpath'.symm.trans hpath)
  intro _ entry hentry _
  constructor
  · rw [← Path.place_join_eq, hplace]
    exact ⟨List.prefix_append _ _, by simp⟩
  · rintro - bytes rfl
    have hfile := (Files.reach_eq_some.mp hentry).2
    rw [← Path.place_join_eq] at hfile
    exact hinv digest _ bytes hdigest hpath hfile

-- The digest of the bytes `abc`, and one for all other bytes.
private def sampleSha256 (bytes : Bytes) : String :=
  if bytes = asBytes "abc" then "ba7816bf8f01cfea414140de5dae2223b00361a396177a9cb410ff61f20015ad"
  else "e3b0c44298fc1c149afbf4c8996fb92427ae41e4649b934ca495991b7852b855"

private def sampleStore : Store :=
  { files := (∅ : Files).insert ["data", "artifacts", "blobs", "sha256", "ba", "78",
      "ba7816bf8f01cfea414140de5dae2223b00361a396177a9cb410ff61f20015ad"] (.file (asBytes "abc")) }

/-- A stored blob is served under its digest. -/
theorem serves_blobs_iff_stored :
    ∃ out, storageGet "/data/artifacts/blobs/sha256" sampleStore
        "ba7816bf8f01cfea414140de5dae2223b00361a396177a9cb410ff61f20015ad" {} = some out ∧
      ServesBlobs sampleSha256 "/data/artifacts/blobs/sha256" out := by
  have hascii : "ba7816bf8f01cfea414140de5dae2223b00361a396177a9cb410ff61f20015ad".toList.all
      (fun c ↦ decide (c.toNat < 128)) = true := by
    decide
  obtain ⟨out, hout, hiff⟩ := serves_blobs_iff sampleSha256 "/data/artifacts/blobs/sha256"
    sampleStore "ba7816bf8f01cfea414140de5dae2223b00361a396177a9cb410ff61f20015ad"
    (fun c hc ↦ of_decide_eq_true (List.all_eq_true.mp hascii c hc)) (by decide) {}
  refine ⟨out, hout, hiff.mpr ?_⟩
  intro _ entry hentry _
  have hfile : (sampleStore.opened "/data/artifacts/blobs/sha256").files.reach
      "/data/artifacts/blobs/sha256" (requestedName
        "ba7816bf8f01cfea414140de5dae2223b00361a396177a9cb410ff61f20015ad") =
        some (.file (asBytes "abc")) := by
    decide
  rw [hfile] at hentry
  cases hentry
  constructor
  · decide
  · rintro - bytes hbytes
    cases hbytes
    decide

-- The password file of a node.
private def passwd : Bytes := asBytes "root:x:0:0::/root:/bin/sh"

-- A node whose store is empty.
private def emptyNode : Store :=
  { files := ((∅ : Files).insert ["etc"] .dir).insert ["etc", "passwd"] (.file passwd) }

/-- The text `/etc/passwd` is answered with that file. -/
theorem serves_passwd :
    ¬ ∀ (sha256Hex : Bytes → String) (base : String) (s : Store) (digest : String)
      (input : ServeInput), (∀ c ∈ digest.toList, c.toNat < 128) → 4 ≤ digest.toList.length →
        ∃ out, storageGet base s digest input = some out ∧ ServesBlobs sha256Hex base out := by
  intro h
  have hascii : "/etc/passwd".toList.all (fun c ↦ decide (c.toNat < 128)) = true := by
    decide
  obtain ⟨out, hout, hbelow, -⟩ := h (fun _ ↦ "") "/data/artifacts/blobs/sha256" emptyNode
    "/etc/passwd" {} (fun c hc ↦ of_decide_eq_true (List.all_eq_true.mp hascii c hc))
    (by decide)
  have hopened : (storageGet "/data/artifacts/blobs/sha256" emptyNode "/etc/passwd" {}).map
      (fun out ↦ (out.opened, out.published)) =
        some (some ["etc", "passwd"], some ("/etc/passwd", passwd)) := by
    decide
  rw [hout] at hopened
  have hfirst : out.opened = some ["etc", "passwd"] :=
    congrArg Prod.fst (Option.some.inj hopened)
  have := hbelow _ hfirst
  revert this
  decide

/-- With a final separator the text names nothing. -/
example : (storageGet "/data/artifacts/blobs/sha256" emptyNode "/etc/passwd/" {}).map
    (fun out ↦ (out.opened, out.published)) = some (none, none) := by
  decide

end PeerDeploy.Storage
