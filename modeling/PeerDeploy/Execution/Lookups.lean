import PeerDeploy.Base.Json
import PeerDeploy.Execution.PreStage
import PeerDeploy.Storage.Collect
import PeerDeploy.Storage.Serve

/-!
# Digest texts from other peers

A digest that comes in a message or in a job is looked up in the content store as it is. The
lookup slices the text at fixed byte offsets (`crates/agent/src/storage/mod.rs:40–44`), so what
is no UTF-8 text of at least four bytes with boundaries at these offsets stops the task that
looks it up: for `StorageGet` this is the event loop of the agent.
-/

namespace PeerDeploy.Execution

open PeerDeploy.Common PeerDeploy.Base PeerDeploy.Storage

/-- `u64::from_str_radix` for the radix 16. -/
def parseHex (text : String) : Option Nat :=
  let digits := match text.toList with
    | '+' :: rest => rest
    | cs => cs
  if digits.isEmpty then none
  else do
    let n ← digits.foldlM (fun n c ↦ (Json.hexValue c).map (16 * n + ·)) 0
    if n < 2 ^ 64 then return n else none

/-- The peers that have announced a blob, by its digest. -/
abbrev ContentIndex := Std.ExtTreeMap String (List String)

/-- How long an accepted job waits, in milliseconds, for the peers that hold its program;
`crates/agent/src/p2p/mod.rs:1193–1214`. `none` when it panics. -/
def localityDelayMs (sha256Hex : Bytes → String) (base : String) (s : Store)
    (contentIndex : ContentIndex) (nodeId : String) (job : JobSpec) : Option Nat :=
  match job.runtime.digest with
  | none => some 0
  | some d => do
    let hasLocal ← (s.opened base).has base d
    let peersWith := (contentIndex[d]?.map List.length).getD 0
    if !hasLocal && 0 < peersWith then
      let nib := (parseHex (← Text.slice (sha256Hex (asBytes nodeId)) 0 4)).getD 0
      return 500 + nib % 1500
    else return 0

/-- Both slices of the path are within bounds and end between characters. -/
def SlicedWithin (digest : String) : Prop :=
  Text.IsCharBoundary digest 2 ∧ Text.IsCharBoundary digest 4

/-- Whether a text is sliced within is decidable. -/
instance (digest : String) : Decidable (SlicedWithin digest) :=
  inferInstanceAs (Decidable (_ ∧ _))

/-- Every lookup of the text returns: both operations of the store and the three places of the
agent that hand it a text from outside. -/
structure LookupsReturn (h : Host) (digest : String) : Prop where
  has : ∀ s : Store, (s.has (baseDir h.dataDir) digest).isSome = true
  getPath : ∀ (s : Store) input, (s.getPath (baseDir h.dataDir) digest input).isSome = true
  storageGet : ∀ s input, (storageGet (baseDir h.dataDir) s digest input).isSome = true
  submitJob : ∀ s contentIndex nodeId job, job.runtime.digest = some digest →
    (localityDelayMs h.sha256Hex (baseDir h.dataDir) s contentIndex nodeId job).isSome = true
  preStage : ∀ store task program item rest request input,
    Text.stripPrefix "cas:" item.source = some digest →
      (stageItem h store task program item rest request input).pc ≠ .panicked

/-- `path_for_digest` returns exactly when the text is sliced at character boundaries. -/
theorem pathForDigest_isSome_iff (base digest : String) :
    (pathForDigest base digest).isSome = true ↔ SlicedWithin digest := by
  have hfirst := Text.slice_isSome_iff digest (Nat.zero_le 2)
  have hsecond := Text.slice_isSome_iff digest (show 2 ≤ 4 by decide)
  have hzero : Text.IsCharBoundary digest 0 := String.Pos.Raw.isValid_zero
  have hpath : (pathForDigest base digest).isSome =
      ((Text.slice digest 0 2).isSome && (Text.slice digest 2 4).isSome) := by
    unfold pathForDigest
    cases Text.slice digest 0 2 with
    | none => rfl
    | some a =>
      cases Text.slice digest 2 4 with
      | none => rfl
      | some b => rfl
  rw [hpath, Bool.and_eq_true, hfirst, hsecond, SlicedWithin]
  constructor
  · rintro ⟨-, h⟩
    exact h
  · intro h
    exact ⟨⟨hzero, h.1⟩, h⟩

/-- So does `has`. -/
theorem has_isSome_iff (base : String) (s : Store) (digest : String) :
    (s.has base digest).isSome = true ↔ SlicedWithin digest := by
  rw [Store.has, Option.isSome_map, pathForDigest_isSome_iff]

/-- So does `get_path`. -/
theorem getPath_isSome_iff (base : String) (s : Store) (digest : String) (input : StoreInput) :
    (s.getPath base digest input).isSome = true ↔ SlicedWithin digest := by
  rw [← pathForDigest_isSome_iff base]
  cases hpath : pathForDigest base digest with
  | none => simp [Store.getPath, hpath]
  | some path =>
    obtain ⟨found, hfound⟩ := getPath_isSome hpath s input
    rw [hfound]
    rfl

/-- So does the handler of `StorageGet`. -/
theorem storageGet_isSome_iff (base : String) (s : Store) (digest : String) (input : ServeInput) :
    (storageGet base s digest input).isSome = true ↔ SlicedWithin digest := by
  rw [← getPath_isSome_iff base (s.opened base) digest input.store]
  unfold storageGet
  cases (s.opened base).getPath base digest input.store with
  | none => rfl
  | some found =>
    obtain ⟨store, found⟩ := found
    cases found with
    | none => rfl
    | some path => rfl

/-- So does the lookup of an attachment. -/
theorem findBlob_isSome_iff (h : Host) (store : Store) (storage : Bool) (hex : String)
    (input : ExecInput) :
    (findBlob h store storage hex input).isSome = true ↔ SlicedWithin hex := by
  rw [findBlob, Option.isSome_map, getPath_isSome_iff]

/-- So does the delay of a job with a digest. -/
theorem localityDelayMs_isSome_iff {sha256Hex : Bytes → String}
    (hhex : ∀ bytes, IsDigest (sha256Hex bytes)) (base : String) (s : Store)
    (contentIndex : ContentIndex) (nodeId : String) {job : JobSpec} {digest : String}
    (hdigest : job.runtime.digest = some digest) :
    (localityDelayMs sha256Hex base s contentIndex nodeId job).isSome = true ↔
      SlicedWithin digest := by
  rw [← has_isSome_iff base (s.opened base)]
  obtain ⟨hlen, hplain⟩ := plain_of_isDigest (hhex (asBytes nodeId))
  -- the digest of the node's own name is long enough
  have hown := Text.slice_eq_some (fun c hc ↦ (hplain c hc).1) (Nat.zero_le 4) (by omega)
  simp only [localityDelayMs, hdigest, hown]
  cases (s.opened base).has base digest with
  | none => rfl
  | some hasLocal =>
    simp only [Option.bind_eq_bind, Option.bind_some]
    split
    · rfl
    · rfl

/-- An executor panics at an attachment exactly when its digest is not sliced so. -/
theorem stageItem_panics_iff (h : Host) (store : Store) (task : ExecTask) (program : Program)
    {item : PreStageSpec} {digest : String}
    (hsource : Text.stripPrefix "cas:" item.source = some digest) (rest : List PreStageSpec)
    (request : Nat) (input : ExecInput) :
    (stageItem h store task program item rest request input).pc = .panicked ↔
      ¬ SlicedWithin digest := by
  rw [← findBlob_isSome_iff h store task.storage digest input]
  simp only [stageItem, hsource]
  cases findBlob h store task.storage digest input with
  | none => simp
  | some found =>
    obtain ⟨store, place⟩ := found
    cases place with
    | here path => simp
    | peers => simp
    | nowhere => simp [Outcome.fail]

/-- The lookups of a text return exactly when its bytes 2 and 4 start or end characters. -/
theorem lookups_return_iff (h : Host) (hhex : ∀ bytes, IsDigest (h.sha256Hex bytes))
    (digest : String) : LookupsReturn h digest ↔ SlicedWithin digest := by
  constructor
  · intro hreturn
    exact (has_isSome_iff _ {} digest).mp (hreturn.has {})
  · intro hsliced
    constructor
    · intro s
      exact (has_isSome_iff _ s digest).mpr hsliced
    · intro s input
      exact (getPath_isSome_iff _ s digest input).mpr hsliced
    · intro s input
      exact (storageGet_isSome_iff _ s digest input).mpr hsliced
    · intro s contentIndex nodeId job hdigest
      exact (localityDelayMs_isSome_iff hhex _ s contentIndex nodeId hdigest).mpr hsliced
    · intro store task program item rest request input hsource hpanic
      exact (stageItem_panics_iff h store task program hsource rest request input).mp hpanic hsliced

/-- A text of two-byte characters is looked up. -/
theorem lookups_return_iff_greek : SlicedWithin "αβγ" ∧ LookupsReturn sampleHost "αβγ" := by
  have hsliced : SlicedWithin "αβγ" := by decide
  exact ⟨hsliced, (lookups_return_iff sampleHost isDigest_sampleHost "αβγ").mpr hsliced⟩

/-- The text `abc` stops the answer to `StorageGet`, and both lookups. -/
theorem storageGet_panics :
    ¬ ∀ (base : String) (s : Store) (digest : String) (input : ServeInput),
      (s.has base digest).isSome = true ∧
        (s.getPath base digest input.store).isSome = true ∧
          (storageGet base s digest input).isSome = true := by
  intro h
  have hshort := (h "/data/artifacts/blobs/sha256" {} "abc" {}).2.2
  revert hshort
  decide

end PeerDeploy.Execution
