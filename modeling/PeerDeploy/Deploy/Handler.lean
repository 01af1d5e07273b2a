import PeerDeploy.Deploy.State

/-!
# What the deployment handlers share

`handle_apply_manifest`, `handle_upgrade` and `handle_push_package`
(`crates/agent/src/p2p/handlers`) are tasks that suspend at their `await`s. What a task does
between two suspensions is one step on the files and the supervisor state that it shares
with the other tasks. Log lines are left out, but the suspensions they cause are kept.
-/

namespace PeerDeploy.Deploy

open PeerDeploy.Common PeerDeploy.Base

/-- The file operation that fails while a binary is written, with its error text. -/
inductive WriteFault where
  | createDir
  | openFile (error : String)
  /-- The write stopped after some of the bytes. -/
  | write (error : String) (written : Bytes)
  | sync (error : String)

/-- What a step reads from outside. -/
structure StepInput where
  /-- The answer of a fetch: bytes, or the error text. -/
  fetched : Except String Bytes := .ok []
  /-- The error of creating the artifact directory. -/
  dirError : Option String := none
  /-- The error of writing an artifact. -/
  ioError : Option String := none
  /-- What goes wrong while a binary is written. -/
  writeFault : Option WriteFault := none
  /-- The new process could be spawned. -/
  spawned : Bool := true

/-- The first sixteen characters of a digest text. -/
def digestHead (digest : String) : String := String.ofList (digest.toList.take 16)

/-- The staged file of a component; `crates/agent/src/p2p/handlers/util.rs:36`, `push.rs:118`. -/
def artifactPath (dataDir name digest : String) : String :=
  Path.join (Path.join dataDir "artifacts") s!"{name}-{digestHead digest}.wasm"

/-- Write a staged file unless it exists; `none` when the write fails. -/
def Site.stageFile (s : Site) (path : String) (bytes : Bytes) (input : StepInput) : Option Site :=
  if s.artifacts.contains (Path.canonical path) then some s
  else match input.ioError with
    | none => some { s with artifacts := s.artifacts.insert (Path.canonical path) bytes }
    | some _ => none

/-- `crates/agent/src/p2p/handlers/util.rs:6–21`, with the answer of the read or the fetch. -/
def fetchBytes (url : String) (answer : Except String Bytes) : Except String Bytes :=
  if Text.startsWith "file:" url ∨ Text.startsWith "http://" url ∨
      Text.startsWith "https://" url then answer
  else .error s!"unsupported source: {url}"

/-- Send an error and stop. -/
def Site.reject {α : Type} (s : Site) (rejected : α) (text : String) : Site × α :=
  (s.report (.error text), rejected)

/-- The trust-on-first-use check without a suspension: the site after it, unless another owner
is trusted; `apply.rs:43–50`, `push.rs:94–115`. -/
def Site.trustOnFirstUse (s : Site) (owner : String) : Option Site :=
  match s.loadTrustedOwner with
  | some trusted => if trusted ≠ owner then none else some s
  | none => some (s.saveTrustedOwner owner)

/-- The owner, the versions and the persisted manifest are the same. -/
structure Site.Keeps (s t : Site) : Prop where
  ownerPub : t.ownerPub = s.ownerPub
  stateJson : t.stateJson = s.stateJson
  desiredManifest : t.desiredManifest = s.desiredManifest

/-- An owner check that trusts the first owner it meets: the owner was trusted, or is now. -/
def Site.Trusts (s t : Site) (owner : String) : Prop :=
  (s.loadTrustedOwner = some owner ∧ t = s) ∨
    (s.loadTrustedOwner = none ∧ t = s.saveTrustedOwner owner)

/-- Nothing has changed. -/
theorem Site.Keeps.refl (s : Site) : s.Keeps s := ⟨rfl, rfl, rfl⟩

/-- The check goes through only for a trusted owner or the first one. -/
theorem trusts_of_trustOnFirstUse {s t : Site} {owner : String}
    (h : s.trustOnFirstUse owner = some t) : s.Trusts t owner := by
  unfold Site.trustOnFirstUse at h
  split at h
  · next trusted ht =>
    split at h
    · cases h
    · next hne =>
      cases h
      exact .inl ⟨by rw [ht, Decidable.not_not.mp hne], rfl⟩
  · next ht =>
    cases h
    exact .inr ⟨ht, rfl⟩

/-- Staging writes artifacts only. -/
theorem keeps_stageFile {s t : Site} {path : String} {bytes : Bytes} {input : StepInput}
    (h : s.stageFile path bytes input = some t) : s.Keeps t := by
  unfold Site.stageFile at h
  split at h
  · cases h
    exact .refl s
  · split at h
    · cases h
      exact ⟨rfl, rfl, rfl⟩
    · cases h

/-- Only the state file decides which state is loaded. -/
theorem loadState_congr {s t : Site} (h : t.stateJson = s.stateJson) :
    t.loadState = s.loadState := by
  unfold Site.loadState
  rw [h]

/-- The trust check touches nothing but the owner file. -/
theorem Site.Trusts.stateJson_eq {s t : Site} {owner : String} (h : s.Trusts t owner) :
    t.stateJson = s.stateJson := by
  rcases h with ⟨-, rfl⟩ | ⟨-, rfl⟩
  · rfl
  · rfl

/-- The trust check leaves the persisted manifest alone. -/
theorem Site.Trusts.desiredManifest_eq {s t : Site} {owner : String} (h : s.Trusts t owner) :
    t.desiredManifest = s.desiredManifest := by
  rcases h with ⟨-, rfl⟩ | ⟨-, rfl⟩
  · rfl
  · rfl

end PeerDeploy.Deploy
