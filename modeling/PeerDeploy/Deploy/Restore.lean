import PeerDeploy.Deploy.Authentic
import PeerDeploy.Deploy.Versions
import PeerDeploy.Storage.ContentStore

/-!
# Restoring the desired state

`restore_from_disk` (`crates/agent/src/supervisor.rs:43–119`) rebuilds the supervisor's map
from the persisted manifest and the staged artifacts. The handlers keep the two in step by
different code: an apply saves the manifest text and builds the map from what it staged, a
push changes one entry of each. Here the handlers run one after the other.
-/

namespace PeerDeploy.Deploy

open PeerDeploy.Common PeerDeploy.Base PeerDeploy.Storage

/-- One component of the persisted manifest; `crates/agent/src/supervisor.rs:56–92`. A staged
file can be read. `none` where the slice of the digest panics. -/
def restoreComponent (x : Env) (s : Site) (localPeerId : Option String)
    (agentRoles : Option (List String)) (desired : Std.ExtTreeMap String DesiredComponent)
    (entry : String × ComponentSpec) : Option (Std.ExtTreeMap String DesiredComponent) :=
  let (name, spec) := entry
  if !spec.matchesTarget localPeerId agentRoles then some desired
  else if !spec.start then some desired
  else do
    let head ← Text.slice spec.sha256Hex 0 16
    let path := Path.join (Path.join x.dataDir "artifacts") s!"{name}-{head}.wasm"
    match s.artifacts[Path.canonical path]? with
    | none => return desired
    | some cached =>
      if x.sha256Hex cached = spec.sha256Hex then return desired.insert name { name, path, spec }
      else return desired

/-- `crates/agent/src/supervisor.rs:43–119`. -/
def Site.restoreFromDisk (x : Env) (s : Site) (localPeerId : Option String)
    (agentRoles : Option (List String)) : Option Site :=
  match s.desiredManifest with
  | none => some s
  | some manifestToml =>
    match x.tomlParse manifestToml with
    | .error _ => some s
    | .ok manifest => do
      let desired ← manifest.components.toList.foldlM
        (restoreComponent x s localPeerId agentRoles) ∅
      if desired.isEmpty then return s else return s.setDesired desired

/-- The process ends: the files stay, and the next one starts with a new supervisor. -/
def Site.restart (s : Site) : Site := { s with desired := ∅, componentsDesired := 0, reports := [] }

/-- A command that deploys components. -/
inductive Message where
  | apply (signed : SignedManifest)
  | push (pkg : PushPackage)

/-- The command as an event of the node. -/
def Message.event : Message → Event
  | .apply signed => .applyManifest signed
  | .push pkg => .pushComponent pkg

/-- A command and what the steps of its handler read from outside. -/
structure Deployment where
  message : Message
  inputs : List StepInput

/-- The handler has accepted its command. -/
def Task.isAccepted : Task → Bool
  | .apply task => task.pc == .accepted
  | .push task => task.pc == .accepted
  | _ => false

/-- The command arrives and its handler runs to its end; `none` unless it is accepted. -/
def Node.deploy (x : Env) (node : Node) (d : Deployment) : Option Node :=
  let k := node.tasks.length
  (run (step x) node (d.message.event :: d.inputs.map (.advance k))).filter fun after ↦
    after.tasks[k]?.any Task.isAccepted

/-- The binaries that a deployment stages: the one in the package, or those fetched that a
component of the manifest pins. -/
def Deployment.binaries (x : Externals) (d : Deployment) : List Bytes :=
  match d.message with
  | .push pkg => (x.base64Decode pkg.binaryB64).toOption.toList
  | .apply signed => (d.inputs.filterMap (·.fetched.toOption)).filter fun bytes ↦
    (x.tomlParse signed.manifestToml).toOption.any fun manifest ↦
      manifest.components.toList.any fun (_, spec) ↦ spec.sha256Hex == x.sha256Hex bytes

/-- Distinct binaries differ in the first sixteen digits of their digests. -/
def DistinctHeads (x : Externals) (binaries : List Bytes) : Prop :=
  ∀ a ∈ binaries, ∀ b ∈ binaries,
    digestHead (x.sha256Hex a) = digestHead (x.sha256Hex b) → a = b

/-- The limits are below `2^63`, the other numbers have the widths of their types. -/
structure Storable (spec : ComponentSpec) : Prop where
  memoryMaxMb : ∀ n ∈ spec.memoryMaxMb, n < 2 ^ 63
  fuel : ∀ n ∈ spec.fuel, n < 2 ^ 63
  epochMs : ∀ n ∈ spec.epochMs, n < 2 ^ 63
  replicas : ∀ n ∈ spec.replicas, n < 2 ^ 32
  ports : ∀ ports ∈ spec.ports, ∀ port ∈ ports, port.port < 2 ^ 16

/-- All components are storable. -/
def StorableManifest (manifest : Manifest) : Prop :=
  ∀ (name : String) (spec : ComponentSpec),
    manifest.components[name]? = some spec → Storable spec

/-- The numbers that a command brings are storable; what a manifest text can hold is. -/
def Message.Storable : Message → Prop
  | .push pkg => Deploy.Storable (pushSpec pkg.unsigned)
  | .apply _ => True

/-- What the agent relies on of `toml`: integers are signed 64-bit numbers, a manifest of such
numbers can be written, and what is written is read back. -/
structure TomlFaithful (x : Externals) : Prop where
  reads : ∀ text manifest, x.tomlParse text = .ok manifest → StorableManifest manifest
  writes : ∀ manifest, StorableManifest manifest → ∃ text, x.tomlWrite manifest = some text
  readsBack : ∀ manifest text, x.tomlWrite manifest = some text → x.tomlParse text = .ok manifest

/-- A node that has deployed nothing yet. -/
structure Fresh (s : Site) : Prop where
  desiredManifest : s.desiredManifest = none
  desired : s.desired = ∅
  artifacts : s.artifacts = ∅

/-! ### Staged files -/

-- The end of the file name of an artifact.
private def headSuffix (digest : String) : List Char :=
  '-' :: ((digestHead digest).toList ++ ['.', 'w', 'a', 's', 'm'])

private theorem suffix_artifactPath (dataDir name : String) {digest : String}
    (h : IsDigest digest) :
    headSuffix digest <:+ (Path.canonical (artifactPath dataDir name digest)).toList := by
  obtain ⟨hlen, hchars⟩ := plain_of_isDigest h
  apply Path.suffix_canonical
  · apply List.IsSuffix.trans _ (Path.suffix_join _ _)
    refine ⟨name.toList, ?_⟩
    simp [headSuffix, toString]
  · intro hin
    simp only [headSuffix, digestHead, String.toList_ofList, List.mem_cons, List.mem_append] at hin
    rcases hin with hin | hin | hin
    · exact absurd hin (by decide)
    · exact (hchars '/' (List.mem_of_mem_take hin)).2.1 rfl
    · exact absurd hin (by decide)
  · simp [headSuffix]

private theorem digestHead_of_path {dataDir name other : String} {digest another : String}
    (h : IsDigest digest) (h' : IsDigest another)
    (hpath : Path.canonical (artifactPath dataDir name digest) =
      Path.canonical (artifactPath dataDir other another)) :
    digestHead digest = digestHead another := by
  have hlength (d : String) (hd : IsDigest d) : (digestHead d).toList.length = 16 := by
    rw [digestHead, String.toList_ofList, List.length_take, (plain_of_isDigest hd).1]
    rfl
  obtain ⟨front, hfront⟩ := suffix_artifactPath dataDir name h
  obtain ⟨front', hfront'⟩ := suffix_artifactPath dataDir other h'
  rw [hpath, ← hfront'] at hfront
  have hsuffix := (List.append_inj' hfront (by
    simp only [headSuffix, List.length_cons, List.length_append, hlength digest h,
      hlength another h'])).2
  have hhead := List.append_inj_left' (List.cons.inj hsuffix).2 rfl
  exact String.toList_inj.mp hhead

-- Every staged file is one of the binaries and lies at a path of its digest.
private def FilesNamed (x : Env) (known : List Bytes) (s : Site) : Prop :=
  ∀ (path : String) (bytes : Bytes), s.artifacts[path]? = some bytes →
    bytes ∈ known ∧ ∃ name, path = Path.canonical (artifactPath x.dataDir name (x.sha256Hex bytes))

-- The artifact of a component lies at its path.
private def Staged (x : Env) (s : Site) (name digest : String) : Prop :=
  ∃ bytes : Bytes, s.artifacts[Path.canonical (artifactPath x.dataDir name digest)]? = some bytes ∧
    x.sha256Hex bytes = digest

-- The supervisor's map and the persisted manifest are the same, and no staged file is lost.
private structure Stages (s t : Site) : Prop where
  desiredManifest : t.desiredManifest = s.desiredManifest
  desired : t.desired = s.desired
  artifacts : ∀ (path : String) (bytes : Bytes),
    s.artifacts[path]? = some bytes → t.artifacts[path]? = some bytes

private theorem Staged.mono {x : Env} {s t : Site} {name digest : String}
    (h : Staged x s name digest) (hstages : Stages s t) : Staged x t name digest := by
  obtain ⟨bytes, hfile, hdigest⟩ := h
  exact ⟨bytes, hstages.artifacts _ _ hfile, hdigest⟩

private theorem stageFile_spec {x : Env} {known : List Bytes} {s t : Site} {name : String}
    {bytes : Bytes} {input : StepInput} (hdigest : ∀ bytes, IsDigest (x.sha256Hex bytes))
    (hheads : DistinctHeads x.toExternals known) (hfiles : FilesNamed x known s)
    (hknown : bytes ∈ known)
    (h : s.stageFile (artifactPath x.dataDir name (x.sha256Hex bytes)) bytes input = some t) :
    FilesNamed x known t ∧ Stages s t ∧ Staged x t name (x.sha256Hex bytes) := by
  unfold Site.stageFile at h
  split at h
  · next hfile =>
    cases h
    refine ⟨hfiles, ⟨rfl, rfl, fun _ _ hb ↦ hb⟩, ?_⟩
    -- a file at this path has a digest with the same head, so it is the same binary
    rw [Std.ExtTreeMap.contains_eq_isSome_getElem?] at hfile
    obtain ⟨found, hfound⟩ := Option.isSome_iff_exists.mp hfile
    obtain ⟨hin, other, hpath⟩ := hfiles _ _ hfound
    have hsame : bytes = found := by
      apply hheads bytes hknown found hin
      exact digestHead_of_path (hdigest bytes) (hdigest found) hpath
    exact ⟨found, hfound, by rw [hsame]⟩
  · next hfile =>
    split at h
    · cases h
      have hnew (path : String) : (s.artifacts.insert (Path.canonical
          (artifactPath x.dataDir name (x.sha256Hex bytes))) bytes)[path]? = _ :=
        Table.getElem?_insert s.artifacts _ path bytes
      refine ⟨?_, ⟨rfl, rfl, ?_⟩, bytes, ?_, rfl⟩
      · intro path found hfound
        rw [hnew] at hfound
        split at hfound
        · next hpath =>
          cases hfound
          exact ⟨hknown, name, hpath.symm⟩
        · exact hfiles path found hfound
      · intro path found hfound
        rw [hnew, if_neg]
        · exact hfound
        · rintro rfl
          rw [Std.ExtTreeMap.contains_eq_isSome_getElem?, hfound] at hfile
          exact hfile rfl
      · rw [hnew, if_pos rfl]
    · cases h

/-! ### The map and the manifest -/

-- The components of a manifest that a node runs.
private def applies (x : Env) (roles : List String) (spec : ComponentSpec) : Bool :=
  spec.matchesTarget (some x.localPeerId) (some roles)

-- The entry that the supervisor holds for a component of the manifest.
private def entryOf (x : Env) (name : String) (spec : ComponentSpec) : Option DesiredComponent :=
  if spec.start then some ⟨name, artifactPath x.dataDir name spec.sha256Hex, spec⟩ else none

-- The manifest that the persisted text stands for.
private def Persisted (x : Externals) (file : Option String) (manifest : Manifest) : Prop :=
  (file = none ∧ manifest = ⟨∅⟩) ∨ ∃ text, file = some text ∧ x.tomlParse text = .ok manifest

-- The map is what the persisted manifest asks for, and its artifacts are staged.
private structure InStep (x : Env) (roles : List String) (s : Site) (manifest : Manifest) :
    Prop where
  persisted : Persisted x.toExternals s.desiredManifest manifest
  storable : StorableManifest manifest
  desired : ∀ name : String, s.desired[name]? = manifest.components[name]?.bind fun spec ↦
    if applies x roles spec then entryOf x name spec else none
  staged : ∀ (name : String) (spec : ComponentSpec), manifest.components[name]? = some spec →
    applies x roles spec = true → spec.start = true → Staged x s name spec.sha256Hex

private theorem InStep.mono {x : Env} {roles : List String} {s t : Site} {manifest : Manifest}
    (h : InStep x roles s manifest) (hstages : Stages s t) : InStep x roles t manifest where
  persisted := by
    rw [hstages.desiredManifest]
    exact h.persisted
  storable := h.storable
  desired := by
    rw [hstages.desired]
    exact h.desired
  staged name spec hname happlies hstart := (h.staged name spec hname happlies hstart).mono hstages

private theorem inStep_of_fresh {x : Env} {roles : List String} {s : Site} (h : Fresh s) :
    InStep x roles s ⟨∅⟩ where
  persisted := .inl ⟨h.desiredManifest, rfl⟩
  storable name spec hname := by simp at hname
  desired name := by simp [h.desired]
  staged name spec hname := by simp at hname

private theorem foldlM_eq_some {α : Type} {β : Type} {f : β → α → Option β} {g : β → α → β}
    {entries : List α} (h : ∀ entry ∈ entries, ∀ b, f b entry = some (g b entry)) (b : β) :
    entries.foldlM f b = some (entries.foldl g b) := by
  induction entries generalizing b with
  | nil => rfl
  | cons entry entries ih =>
    rw [List.foldlM_cons, h entry List.mem_cons_self]
    exact ih (fun e he ↦ h e (List.mem_cons_of_mem entry he)) (g b entry)

private theorem restoreComponent_eq {x : Env} {roles : List String} {s : Site}
    (hdigest : ∀ bytes, IsDigest (x.sha256Hex bytes)) {name : String} {spec : ComponentSpec}
    (hstaged : applies x roles spec = true → spec.start = true → Staged x s name spec.sha256Hex)
    (desired : Std.ExtTreeMap String DesiredComponent) :
    restoreComponent x s (some x.localPeerId) (some roles) desired (name, spec) =
      some (Table.put (fun name spec ↦ if applies x roles spec then entryOf x name spec else none)
        desired (name, spec)) := by
  by_cases happlies : applies x roles spec = true
  · have hmatches : spec.matchesTarget (some x.localPeerId) (some roles) = true := happlies
    by_cases hstart : spec.start = true
    · obtain ⟨bytes, hfile, hbytes⟩ := hstaged happlies hstart
      have hslice : Text.slice spec.sha256Hex 0 16 = some (digestHead spec.sha256Hex) := by
        obtain ⟨hlen, hchars⟩ := plain_of_isDigest (hdigest bytes)
        rw [← hbytes, Text.slice_eq_some (fun c hc ↦ (hchars c hc).1) (by omega) (by omega)]
        rfl
      have hput : Table.put (fun name spec ↦ if applies x roles spec then entryOf x name spec
          else none) desired (name, spec) =
            desired.insert name ⟨name, artifactPath x.dataDir name spec.sha256Hex, spec⟩ := by
        simp [Table.put, happlies, entryOf, hstart]
      rw [hput]
      simp only [restoreComponent, hmatches, hstart, hslice, Bool.not_true, Bool.false_eq_true,
        if_false, bind, Option.bind]
      rw [artifactPath] at hfile
      rw [hfile]
      simp only [hbytes, if_true]
      rfl
    · simp [restoreComponent, Table.put, entryOf, hmatches, happlies, hstart]
  · have hmatches : ¬ spec.matchesTarget (some x.localPeerId) (some roles) = true := happlies
    simp [restoreComponent, Table.put, hmatches, happlies]

-- From a map in step with the manifest, the next supervisor gets the same map.
private theorem restore_of_inStep {x : Env} {roles : List String} {s : Site} {manifest : Manifest}
    (hdigest : ∀ bytes, IsDigest (x.sha256Hex bytes)) (h : InStep x roles s manifest) :
    (s.restart.restoreFromDisk x (some x.localPeerId) (some roles)).map Site.desired =
      some s.desired := by
  rcases h.persisted with ⟨hnone, rfl⟩ | ⟨text, htext, hparse⟩
  · have hempty : s.desired = ∅ := by
      apply Std.ExtTreeMap.ext_getElem?
      intro name
      rw [h.desired]
      simp
    have hmanifest : s.restart.desiredManifest = none := hnone
    rw [Site.restoreFromDisk, hmanifest, hempty]
    rfl
  · have hmanifest : s.restart.desiredManifest = some text := htext
    have hfold : manifest.components.toList.foldlM
        (restoreComponent x s.restart (some x.localPeerId) (some roles)) ∅ = some s.desired := by
      rw [foldlM_eq_some (g := Table.put fun name spec ↦
        if applies x roles spec then entryOf x name spec else none)]
      · congr 1
        apply Std.ExtTreeMap.ext_getElem?
        intro name
        have hcollect := Table.getElem?_collect (g := fun name spec ↦
          if applies x roles spec then entryOf x name spec else none)
          manifest.components (fun _ ↦ true) name
        rw [List.filter_true] at hcollect
        rw [hcollect, h.desired]
        rfl
      · rintro ⟨name, spec⟩ hentry desired
        apply restoreComponent_eq hdigest
        intro happlies hstart
        exact h.staged name spec (Std.ExtTreeMap.mem_toList_iff_getElem?_eq_some.mp hentry)
          happlies hstart
    simp only [Site.restoreFromDisk, hmanifest, hparse, hfold, bind, Option.bind]
    -- an empty map is not set, but the new supervisor starts with one
    by_cases hempty : s.desired.isEmpty = true
    · rw [if_pos hempty, Std.ExtTreeMap.isEmpty_iff.mp hempty]
      rfl
    · rw [if_neg hempty]
      rfl

/-! ### A push, step by step -/

-- What holds of a push between its steps.
private def PushPhase (x : Env) (known : List Bytes) (roles : List String) (s : Site)
    (unsigned : PushUnsigned) : PushPc → Prop
  | .check => ∃ manifest, InStep x roles s manifest
  | .stage bytes => (∃ manifest, InStep x roles s manifest) ∧ bytes ∈ known ∧
    x.sha256Hex bytes = unsigned.binarySha256Hex
  | .schedule path => (∃ manifest, InStep x roles s manifest) ∧
    path = artifactPath x.dataDir unsigned.componentName unsigned.binarySha256Hex ∧
    Staged x s unsigned.componentName unsigned.binarySha256Hex
  | .persist spec => ∃ manifest old, InStep x roles { s with desired := old } manifest ∧
    s.desired = old.insert unsigned.componentName ⟨unsigned.componentName,
      artifactPath x.dataDir unsigned.componentName unsigned.binarySha256Hex, spec⟩ ∧
    spec = pushSpec unsigned ∧ unsigned.start = true ∧
    Staged x s unsigned.componentName unsigned.binarySha256Hex
  | .accepted => ∃ manifest, InStep x roles s manifest
  | .rejected _ => True

private theorem stages_of_trusts {s t : Site} {owner : String} (h : s.Trusts t owner) :
    Stages s t ∧ t.artifacts = s.artifacts := by
  rcases h with ⟨-, rfl⟩ | ⟨-, rfl⟩
  · exact ⟨⟨rfl, rfl, fun _ _ hb ↦ hb⟩, rfl⟩
  · exact ⟨⟨rfl, rfl, fun _ _ hb ↦ hb⟩, rfl⟩

private theorem update_eq {x : Env} {s : Site} {manifest : Manifest}
    (h : Persisted x.toExternals s.desiredManifest manifest) (name : String)
    (spec : ComponentSpec) :
    s.updatePersistentManifestWithComponent x.toExternals name spec =
      match x.tomlWrite ⟨manifest.components.insert name spec⟩ with
      | some text => s.saveDesiredManifest text
      | none => s := by
  unfold Site.updatePersistentManifestWithComponent
  rcases h with ⟨hnone, rfl⟩ | ⟨text, htext, hparse⟩
  · rw [hnone]
    rfl
  · have hread : s.desiredManifest.map x.tomlParse = some (.ok manifest) := by
      rw [htext, Option.map_some, hparse]
    generalize s.desiredManifest.map x.tomlParse = read at hread ⊢
    subst hread
    rfl

private theorem inStep_persist {x : Env} {roles : List String} {s : Site} {manifest : Manifest}
    {old : Std.ExtTreeMap String DesiredComponent} (htoml : TomlFaithful x.toExternals)
    (h : InStep x roles { s with desired := old } manifest) {name : String}
    {spec : ComponentSpec} (happlies : applies x roles spec = true) (hstart : spec.start = true)
    (hstorable : Storable spec) (hstaged : Staged x s name spec.sha256Hex)
    (hdesired : s.desired =
      old.insert name ⟨name, artifactPath x.dataDir name spec.sha256Hex, spec⟩) :
    ∃ text, x.tomlWrite ⟨manifest.components.insert name spec⟩ = some text ∧
      InStep x roles (s.saveDesiredManifest text) ⟨manifest.components.insert name spec⟩ := by
  have hnew (other : String) : (manifest.components.insert name spec)[other]? = _ :=
    Table.getElem?_insert manifest.components name other spec
  have hwritable : StorableManifest ⟨manifest.components.insert name spec⟩ := by
    intro other found hfound
    rw [hnew] at hfound
    split at hfound
    · cases hfound
      exact hstorable
    · exact h.storable other found hfound
  obtain ⟨text, htext⟩ := htoml.writes _ hwritable
  refine ⟨text, htext, .inr ⟨text, rfl, htoml.readsBack _ _ htext⟩, hwritable, ?_, ?_⟩
  · intro other
    change s.desired[other]? = _
    rw [hdesired, hnew, Table.getElem?_insert]
    split
    · next heq =>
      subst heq
      simp [happlies, entryOf, hstart]
    · exact h.desired other
  · intro other found hfound hother hbegin
    rw [hnew] at hfound
    split at hfound
    · next heq =>
      subst heq
      cases hfound
      exact hstaged
    · exact h.staged other found hfound hother hbegin

private theorem pushPhase_advance {x : Env} {known : List Bytes} {roles : List String}
    {s t : Site} {task : PushTask} {input : StepInput} {pc : PushPc}
    (hdigest : ∀ bytes, IsDigest (x.sha256Hex bytes))
    (hheads : DistinctHeads x.toExternals known) (htoml : TomlFaithful x.toExternals)
    (happlies : applies x roles (pushSpec task.pkg.unsigned) = true)
    (hstorable : Storable (pushSpec task.pkg.unsigned))
    (hbinary : ∀ bytes, x.base64Decode task.pkg.binaryB64 = .ok bytes → bytes ∈ known)
    (hfiles : FilesNamed x known s) (h : PushPhase x known roles s task.pkg.unsigned task.pc)
    (hadv : task.advance x s input = some (t, pc)) :
    FilesNamed x known t ∧ PushPhase x known roles t task.pkg.unsigned pc := by
  unfold PushTask.advance at hadv
  simp only at hadv
  cases hpc : task.pc with
  | check =>
    rw [hpc] at h hadv
    rcases pushCheck_cases x s task.pkg with
      ⟨error, hcheck⟩ | ⟨u, sig, bin, hcheck, -, -, hbin, hsha, htrust⟩
    · rw [hcheck] at hadv
      cases hadv
      exact ⟨hfiles, trivial⟩
    · rw [hcheck] at hadv
      cases hadv
      obtain ⟨hstages, hartifacts⟩ := stages_of_trusts (trusts_of_trustOnFirstUse htrust)
      obtain ⟨manifest, hstep⟩ := h
      refine ⟨?_, ⟨manifest, hstep.mono hstages⟩, hbinary bin hbin, hsha⟩
      unfold FilesNamed
      rw [hartifacts]
      exact hfiles
  | stage bytes =>
    rw [hpc] at h hadv
    obtain ⟨⟨manifest, hstep⟩, hknown, hsha⟩ := h
    simp only at hadv
    split at hadv
    · cases hadv
      exact ⟨hfiles, trivial⟩
    · cases hadv
      exact ⟨hfiles, trivial⟩
    · next hstage =>
      cases hadv
      obtain ⟨hnext, hstages, hstaged⟩ := stageFile_spec hdigest hheads hfiles hknown hstage
      rw [hsha] at hstaged
      exact ⟨hnext, ⟨manifest, hstep.mono hstages⟩, by rw [hsha], hstaged⟩
  | schedule path =>
    rw [hpc] at h hadv
    obtain ⟨⟨manifest, hstep⟩, hpath, hstaged⟩ := h
    simp only at hadv
    split at hadv
    · next hstart =>
      cases hadv
      refine ⟨hfiles, manifest, s.desired, ?_, ?_, rfl, hstart, hstaged⟩
      · exact ⟨hstep.persisted, hstep.storable, hstep.desired, hstep.staged⟩
      · rw [hpath]
        rfl
    · cases hadv
      exact ⟨hfiles, manifest, hstep⟩
  | persist spec =>
    rw [hpc] at h hadv
    obtain ⟨manifest, old, hstep, hdesired, rfl, hstart, hstaged⟩ := h
    obtain ⟨text, htext, hnext⟩ := inStep_persist htoml hstep happlies hstart hstorable hstaged
      hdesired
    have hupdate : s.updatePersistentManifestWithComponent x.toExternals
        task.pkg.unsigned.componentName (pushSpec task.pkg.unsigned) =
          s.saveDesiredManifest text := by
      rw [update_eq (s := s) hstep.persisted, htext]
    simp only [hupdate] at hadv
    cases hadv
    exact ⟨hfiles, _, hnext⟩
  | accepted =>
    rw [hpc] at hadv
    cases hadv
  | rejected error =>
    rw [hpc] at hadv
    cases hadv

/-! ### An apply, step by step -/

-- The components of a manifest that the node stages.
private def applicable (x : Env) (roles : List String) (manifest : Manifest) :
    List (String × ComponentSpec) :=
  manifest.components.toList.filter fun (_, spec) ↦ applies x roles spec

-- The staged paths that an apply collects.
private def pathsOf (x : Env) (done : List (String × ComponentSpec)) : List (String × String) :=
  done.map fun (name, spec) ↦ (name, artifactPath x.dataDir name spec.sha256Hex)

-- Between the check and the installation: the manifest of the text, the components staged so far
-- with their paths, and those to come.
private structure Staging (x : Env) (roles : List String) (s : Site) (text : String)
    (all rest : List (String × ComponentSpec)) (staged : List (String × String))
    (manifest : Manifest) (done : List (String × ComponentSpec)) : Prop where
  parsed : x.tomlParse text = .ok manifest
  ofManifest : all = applicable x roles manifest
  inOrder : all = done ++ rest
  paths : staged = pathsOf x done
  onDisk : ∀ entry ∈ done, Staged x s entry.1 entry.2.sha256Hex

-- What holds of an apply between its steps.
private def ApplyPhase (x : Env) (roles : List String) (s : Site) (text : String) :
    ApplyPc → Prop
  | .check => ∃ manifest, InStep x roles s manifest
  | .stage all rest staged => (∃ manifest, InStep x roles s manifest) ∧
    ∃ manifest done, Staging x roles s text all rest staged manifest done
  | .persist all staged => (∃ manifest, InStep x roles s manifest) ∧
    ∃ manifest done, Staging x roles s text all [] staged manifest done
  | .install all staged => s.desiredManifest = some text ∧
    ∃ manifest done, Staging x roles s text all [] staged manifest done
  | .commit | .accepted => ∃ manifest, InStep x roles s manifest
  | .rejected => True

private theorem applyCheck_cases (x : Env) (s : Site) (task : ApplyTask) :
    (Stages s (applyCheck x s task).1 ∧ (applyCheck x s task).1.artifacts = s.artifacts) ∧
      ((applyCheck x s task).2 = .rejected ∨
        ∃ manifest, x.tomlParse task.signed.manifestToml = .ok manifest ∧
          ((applicable x task.agentRoles manifest = [] ∧
              (applyCheck x s task).2 = .persist [] []) ∨
            (applyCheck x s task).2 = .stage (applicable x task.agentRoles manifest)
              (applicable x task.agentRoles manifest) [])) := by
  unfold applyCheck
  split
  · exact ⟨⟨⟨rfl, rfl, fun _ _ hb ↦ hb⟩, rfl⟩, .inl rfl⟩
  · split
    · exact ⟨⟨⟨rfl, rfl, fun _ _ hb ↦ hb⟩, rfl⟩, .inl rfl⟩
    · split
      · exact ⟨⟨⟨rfl, rfl, fun _ _ hb ↦ hb⟩, rfl⟩, .inl rfl⟩
      · next t ht =>
        obtain ⟨hstages, hartifacts⟩ := stages_of_trusts (trusts_of_trustOnFirstUse ht)
        split
        · exact ⟨⟨⟨hstages.desiredManifest, hstages.desired, hstages.artifacts⟩, hartifacts⟩,
            .inl rfl⟩
        · unfold applyParsed
          split
          · exact ⟨⟨⟨hstages.desiredManifest, hstages.desired, hstages.artifacts⟩, hartifacts⟩,
              .inl rfl⟩
          · next manifest hparse =>
            simp only
            split
            · next hempty =>
              refine ⟨⟨hstages, hartifacts⟩, .inr ⟨manifest, hparse, .inl ⟨?_, rfl⟩⟩⟩
              exact List.isEmpty_iff.mp hempty
            · exact ⟨⟨hstages, hartifacts⟩, .inr ⟨manifest, hparse, .inr rfl⟩⟩

private theorem nodup_applicable (x : Env) (roles : List String) (manifest : Manifest) :
    ((applicable x roles manifest).map Prod.fst).Nodup :=
  (Table.nodup_keys manifest.components).sublist (List.filter_sublist.map _)

private theorem lookup_pathsOf {x : Env} {done : List (String × ComponentSpec)}
    (hkeys : (done.map Prod.fst).Nodup) {name : String} {spec : ComponentSpec}
    (h : (name, spec) ∈ done) :
    (pathsOf x done).lookup name = some (artifactPath x.dataDir name spec.sha256Hex) := by
  obtain ⟨front, back, rfl⟩ := List.append_of_mem h
  rw [List.map_append, List.nodup_append] at hkeys
  rw [List.lookup_eq_some_iff]
  refine ⟨pathsOf x front, pathsOf x back, by simp [pathsOf], ?_⟩
  intro entry hentry
  obtain ⟨⟨other, found⟩, hin, rfl⟩ := List.mem_map.mp hentry
  have hne := hkeys.2.2 other (List.mem_map.mpr ⟨_, hin, rfl⟩) name (by simp)
  simpa using Ne.symm hne

private theorem getElem?_applyDesired (x : Env) (roles : List String) (manifest : Manifest)
    (name : String) :
    (applyDesired (applicable x roles manifest)
        (pathsOf x (applicable x roles manifest)))[name]? =
      manifest.components[name]?.bind fun spec ↦
        if applies x roles spec then entryOf x name spec else none := by
  have hfold : applyDesired (applicable x roles manifest)
      (pathsOf x (applicable x roles manifest)) =
        (applicable x roles manifest).foldl (Table.put (entryOf x)) ∅ := by
    unfold applyDesired
    apply List.foldl_ext
    rintro desired ⟨other, spec⟩ hentry
    simp only [lookup_pathsOf (nodup_applicable x roles manifest) hentry, Table.put, entryOf]
    cases spec.start <;> rfl
  rw [hfold]
  exact Table.getElem?_collect manifest.components (fun entry ↦ applies x roles entry.2) name

private theorem inStep_install {x : Env} {roles : List String} {s : Site} {text : String}
    {all : List (String × ComponentSpec)} {staged : List (String × String)} {manifest : Manifest}
    {done : List (String × ComponentSpec)} (htoml : TomlFaithful x.toExternals)
    (hfile : s.desiredManifest = some text)
    (h : Staging x roles s text all [] staged manifest done) :
    InStep x roles (s.setDesired (applyDesired all staged)) manifest := by
  have hdone : done = applicable x roles manifest := by
    rw [← h.ofManifest, h.inOrder, List.append_nil]
  refine ⟨.inr ⟨text, hfile, h.parsed⟩, htoml.reads text manifest h.parsed, ?_, ?_⟩
  · intro name
    change (applyDesired all staged)[name]? = _
    rw [h.ofManifest, h.paths, hdone, getElem?_applyDesired]
  · intro name spec hname happlies hstart
    apply h.onDisk (name, spec)
    rw [hdone, applicable, List.mem_filter]
    exact ⟨Std.ExtTreeMap.mem_toList_iff_getElem?_eq_some.mpr hname, happlies⟩

private theorem applyPhase_stage {x : Env} {known : List Bytes} {roles : List String}
    {s t : Site} {text : String} {input : StepInput} {pc : ApplyPc}
    (hdigest : ∀ bytes, IsDigest (x.sha256Hex bytes))
    (hheads : DistinctHeads x.toExternals known) {name : String} {comp : ComponentSpec}
    {all rest : List (String × ComponentSpec)} {staged : List (String × String)}
    (hfetched : ∀ bytes, input.fetched = .ok bytes → x.sha256Hex bytes = comp.sha256Hex →
      bytes ∈ known)
    (hfiles : FilesNamed x known s)
    (h : ApplyPhase x roles s text (.stage all ((name, comp) :: rest) staged))
    (hadv : applyStage x s input all name comp rest staged = (t, pc)) :
    FilesNamed x known t ∧ ApplyPhase x roles t text pc := by
  obtain ⟨⟨current, hstep⟩, manifest, done, hstaging⟩ := h
  unfold applyStage at hadv
  split at hadv
  · cases hadv
    exact ⟨hfiles, trivial⟩
  · next bytes hbytes =>
    simp only at hadv
    split at hadv
    · cases hadv
      exact ⟨hfiles, trivial⟩
    · next hsha =>
      have hsha : x.sha256Hex bytes = comp.sha256Hex := Decidable.not_not.mp hsha
      have hanswer : input.fetched = .ok bytes := by
        unfold fetchBytes at hbytes
        split at hbytes
        · exact hbytes
        · cases hbytes
      split at hadv
      · cases hadv
        exact ⟨hfiles, trivial⟩
      · next u hu =>
        obtain ⟨hnext, hstages, hstaged⟩ :=
          stageFile_spec hdigest hheads hfiles (hfetched bytes hanswer hsha) hu
        have hstaging' : Staging x roles u text all rest
            (staged ++ [(name, artifactPath x.dataDir name (x.sha256Hex bytes))]) manifest
            (done ++ [(name, comp)]) := by
          refine ⟨hstaging.parsed, hstaging.ofManifest, ?_, ?_, ?_⟩
          · rw [hstaging.inOrder, List.append_assoc, List.singleton_append]
          · rw [hstaging.paths, hsha]
            simp [pathsOf]
          · intro entry hentry
            rcases List.mem_append.mp hentry with hold | hlast
            · exact (hstaging.onDisk entry hold).mono hstages
            · rw [List.mem_singleton.mp hlast]
              rw [hsha] at hstaged
              exact hstaged
        split at hadv
        · next hend =>
          cases hadv
          rw [List.isEmpty_iff.mp hend] at hstaging'
          exact ⟨hnext, ⟨current, hstep.mono hstages⟩, manifest, _, hstaging'⟩
        · cases hadv
          exact ⟨hnext, ⟨current, hstep.mono hstages⟩, manifest, _, hstaging'⟩

private theorem applyPhase_advance {x : Env} {known : List Bytes} {s t : Site}
    {task : ApplyTask} {input : StepInput} {pc : ApplyPc} {accepted : Bool}
    (hdigest : ∀ bytes, IsDigest (x.sha256Hex bytes))
    (hheads : DistinctHeads x.toExternals known) (htoml : TomlFaithful x.toExternals)
    (hfetched : ∀ manifest, x.tomlParse task.signed.manifestToml = .ok manifest →
      ∀ entry ∈ manifest.components.toList, ∀ bytes, input.fetched = .ok bytes →
        x.sha256Hex bytes = entry.2.sha256Hex → bytes ∈ known)
    (hfiles : FilesNamed x known s)
    (h : ApplyPhase x task.agentRoles s task.signed.manifestToml task.pc)
    (hadv : task.advance x s input = some ((t, pc), accepted)) :
    FilesNamed x known t ∧ ApplyPhase x task.agentRoles t task.signed.manifestToml pc := by
  unfold ApplyTask.advance at hadv
  split at hadv
  · next hpc =>
    rw [hpc] at h
    obtain ⟨current, hstep⟩ := h
    obtain ⟨⟨hstages, hartifacts⟩, hnext⟩ := applyCheck_cases x s task
    simp only [Option.some.injEq, Prod.mk.injEq] at hadv
    rw [hadv.1] at hstages hartifacts hnext
    refine ⟨?_, ?_⟩
    · unfold FilesNamed
      rw [hartifacts]
      exact hfiles
    · have hnow := hstep.mono hstages
      rcases hnext with rfl | ⟨manifest, hparse, ⟨hempty, rfl⟩ | rfl⟩
      · trivial
      · exact ⟨⟨current, hnow⟩, manifest, [], hparse, hempty.symm, rfl, rfl, by simp⟩
      · exact ⟨⟨current, hnow⟩, manifest, [], hparse, rfl, rfl, rfl, by simp⟩
  · cases hadv
  · next all name comp rest staged hpc =>
    rw [hpc] at h
    simp only [Option.some.injEq, Prod.mk.injEq] at hadv
    apply applyPhase_stage hdigest hheads _ hfiles h hadv.1
    obtain ⟨-, manifest, done, hstaging⟩ := h
    have hall : (name, comp) ∈ applicable x task.agentRoles manifest := by
      rw [← hstaging.ofManifest, hstaging.inOrder]
      simp
    exact hfetched manifest hstaging.parsed _ (List.mem_filter.mp hall).1
  · next all staged hpc =>
    rw [hpc] at h
    obtain ⟨-, manifest, done, hstaging⟩ := h
    cases hadv
    exact ⟨hfiles, rfl, manifest, done, hstaging.parsed, hstaging.ofManifest, hstaging.inOrder,
      hstaging.paths, hstaging.onDisk⟩
  · next all staged hpc =>
    rw [hpc] at h
    obtain ⟨hfile, manifest, done, hstaging⟩ := h
    cases hadv
    exact ⟨hfiles, manifest, inStep_install htoml hfile hstaging⟩
  · next hpc =>
    rw [hpc] at h
    obtain ⟨manifest, hstep⟩ := h
    cases hadv
    exact ⟨hfiles, manifest, hstep.persisted, hstep.storable, hstep.desired, hstep.staged⟩
  · cases hadv
  · cases hadv

/-! ### Whole deployments -/

-- The task is the handler of the command, and what holds between its steps holds.
private def Handles (x : Env) (known : List Bytes) (roles : List String) (s : Site) :
    Message → Task → Prop
  | .apply signed, .apply task => task.signed = signed ∧ task.agentRoles = roles ∧
    ApplyPhase x task.agentRoles s task.signed.manifestToml task.pc
  | .push pkg, .push task => task.pkg = pkg ∧ applies x roles (pushSpec task.pkg.unsigned) = true ∧
    PushPhase x known roles s task.pkg.unsigned task.pc
  | _, _ => False

private theorem handles_advance {x : Env} {known : List Bytes} {roles : List String}
    {node after : Node} {d : Deployment} {k : Nat} {task : Task} {input : StepInput}
    (hdigest : ∀ bytes, IsDigest (x.sha256Hex bytes))
    (hheads : DistinctHeads x.toExternals known) (htoml : TomlFaithful x.toExternals)
    (hstorable : d.message.Storable) (hknown : ∀ bytes ∈ d.binaries x.toExternals, bytes ∈ known)
    (hinput : input ∈ d.inputs) (hfiles : FilesNamed x known node.site)
    (htask : node.tasks[k]? = some task) (h : Handles x known roles node.site d.message task)
    (hstep : step x node (.advance k input) = some after) :
    after.roles = node.roles ∧ FilesNamed x known after.site ∧
      ∃ next, after.tasks[k]? = some next ∧ Handles x known roles after.site d.message next := by
  simp only [step, Node.advance, htask] at hstep
  cases hmessage : d.message with
  | apply signed =>
    rw [hmessage] at h
    cases task with
    | apply task =>
      obtain ⟨rfl, rfl, hphase⟩ := h
      obtain ⟨⟨⟨site, pc⟩, accepted⟩, hadv, rfl⟩ := Option.map_eq_some_iff.mp hstep
      have hfetched : ∀ manifest, x.tomlParse task.signed.manifestToml = .ok manifest →
          ∀ entry ∈ manifest.components.toList, ∀ bytes, input.fetched = .ok bytes →
            x.sha256Hex bytes = entry.2.sha256Hex → bytes ∈ known := by
        intro manifest hparse entry hentry bytes hbytes hsha
        apply hknown
        rw [Deployment.binaries, hmessage, List.mem_filter]
        refine ⟨List.mem_filterMap.mpr ⟨input, hinput, by rw [hbytes]; rfl⟩, ?_⟩
        rw [hparse]
        exact List.any_eq_true.mpr ⟨entry, hentry, beq_iff_eq.mpr hsha.symm⟩
      obtain ⟨hnext, hphase⟩ :=
        applyPhase_advance hdigest hheads htoml hfetched hfiles hphase hadv
      have hput := getElem?_resume site (.apply { task with pc }) htask
      cases accepted with
      | false => exact ⟨rfl, hnext, _, hput, rfl, rfl, hphase⟩
      | true => exact ⟨rfl, hnext, _, hput, rfl, rfl, hphase⟩
    | upgrade task => exact h.elim
    | push task => exact h.elim
    | killed => exact h.elim
  | push pkg =>
    rw [hmessage] at h
    cases task with
    | push task =>
      obtain ⟨rfl, happlies, hphase⟩ := h
      obtain ⟨⟨site, pc⟩, hadv, rfl⟩ := Option.map_eq_some_iff.mp hstep
      have hbinary : ∀ bytes, x.base64Decode task.pkg.binaryB64 = .ok bytes → bytes ∈ known := by
        intro bytes hbytes
        apply hknown
        rw [Deployment.binaries, hmessage]
        simp only [hbytes, Except.toOption, Option.toList_some, List.mem_singleton]
      rw [hmessage] at hstorable
      obtain ⟨hnext, hphase⟩ :=
        pushPhase_advance hdigest hheads htoml happlies hstorable hbinary hfiles hphase hadv
      exact ⟨rfl, hnext, _, getElem?_resume site (.push { task with pc }) htask, rfl, happlies,
        hphase⟩
    | apply task => exact h.elim
    | upgrade task => exact h.elim
    | killed => exact h.elim

private theorem applies_of_selected {x : Env} {roles : List String} {pkg : PushPackage}
    (h : pushSelected x roles pkg = true) : applies x roles (pushSpec pkg.unsigned) = true :=
  (Bool.and_eq_true_iff.mp h).1

private theorem run_advances {x : Env} {known : List Bytes} {roles : List String}
    {node after : Node} {d : Deployment} {k : Nat} {task : Task}
    (hdigest : ∀ bytes, IsDigest (x.sha256Hex bytes))
    (hheads : DistinctHeads x.toExternals known) (htoml : TomlFaithful x.toExternals)
    (hstorable : d.message.Storable) (hknown : ∀ bytes ∈ d.binaries x.toExternals, bytes ∈ known)
    (hfiles : FilesNamed x known node.site) (htask : node.tasks[k]? = some task)
    (h : Handles x known roles node.site d.message task)
    (hrun : run (step x) node (d.inputs.map (.advance k)) = some after) :
    after.roles = node.roles ∧ FilesNamed x known after.site ∧
      ∃ next, after.tasks[k]? = some next ∧ Handles x known roles after.site d.message next := by
  let inv : Node → Prop := fun n ↦ n.roles = node.roles ∧ FilesNamed x known n.site ∧
    ∃ next, n.tasks[k]? = some next ∧ Handles x known roles n.site d.message next
  have hlabels : ∀ event ∈ d.inputs.map (Event.advance k),
      ∃ input ∈ d.inputs, event = .advance k input := by
    intro event hevent
    obtain ⟨input, hinput, rfl⟩ := List.mem_map.mp hevent
    exact ⟨input, hinput, rfl⟩
  have hkeep : ∀ n event m, inv n → (∃ input ∈ d.inputs, event = .advance k input) →
      step x n event = some m → inv m := by
    rintro n event m ⟨hroles, hn, next, hnext, hhandles⟩ ⟨input, hinput, rfl⟩ hm
    obtain ⟨hsame, hrest⟩ :=
      handles_advance hdigest hheads htoml hstorable hknown hinput hn hnext hhandles hm
    exact ⟨hsame.trans hroles, hrest⟩
  exact run_invariant hkeep ⟨rfl, hfiles, task, htask, h⟩ (stepsMeet_of_forall hlabels node) hrun

private theorem inStep_of_accepted {x : Env} {known : List Bytes} {roles : List String} {s : Site}
    {message : Message} {task : Task} (h : Handles x known roles s message task)
    (haccepted : task.isAccepted = true) : ∃ manifest, InStep x roles s manifest := by
  cases message with
  | apply signed =>
    cases task with
    | apply task =>
      obtain ⟨-, rfl, hphase⟩ := h
      rw [beq_iff_eq.mp haccepted] at hphase
      exact hphase
    | _ => exact h.elim
  | push pkg =>
    cases task with
    | push task =>
      obtain ⟨-, -, hphase⟩ := h
      rw [beq_iff_eq.mp haccepted] at hphase
      exact hphase
    | _ => exact h.elim

private theorem deploy_keeps {x : Env} {known : List Bytes} {node after : Node} {d : Deployment}
    (hdigest : ∀ bytes, IsDigest (x.sha256Hex bytes))
    (hheads : DistinctHeads x.toExternals known) (htoml : TomlFaithful x.toExternals)
    (hstorable : d.message.Storable) (hknown : ∀ bytes ∈ d.binaries x.toExternals, bytes ∈ known)
    (hfiles : FilesNamed x known node.site)
    (hstep : ∃ manifest, InStep x node.roles node.site manifest)
    (h : node.deploy x d = some after) :
    after.roles = node.roles ∧ FilesNamed x known after.site ∧
      ∃ manifest, InStep x node.roles after.site manifest := by
  obtain ⟨hrun, haccepted⟩ := Option.filter_eq_some_iff.mp h
  obtain ⟨mid, hmid, hadvances⟩ := run_cons_eq_some.mp hrun
  -- the event spawns the handler, or the command is not for this node and nothing follows
  have hspawned : mid.roles = node.roles ∧ mid.site = node.site ∧
      ∃ task, mid.tasks[node.tasks.length]? = some task ∧
        Handles x known node.roles mid.site d.message task := by
    cases hmessage : d.message with
    | apply signed =>
      rw [hmessage] at hmid
      cases hmid
      exact ⟨rfl, rfl, .apply { signed, agentRoles := node.roles }, by simp [Node.spawn],
        rfl, rfl, hstep⟩
    | push pkg =>
      rw [hmessage] at hmid
      simp only [Message.event, step] at hmid
      split at hmid
      · next hselected =>
        cases hmid
        exact ⟨rfl, rfl, .push { pkg }, by simp [Node.spawn], rfl,
          applies_of_selected hselected, hstep⟩
      · cases hmid
        cases hinputs : d.inputs with
        | nil =>
          rw [hinputs] at hadvances
          cases hadvances
          simp at haccepted
        | cons input inputs =>
          rw [hinputs] at hadvances
          simp [run, step, Node.advance] at hadvances
  obtain ⟨hroles, hsite, task, htask, hhandles⟩ := hspawned
  rw [← hsite] at hfiles
  obtain ⟨hsame, hnext, next, hlast, hdone⟩ :=
    run_advances hdigest hheads htoml hstorable hknown hfiles htask hhandles hadvances
  rw [hlast] at haccepted
  exact ⟨hsame.trans hroles, hnext, inStep_of_accepted hdone haccepted⟩

/-- After every sequence of accepted deployments on a node, a new supervisor that restores from
disk holds exactly the map that the old one held. -/
theorem restart_recovers {x : Env} {node after : Node} {deployments : List Deployment}
    (hdigest : ∀ bytes, IsDigest (x.sha256Hex bytes)) (htoml : TomlFaithful x.toExternals)
    (hheads : DistinctHeads x.toExternals (deployments.flatMap (·.binaries x.toExternals)))
    (hstorable : ∀ d ∈ deployments, d.message.Storable) (hfresh : Fresh node.site)
    (hrun : run (Node.deploy x) node deployments = some after) :
    after.roles = node.roles ∧
      (after.site.restart.restoreFromDisk x (some x.localPeerId) (some after.roles)).map
        Site.desired = some after.site.desired := by
  let inv : Node → Prop := fun n ↦ n.roles = node.roles ∧
    FilesNamed x (deployments.flatMap (·.binaries x.toExternals)) n.site ∧
    ∃ manifest, InStep x node.roles n.site manifest
  have hstart : inv node := by
    refine ⟨rfl, ?_, ⟨∅⟩, inStep_of_fresh hfresh⟩
    intro path bytes hfile
    rw [hfresh.artifacts] at hfile
    simp at hfile
  have hkeep : ∀ n d m, inv n → d ∈ deployments → Node.deploy x n d = some m → inv m := by
    rintro n d m ⟨hroles, hfiles, hstep⟩ hd hm
    rw [← hroles] at hstep
    have hknown : ∀ bytes ∈ d.binaries x.toExternals,
        bytes ∈ deployments.flatMap (·.binaries x.toExternals) := fun bytes hbytes ↦
      List.mem_flatMap.mpr ⟨d, hd, hbytes⟩
    obtain ⟨hsame, hrest⟩ :=
      deploy_keeps hdigest hheads htoml (hstorable d hd) hknown hfiles hstep hm
    rw [hroles] at hsame hrest
    exact ⟨hsame, hrest⟩
  obtain ⟨hroles, -, manifest, hstep⟩ :=
    run_invariant hkeep hstart (stepsMeet_of_forall (fun _ hd ↦ hd) node) hrun
  rw [hroles]
  exact ⟨rfl, restore_of_inStep hdigest hstep⟩

/-! ### A manifest, a push and a restart -/

/-- The limits as a test. -/
def storable (spec : ComponentSpec) : Bool :=
  spec.memoryMaxMb.all (· < 2 ^ 63) && spec.fuel.all (· < 2 ^ 63) &&
    spec.epochMs.all (· < 2 ^ 63) && spec.replicas.all (· < 2 ^ 32) &&
    spec.ports.all (·.all (·.port < 2 ^ 16))

/-- The fields of a component and its name. -/
def entryMembers (entry : String × ComponentSpec) : List (String × Json) :=
  [("name", .str entry.1),
    ("source", .str entry.2.source),
    ("sha256_hex", .str entry.2.sha256Hex),
    ("memory_max_mb", Json.nullable .num entry.2.memoryMaxMb),
    ("fuel", Json.nullable .num entry.2.fuel),
    ("epoch_ms", Json.nullable .num entry.2.epochMs),
    ("replicas", Json.nullable .num entry.2.replicas),
    ("mounts", Json.nullable (Json.list MountSpec.toJson) entry.2.mounts),
    ("ports", Json.nullable (Json.list ServicePort.toJson) entry.2.ports),
    ("visibility", Json.nullable Visibility.toJson entry.2.visibility),
    ("target_peer_ids", Json.list .str entry.2.targetPeerIds),
    ("target_tags", Json.list .str entry.2.targetTags),
    ("start", .bool entry.2.start)]

/-- A component and its name. -/
def entryOfJson : Json → Option (String × ComponentSpec)
  | .obj members => do
    let name ← Json.required Json.asText members "name"
    let source ← Json.required Json.asText members "source"
    let sha256Hex ← Json.required Json.asText members "sha256_hex"
    let memoryMaxMb ← Json.optional (Json.asUnsigned 63) members "memory_max_mb"
    let fuel ← Json.optional (Json.asUnsigned 63) members "fuel"
    let epochMs ← Json.optional (Json.asUnsigned 63) members "epoch_ms"
    let replicas ← Json.optional (Json.asUnsigned 32) members "replicas"
    let mounts ← Json.optional (Json.asList MountSpec.ofJson) members "mounts"
    let ports ← Json.optional (Json.asList ServicePort.ofJson) members "ports"
    let visibility ← Json.optional Visibility.ofJson members "visibility"
    let targetPeerIds ← Json.required (Json.asList Json.asText) members "target_peer_ids"
    let targetTags ← Json.required (Json.asList Json.asText) members "target_tags"
    let start ← Json.required Json.asBool members "start"
    return (name, {
      source, sha256Hex, memoryMaxMb, fuel, epochMs, replicas, mounts, ports, visibility,
      targetPeerIds, targetTags, start })
  | _ => none

/-- A text for the manifests that no run here writes. -/
def otherText (manifest : Manifest) : String :=
  String.ofList (Json.print (.obj [("components",
    Json.list (fun entry ↦ .obj (entryMembers entry)) manifest.components.toList)]))

/-- The manifest of such a text. -/
def ofOtherText (text : String) : Option Manifest :=
  match Json.parse text.toList with
  | some (.obj [("components", components)]) =>
    (Json.asList entryOfJson components).map fun entries ↦
      ⟨entries.foldl (Table.put fun _ spec ↦ some spec) ∅⟩
  | _ => none

/-- What `toml` writes once the push has changed the manifest. -/
def pushedToml : String :=
  "[components.web]\nsource = \"cached:" ++ pushedUnsigned.binarySha256Hex ++
    "\"\nsha256_hex = \"" ++ pushedUnsigned.binarySha256Hex ++
    "\"\nmemory_max_mb = 64\nepoch_ms = 100\nreplicas = 1\nvisibility = \"Public\"\n" ++
    "target_peer_ids = []\ntarget_tags = [\"edge\"]\nstart = true\n\n" ++
    "[[components.web.ports]]\nport = 8080\nprotocol = \"Tcp\"\n"

/-- The manifest that it stands for. -/
def pushedManifest : Manifest :=
  ⟨(∅ : Std.ExtTreeMap String ComponentSpec).insert "web" (pushSpec pushedUnsigned)⟩

/-- What the owner signs for the push. -/
def pushedJson : String :=
  "\x7b\"alg\":\"ed25519\",\"owner_pub_bs58\":\"" ++ pushedUnsigned.ownerPubBs58 ++
    "\",\"component_name\":\"web\",\"target_peer_ids\":[],\"target_tags\":[\"edge\"]," ++
    "\"memory_max_mb\":64,\"fuel\":null,\"epoch_ms\":100,\"replicas\":1,\"start\":true," ++
    "\"binary_sha256_hex\":\"" ++ pushedUnsigned.binarySha256Hex ++ "\",\"mounts\":null," ++
    "\"ports\":[\x7b\"name\":null,\"port\":8080,\"protocol\":\"Tcp\"\x7d]," ++
    "\"visibility\":\"Public\"\x7d"

/-- The libraries on the inputs of the manifest and the push. -/
def restoreEnv : Env :=
  { sampleEnv with
    base64Decode := fun text ↦
      if text = pushedPackage.signatureB64 then .ok pushSigA
      else if text = pushedPackage.binaryB64 then .ok emptyWasm
      else sampleLibrary.base64Decode text
    ed25519Verify := fun key data sig ↦
      (key, data, sig) == (keyA, asBytes pushedJson, pushSigA) ||
        sampleLibrary.ed25519Verify key data sig
    pushJson := fun _ ↦ asBytes pushedJson
    tomlParse := fun text ↦
      if text = manifestText "web" then .ok (manifestOf "web")
      else if text = pushedToml then .ok pushedManifest
      else match ofOtherText text with
        | some manifest =>
          if manifest.components.toList.all (storable ·.2) then .ok manifest
          else .error "invalid value"
        | none => .error "expected an equals"
    tomlWrite := fun manifest ↦
      if manifest.components.toList = pushedManifest.components.toList then some pushedToml
      else if manifest.components.toList.all (storable ·.2) then some (otherText manifest)
      else none }

/-- The first manifest of the owner, and then a push of the same component. -/
def manifestThenPush : List Deployment :=
  [⟨.apply (firstManifest 1), List.replicate 5 { fetched := .ok emptyWasm }⟩,
    ⟨.push pushedPackage, List.replicate 4 {}⟩]

private theorem storable_iff (spec : ComponentSpec) : storable spec = true ↔ Storable spec := by
  have hlimit (o : Option Nat) (bound : Nat) :
      o.all (· < bound) = true ↔ ∀ n ∈ o, n < bound := by
    cases o <;> simp
  have hports (o : Option (List ServicePort)) :
      o.all (·.all (·.port < 2 ^ 16)) = true ↔ ∀ ports ∈ o, ∀ port ∈ ports, port.port < 2 ^ 16 := by
    cases o <;> simp
  simp only [storable, Bool.and_eq_true, hlimit, hports]
  constructor
  · rintro ⟨⟨⟨⟨hmemory, hfuel⟩, hepoch⟩, hreplicas⟩, hports⟩
    exact ⟨hmemory, hfuel, hepoch, hreplicas, hports⟩
  · intro h
    exact ⟨⟨⟨⟨h.memoryMaxMb, h.fuel⟩, h.epochMs⟩, h.replicas⟩, h.ports⟩

private theorem storableManifest_iff (manifest : Manifest) :
    manifest.components.toList.all (storable ·.2) = true ↔ StorableManifest manifest := by
  rw [List.all_eq_true]
  constructor
  · intro h name spec hname
    exact (storable_iff spec).mp
      (h (name, spec) (Std.ExtTreeMap.mem_toList_iff_getElem?_eq_some.mpr hname))
  · rintro h ⟨name, spec⟩ hentry
    exact (storable_iff spec).mpr
      (h name spec (Std.ExtTreeMap.mem_toList_iff_getElem?_eq_some.mp hentry))

private theorem entryOfJson_entryMembers {entry : String × ComponentSpec}
    (h : Storable entry.2) : entryOfJson (.obj (entryMembers entry)) = some entry := by
  have hkeys : ((entryMembers entry).map Prod.fst).Nodup :=
    (by decide : ["name", "source", "sha256_hex", "memory_max_mb", "fuel", "epoch_ms", "replicas",
      "mounts", "ports", "visibility", "target_peer_ids", "target_tags", "start"].Nodup)
  have htext (key text : String) (hmem : (key, Json.str text) ∈ entryMembers entry) :
      Json.required Json.asText (entryMembers entry) key = some text :=
    Json.required_eq_some _ hkeys hmem rfl
  have hlist (key : String) (texts : List String)
      (hmem : (key, Json.list .str texts) ∈ entryMembers entry) :
      Json.required (Json.asList Json.asText) (entryMembers entry) key = some texts :=
    Json.required_eq_some _ hkeys hmem (Json.asList_texts texts)
  have hlimit (width : Nat) (key : String) (limit : Option Nat)
      (hmem : (key, Json.nullable .num limit) ∈ entryMembers entry)
      (hle : ∀ n ∈ limit, n < 2 ^ width) :
      Json.optional (Json.asUnsigned width) (entryMembers entry) key = some limit :=
    Json.optional_eq_some .num hkeys hmem (by simp) fun n hn ↦ Json.asUnsigned_num (hle n hn)
  have hmounts : Json.optional (Json.asList MountSpec.ofJson) (entryMembers entry) "mounts" =
      some entry.2.mounts :=
    Json.optional_eq_some (Json.list MountSpec.toJson) hkeys (by simp [entryMembers])
      (by simp [Json.list]) fun mounts _ ↦ Json.asList_list fun mount _ ↦ mount.ofJson_toJson
  have hports : Json.optional (Json.asList ServicePort.ofJson) (entryMembers entry) "ports" =
      some entry.2.ports :=
    Json.optional_eq_some (Json.list ServicePort.toJson) hkeys (by simp [entryMembers])
      (by simp [Json.list]) fun ports hin ↦ Json.asList_list fun port hport ↦
        ServicePort.ofJson_toJson (h.ports ports hin port hport)
  have hvisibility : Json.optional Visibility.ofJson (entryMembers entry) "visibility" =
      some entry.2.visibility :=
    Json.optional_eq_some Visibility.toJson hkeys (by simp [entryMembers])
      Visibility.toJson_ne_null fun visibility _ ↦ visibility.ofJson_toJson
  have hstart : Json.required Json.asBool (entryMembers entry) "start" = some entry.2.start :=
    Json.required_eq_some (.bool entry.2.start) hkeys (by simp [entryMembers]) rfl
  rw [entryOfJson, htext "name" entry.1 (by simp [entryMembers]),
    htext "source" entry.2.source (by simp [entryMembers]),
    htext "sha256_hex" entry.2.sha256Hex (by simp [entryMembers]),
    hlimit 63 "memory_max_mb" entry.2.memoryMaxMb (by simp [entryMembers]) h.memoryMaxMb,
    hlimit 63 "fuel" entry.2.fuel (by simp [entryMembers]) h.fuel,
    hlimit 63 "epoch_ms" entry.2.epochMs (by simp [entryMembers]) h.epochMs,
    hlimit 32 "replicas" entry.2.replicas (by simp [entryMembers]) h.replicas, hmounts, hports,
    hvisibility, hlist "target_peer_ids" entry.2.targetPeerIds (by simp [entryMembers]),
    hlist "target_tags" entry.2.targetTags (by simp [entryMembers]), hstart]
  rfl

private theorem ofOtherText_otherText {manifest : Manifest} (h : StorableManifest manifest) :
    ofOtherText (otherText manifest) = some manifest := by
  have hentries : Json.asList entryOfJson (Json.list (fun entry ↦ .obj (entryMembers entry))
      manifest.components.toList) = some manifest.components.toList :=
    Json.asList_list fun entry hentry ↦ entryOfJson_entryMembers
      (h entry.1 entry.2 (Std.ExtTreeMap.mem_toList_iff_getElem?_eq_some.mp hentry))
  have hcollect : manifest.components.toList.foldl (Table.put fun _ spec ↦ some spec) ∅ =
      manifest.components := by
    apply Std.ExtTreeMap.ext_getElem?
    intro name
    have hname := Table.getElem?_collect (g := fun _ spec ↦ some spec) manifest.components
      (fun _ ↦ true) name
    rw [List.filter_true] at hname
    rw [hname]
    cases manifest.components[name]? <;> rfl
  simp only [ofOtherText, otherText, String.toList_ofList, Json.parse_print, hentries,
    Option.map_some, hcollect]

private theorem otherText_ne {manifest : Manifest} {text : String}
    (h : text.toList.head? ≠ some '\x7b') : otherText manifest ≠ text := by
  rintro rfl
  exact h (by simp [otherText, Json.print])

private theorem tomlFaithful_restoreEnv : TomlFaithful restoreEnv.toExternals where
  reads text manifest h := by
    simp only [restoreEnv] at h
    split at h
    · cases h
      exact (storableManifest_iff _).mp (by decide)
    · split at h
      · cases h
        exact (storableManifest_iff _).mp (by decide)
      · split at h
        · split at h
          · next hall =>
            cases h
            exact (storableManifest_iff _).mp hall
          · cases h
        · cases h
  writes manifest h := by
    simp only [restoreEnv, (storableManifest_iff manifest).mpr h, if_true]
    split
    · exact ⟨_, rfl⟩
    · exact ⟨_, rfl⟩
  readsBack manifest text h := by
    simp only [restoreEnv] at h ⊢
    split at h
    · next hsame =>
      cases h
      have heq : manifest = pushedManifest :=
        congrArg Manifest.mk (Std.ExtTreeMap.toList_inj.mp hsame)
      rw [if_neg (by decide), if_pos rfl, heq]
    · split at h
      · next hall =>
        cases h
        have hstorable := (storableManifest_iff manifest).mp hall
        rw [if_neg (otherText_ne (by decide +kernel)), if_neg (otherText_ne (by decide +kernel))]
        simp only [ofOtherText_otherText hstorable, hall, if_true]
      · cases h

private theorem isDigest_restoreEnv (bytes : Bytes) : IsDigest (restoreEnv.sha256Hex bytes) := by
  simp only [restoreEnv, sampleEnv, sampleLibrary]
  split
  · decide
  · decide

/-- The node runs what the push changed the manifest to, and so does the restarted one. -/
theorem restart_recovers_pushed :
    ∃ after, run (Node.deploy restoreEnv) { roles := ["edge"] } manifestThenPush = some after ∧
      after.site.desired.toList =
        [("web", ⟨"web", "/root/.local/share/realm-agent/artifacts/web-93a44bbb96c75121.wasm",
          pushSpec pushedUnsigned⟩)] ∧
      (after.site.restart.restoreFromDisk restoreEnv (some restoreEnv.localPeerId)
        (some after.roles)).map Site.desired = some after.site.desired := by
  have hrun : (run (Node.deploy restoreEnv) { roles := ["edge"] } manifestThenPush).map
      (·.site.desired.toList) =
        some [("web", ⟨"web", "/root/.local/share/realm-agent/artifacts/web-93a44bbb96c75121.wasm",
          pushSpec pushedUnsigned⟩)] := by decide +kernel
  obtain ⟨after, hafter, hdesired⟩ := Option.map_eq_some_iff.mp hrun
  have hheads : DistinctHeads restoreEnv.toExternals
      (manifestThenPush.flatMap (·.binaries restoreEnv.toExternals)) := by
    have hall : (manifestThenPush.flatMap (·.binaries restoreEnv.toExternals)).all
        (· == emptyWasm) = true := by decide +kernel
    intro a ha b hb _
    rw [beq_iff_eq.mp (List.all_eq_true.mp hall a ha),
      beq_iff_eq.mp (List.all_eq_true.mp hall b hb)]
  have hstorable : ∀ d ∈ manifestThenPush, d.message.Storable := by
    intro d hd
    simp only [manifestThenPush, List.mem_cons, List.not_mem_nil, or_false] at hd
    rcases hd with rfl | rfl
    · trivial
    · exact (storable_iff _).mp (by decide)
  exact ⟨after, hafter, hdesired, (restart_recovers isDigest_restoreEnv tomlFaithful_restoreEnv
    hheads hstorable ⟨rfl, rfl, rfl⟩ hafter).2⟩

end PeerDeploy.Deploy
