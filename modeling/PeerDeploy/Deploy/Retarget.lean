import PeerDeploy.Base.Transition
import PeerDeploy.Deploy.Restore

/-!
# Restoring under another target

An accepted manifest is persisted whole, but only the components for the node's peer id and
roles at that time have been fetched and checked (`crates/agent/src/p2p/handlers/apply.rs:70–102`).
`restore_from_disk` (`crates/agent/src/supervisor.rs:44–119`) filters the same text again, with
the roles of a later start or, in the web and command line processes, with no filter at all.
-/

namespace PeerDeploy.Deploy

open PeerDeploy.Common PeerDeploy.Base PeerDeploy.Storage

/-- The handler runs to its next suspension, on the site that it finds then. -/
def applyAmong (x : Env) (signed : SignedManifest) (agentRoles : List String) (pc : ApplyPc)
    (visit : Site × StepInput) : Option ApplyPc :=
  (ApplyTask.advance x visit.1 ⟨signed, agentRoles, pc⟩ visit.2).map fun ((_, pc), _) ↦ pc

/-- Every component has its artifact in the cache. -/
def Cached (x : Env) (s : Site) (desired : Std.ExtTreeMap String DesiredComponent) : Prop :=
  ∀ (name : String) (component : DesiredComponent), desired[name]? = some component →
    ∃ bytes : Bytes, s.artifacts[Path.canonical component.path]? = some bytes ∧
      x.sha256Hex bytes = component.spec.sha256Hex

/-- A new supervisor restores its map from the files, and what it restores is cached. -/
def Restores (x : Env) (s : Site) (localPeerId : Option String)
    (agentRoles : Option (List String)) : Prop :=
  ∃ restored, s.restart.restoreFromDisk x localPeerId agentRoles = some restored ∧
    Cached x s restored.desired

/-- Each component to start that was for others when the manifest was accepted, under the given
roles, and is for the given node now has a digest text with a character boundary at byte 16. -/
def OthersSliced (x : Env) (acceptRoles : List String) (manifest : Manifest)
    (localPeerId : Option String) (agentRoles : Option (List String)) : Prop :=
  ∀ (name : String) (spec : ComponentSpec), manifest.components[name]? = some spec →
    spec.matchesTarget (some x.localPeerId) (some acceptRoles) = false →
      spec.matchesTarget localPeerId agentRoles = true → spec.start = true →
        Text.IsCharBoundary spec.sha256Hex 16

/-! ### What acceptance has checked -/

/-- The source of a component can answer with bytes that have its digest. -/
def Obtainable (x : Env) (spec : ComponentSpec) : Prop :=
  ∃ bytes : Bytes, fetchBytes spec.source (.ok bytes) = .ok bytes ∧
    x.sha256Hex bytes = spec.sha256Hex

-- Of the components for the node, all but those still to stage have been checked.
private def CheckedBut (x : Env) (signed : SignedManifest) (agentRoles : List String)
    (rest : List (String × ComponentSpec)) : Prop :=
  ∃ manifest, x.tomlParse signed.manifestToml = .ok manifest ∧
    ∀ (name : String) (spec : ComponentSpec), manifest.components[name]? = some spec →
      spec.matchesTarget (some x.localPeerId) (some agentRoles) = true →
        (name, spec) ∈ rest ∨ Obtainable x spec

-- What holds of the handler between its steps.
private def CheckPhase (x : Env) (signed : SignedManifest) (agentRoles : List String) :
    ApplyPc → Prop
  | .check | .rejected => True
  | .stage _ rest _ => CheckedBut x signed agentRoles rest
  | .persist _ _ | .install _ _ | .commit | .accepted => CheckedBut x signed agentRoles []

private theorem fetchBytes_of_ok {url : String} {answer : Except String Bytes} {bytes : Bytes}
    (h : fetchBytes url answer = .ok bytes) : fetchBytes url (.ok bytes) = .ok bytes := by
  unfold fetchBytes at h ⊢
  split at h
  · next hsource => rw [if_pos hsource]
  · cases h

private theorem checkPhase_parsed {x : Env} {signed : SignedManifest} {agentRoles : List String}
    (s : Site) (pc : ApplyPc) :
    CheckPhase x signed agentRoles (applyParsed x s ⟨signed, agentRoles, pc⟩).2 := by
  unfold applyParsed
  cases hparse : x.tomlParse signed.manifestToml with
  | error e => trivial
  | ok manifest =>
    have hall : CheckedBut x signed agentRoles (manifest.components.toList.filter fun entry ↦
        entry.2.matchesTarget (some x.localPeerId) (some agentRoles)) := by
      refine ⟨manifest, hparse, ?_⟩
      intro name spec hspec hmatches
      exact .inl (List.mem_filter.mpr
        ⟨Std.ExtTreeMap.mem_toList_iff_getElem?_eq_some.mpr hspec, hmatches⟩)
    simp only
    split
    · next hempty =>
      rw [List.isEmpty_iff.mp hempty] at hall
      exact hall
    · exact hall

private theorem checkPhase_check {x : Env} {signed : SignedManifest} {agentRoles : List String}
    (s : Site) (pc : ApplyPc) :
    CheckPhase x signed agentRoles (applyCheck x s ⟨signed, agentRoles, pc⟩).2 := by
  unfold applyCheck
  split
  · trivial
  · split
    · trivial
    · split
      · trivial
      · split
        · trivial
        · exact checkPhase_parsed _ pc

private theorem checkPhase_stage {x : Env} {signed : SignedManifest} {agentRoles : List String}
    {name : String} {comp : ComponentSpec} {rest : List (String × ComponentSpec)}
    (h : CheckedBut x signed agentRoles ((name, comp) :: rest)) (s : Site) (input : StepInput)
    (applicable : List (String × ComponentSpec)) (staged : List (String × String)) :
    CheckPhase x signed agentRoles (applyStage x s input applicable name comp rest staged).2 := by
  unfold applyStage
  split
  · trivial
  · next bytes hbytes =>
    simp only
    split
    · trivial
    · next hdigest =>
      have hobtained : Obtainable x comp :=
        ⟨bytes, fetchBytes_of_ok hbytes, not_not.mp hdigest⟩
      have hrest : CheckedBut x signed agentRoles rest := by
        obtain ⟨manifest, hparse, h⟩ := h
        refine ⟨manifest, hparse, ?_⟩
        intro other spec hspec hmatches
        rcases h other spec hspec hmatches with hin | hdone
        · rcases List.mem_cons.mp hin with heq | hin
          · cases heq
            exact .inr hobtained
          · exact .inl hin
        · exact .inr hdone
      split
      · trivial
      · split
        · next hempty =>
          rw [List.isEmpty_iff.mp hempty] at hrest
          exact hrest
        · exact hrest

private theorem checkPhase_step {x : Env} {signed : SignedManifest} {agentRoles : List String}
    {pc next : ApplyPc} {visit : Site × StepInput} (h : CheckPhase x signed agentRoles pc)
    (hstep : applyAmong x signed agentRoles pc visit = some next) :
    CheckPhase x signed agentRoles next := by
  obtain ⟨⟨⟨site, after⟩, accepted⟩, hadvance, rfl⟩ := Option.map_eq_some_iff.mp hstep
  cases pc with
  | check =>
    have hafter : (applyCheck x visit.1 ⟨signed, agentRoles, .check⟩).2 = after :=
      congrArg (·.1.2) (Option.some.inj hadvance)
    rw [← hafter]
    exact checkPhase_check visit.1 .check
  | stage applicable rest staged =>
    cases rest with
    | nil => cases hadvance
    | cons entry rest =>
      have hafter : (applyStage x visit.1 visit.2 applicable entry.1 entry.2 rest staged).2 =
          after := congrArg (·.1.2) (Option.some.inj hadvance)
      rw [← hafter]
      exact checkPhase_stage h visit.1 visit.2 applicable staged
  | persist applicable staged =>
    cases hadvance
    exact h
  | install applicable staged =>
    cases hadvance
    exact h
  | commit =>
    cases hadvance
    exact h
  | accepted => cases hadvance
  | rejected => cases hadvance

/-- An accepted manifest parses, and its components for this node can be obtained. -/
theorem obtainable_of_accepted {x : Env} {signed : SignedManifest} {agentRoles : List String}
    {visits : List (Site × StepInput)}
    (hrun : run (applyAmong x signed agentRoles) .check visits = some .accepted) :
    ∃ manifest, x.tomlParse signed.manifestToml = .ok manifest ∧
      ∀ (name : String) (spec : ComponentSpec), manifest.components[name]? = some spec →
        spec.matchesTarget (some x.localPeerId) (some agentRoles) = true → Obtainable x spec := by
  have hphase : CheckPhase x signed agentRoles .accepted := by
    have hstart : CheckPhase x signed agentRoles .check := trivial
    exact run_invariant_all (fun _ _ _ ha hb ↦ checkPhase_step ha hb) hstart hrun
  obtain ⟨manifest, hparse, hchecked⟩ := hphase
  refine ⟨manifest, hparse, ?_⟩
  intro name spec hspec hmatches
  rcases hchecked name spec hspec hmatches with hin | hobtained
  · cases hin
  · exact hobtained

private theorem sliced_of_accepted {x : Env} (hdigest : ∀ bytes, IsDigest (x.sha256Hex bytes))
    {signed : SignedManifest} {agentRoles : List String} {visits : List (Site × StepInput)}
    (hrun : run (applyAmong x signed agentRoles) .check visits = some .accepted)
    {manifest : Manifest} (hparse : x.tomlParse signed.manifestToml = .ok manifest) {name : String}
    {spec : ComponentSpec} (hspec : manifest.components[name]? = some spec)
    (hmatches : spec.matchesTarget (some x.localPeerId) (some agentRoles) = true) :
    Text.IsCharBoundary spec.sha256Hex 16 := by
  obtain ⟨found, hfound, hobtainable⟩ := obtainable_of_accepted hrun
  rw [hparse] at hfound
  cases hfound
  obtain ⟨bytes, -, hbytes⟩ := hobtainable name spec hspec hmatches
  obtain ⟨hlen, hplain⟩ := plain_of_isDigest (hdigest bytes)
  have hslice := Text.slice_eq_some (fun c hc ↦ (hplain c hc).1) (Nat.zero_le 16) (by omega)
  have hsome : (Text.slice (x.sha256Hex bytes) 0 16).isSome = true := by
    rw [hslice]
    rfl
  rw [← hbytes]
  exact ((Text.slice_isSome_iff _ (Nat.zero_le 16)).mp hsome).2

/-! ### What a restore needs -/

private theorem restoreComponent_isSome_iff (x : Env) (s : Site) (localPeerId : Option String)
    (agentRoles : Option (List String)) (desired : Std.ExtTreeMap String DesiredComponent)
    (name : String) (spec : ComponentSpec) :
    (restoreComponent x s localPeerId agentRoles desired (name, spec)).isSome = true ↔
      (spec.matchesTarget localPeerId agentRoles = true → spec.start = true →
        Text.IsCharBoundary spec.sha256Hex 16) := by
  have hzero : Text.IsCharBoundary spec.sha256Hex 0 := String.Pos.Raw.isValid_zero
  have hslice : (Text.slice spec.sha256Hex 0 16).isSome = true ↔
      Text.IsCharBoundary spec.sha256Hex 16 := by
    rw [Text.slice_isSome_iff _ (Nat.zero_le 16)]
    exact and_iff_right hzero
  unfold restoreComponent
  simp only
  split
  · next hother => simp_all
  · split
    · next hstop => simp_all
    · next hmatches hstart =>
      have hmeets : spec.matchesTarget localPeerId agentRoles = true := by simpa using hmatches
      have hstarts : spec.start = true := by simpa using hstart
      rw [← hslice]
      cases Text.slice spec.sha256Hex 0 16 with
      | none => simp [hmeets, hstarts]
      | some head =>
        simp only [Option.bind_eq_bind, Option.bind_some, Option.isSome_some, implies_true, iff_true]
        split
        · rfl
        · split
          · rfl
          · rfl

private theorem cached_restoreComponent {x : Env} {s : Site} {localPeerId : Option String}
    {agentRoles : Option (List String)} {desired next : Std.ExtTreeMap String DesiredComponent}
    {entry : String × ComponentSpec} (h : Cached x s desired)
    (hstep : restoreComponent x s localPeerId agentRoles desired entry = some next) :
    Cached x s next := by
  unfold restoreComponent at hstep
  simp only at hstep
  split at hstep
  · cases hstep
    exact h
  · split at hstep
    · cases hstep
      exact h
    · obtain ⟨head, -, hrest⟩ := Option.bind_eq_some_iff.mp hstep
      split at hrest
      · cases hrest
        exact h
      · next bytes hfile =>
        split at hrest
        · next hdigest =>
          cases hrest
          intro name component hcomponent
          rw [Table.getElem?_insert] at hcomponent
          split at hcomponent
          · cases hcomponent
            exact ⟨bytes, hfile, hdigest⟩
          · exact h name component hcomponent
        · cases hrest
          exact h

private theorem foldlM_isSome_iff {α β : Type} {f : β → α → Option β} {ok : α → Prop}
    (h : ∀ b a, (f b a).isSome = true ↔ ok a) (entries : List α) (b : β) :
    (entries.foldlM f b).isSome = true ↔ ∀ a ∈ entries, ok a := by
  induction entries generalizing b with
  | nil => simp
  | cons a rest ih =>
    rw [List.foldlM_cons, List.forall_mem_cons, ← h b a]
    cases f b a with
    | none => simp
    | some next => simpa using ih next

private theorem foldlM_invariant {α β : Type} {f : β → α → Option β} {inv : β → Prop}
    (h : ∀ b a next, inv b → f b a = some next → inv next) {entries : List α} {b result : β}
    (hb : inv b) (hfold : entries.foldlM f b = some result) : inv result := by
  induction entries generalizing b with
  | nil =>
    cases hfold
    exact hb
  | cons a rest ih =>
    obtain ⟨next, hstep, hrest⟩ := Option.bind_eq_some_iff.mp hfold
    exact ih (h b a next hb hstep) hrest

/-- A restore returns exactly when the digests of all components that it meets can be sliced;
what it restores is cached. -/
theorem restores_iff_sliced {x : Env} {s : Site} {text : String} {manifest : Manifest}
    (hpersisted : s.desiredManifest = some text) (hparse : x.tomlParse text = .ok manifest)
    (localPeerId : Option String) (agentRoles : Option (List String)) :
    Restores x s localPeerId agentRoles ↔
      ∀ (name : String) (spec : ComponentSpec), manifest.components[name]? = some spec →
        spec.matchesTarget localPeerId agentRoles = true → spec.start = true →
          Text.IsCharBoundary spec.sha256Hex 16 := by
  have hmanifest : s.restart.desiredManifest = some text := hpersisted
  have hsome := foldlM_isSome_iff (fun b (a : String × ComponentSpec) ↦
    restoreComponent_isSome_iff x s.restart localPeerId agentRoles b a.1 a.2)
    manifest.components.toList ∅
  have hmem : (∀ a ∈ manifest.components.toList,
      a.2.matchesTarget localPeerId agentRoles = true → a.2.start = true →
        Text.IsCharBoundary a.2.sha256Hex 16) ↔
      ∀ (name : String) (spec : ComponentSpec), manifest.components[name]? = some spec →
        spec.matchesTarget localPeerId agentRoles = true → spec.start = true →
          Text.IsCharBoundary spec.sha256Hex 16 := by
    simp only [Prod.forall, Std.ExtTreeMap.mem_toList_iff_getElem?_eq_some]
  rw [← hmem, ← hsome, Restores, Site.restoreFromDisk, hmanifest]
  simp only [hparse]
  cases hfold : manifest.components.toList.foldlM
      (restoreComponent x s.restart localPeerId agentRoles) ∅ with
  | none => simp
  | some desired =>
    have hcached : Cached x s desired := by
      apply foldlM_invariant (fun _ _ _ hb hstep ↦ cached_restoreComponent hb hstep) _ hfold
      intro name component hcomponent
      simp at hcomponent
    have hempty : Cached x s s.restart.desired := by
      intro name component hcomponent
      simp [Site.restart] at hcomponent
    simp only [Option.bind_eq_bind, Option.bind_some, Option.isSome_some, iff_true]
    split
    · exact ⟨_, rfl, hempty⟩
    · exact ⟨_, rfl, hcached⟩

/-- The text of an accepted manifest is restored, for any peer id and roles or none, exactly
when the digests of the components that acceptance passed over can be sliced. -/
theorem restores_accepted_iff {x : Env} (hdigest : ∀ bytes, IsDigest (x.sha256Hex bytes))
    {signed : SignedManifest} {acceptRoles : List String} {visits : List (Site × StepInput)}
    (hrun : run (applyAmong x signed acceptRoles) .check visits = some .accepted) {s : Site}
    (hpersisted : s.desiredManifest = some signed.manifestToml) {manifest : Manifest}
    (hparse : x.tomlParse signed.manifestToml = .ok manifest) (localPeerId : Option String)
    (agentRoles : Option (List String)) :
    Restores x s localPeerId agentRoles ↔
      OthersSliced x acceptRoles manifest localPeerId agentRoles := by
  rw [restores_iff_sliced hpersisted hparse]
  constructor
  · intro h name spec hspec _ hmatches hstart
    exact h name spec hspec hmatches hstart
  · intro h name spec hspec hmatches hstart
    by_cases hchecked : spec.matchesTarget (some x.localPeerId) (some acceptRoles) = true
    · exact sliced_of_accepted hdigest hrun hparse hspec hchecked
    · exact h name spec hspec (by simpa using hchecked) hmatches hstart

/-- With the peer id and the roles of the acceptance a restore returns. -/
theorem restores_accepted_same {x : Env} (hdigest : ∀ bytes, IsDigest (x.sha256Hex bytes))
    {signed : SignedManifest} {acceptRoles : List String} {visits : List (Site × StepInput)}
    (hrun : run (applyAmong x signed acceptRoles) .check visits = some .accepted) {s : Site}
    (hpersisted : s.desiredManifest = some signed.manifestToml) {manifest : Manifest}
    (hparse : x.tomlParse signed.manifestToml = .ok manifest) :
    Restores x s (some x.localPeerId) (some acceptRoles) := by
  rw [restores_iff_sliced hpersisted hparse]
  intro name spec hspec hmatches _
  exact sliced_of_accepted hdigest hrun hparse hspec hmatches

/-- The text of the first manifest with a component for another node, whose digest is to be
filled in. -/
def edgeText : String :=
  manifestText "web" ++ "[components.edge]\nsource = \"file:/srv/edge.wasm\"\n" ++
    "sha256_hex = \"todo\"\ntarget_peer_ids = [\"12D3KooWOther\"]\n"

/-- The manifest that the text parses to. -/
def edgeManifest : Manifest :=
  ⟨(manifestOf "web").components.insert "edge"
    { source := "file:/srv/edge.wasm", sha256Hex := "todo", targetPeerIds := ["12D3KooWOther"] }⟩

/-- The signature of the first owner on it. -/
def edgeSigA : Bytes :=
  [152, 59, 225, 13, 228, 144, 223, 69, 240, 183, 96, 4, 53, 22, 38, 126, 102, 217, 244, 49,
    26, 234, 20, 199, 73, 133, 46, 113, 65, 241, 155, 74, 218, 203, 172, 225, 174, 20, 63, 43,
    48, 126, 181, 187, 116, 191, 208, 173, 0, 118, 249, 125, 250, 17, 66, 208, 7, 150, 167, 41,
    218, 60, 133, 15]

/-- The message that carries it. -/
def edgeSigned : SignedManifest where
  alg := "ed25519"
  ownerPubBs58 := "ed25519:AKnL4NNf3DGWZJS6cPknBuEGnVsV4A4m5tgebLHaRSZ9"
  version := 1
  manifestToml := edgeText
  signatureB64 :=
    "mDvhDeSQ30Xwt2AENRYmfmbZ9DEa6hTHSYUucUHxm0ray6zhrhQ/KzB+tbt0v9CtAHb5ffoRQtAHlqcp2jyFDw=="

/-- The libraries on these inputs. -/
def edgeEnv : Env :=
  { sampleEnv with
    base64Decode := fun text ↦
      if text = edgeSigned.signatureB64 then .ok edgeSigA else sampleLibrary.base64Decode text
    ed25519Verify := fun key data sig ↦
      (key, data, sig) == (keyA, asBytes edgeText, edgeSigA) ||
        sampleLibrary.ed25519Verify key data sig
    tomlParse := fun text ↦
      if text = edgeText then .ok edgeManifest else sampleLibrary.tomlParse text }

/-- The site of a node that has accepted the text. -/
def edgeSite : Site :=
  { desiredManifest := some edgeText
    artifacts := (∅ : Std.ExtTreeMap String Bytes).insert
      "/root/.local/share/realm-agent/artifacts/web-93a44bbb96c75121.wasm" emptyWasm }

/-- What the handler meets: a node without deployments, and a fetch that answers. -/
def edgeVisits : List (Site × StepInput) := List.replicate 5 ({}, { fetched := .ok emptyWasm })

private theorem edge_accepted : run (applyAmong edgeEnv edgeSigned []) .check edgeVisits =
    some .accepted := by
  decide +kernel

private theorem isDigest_edgeEnv (bytes : Bytes) : IsDigest (edgeEnv.sha256Hex bytes) := by
  simp only [edgeEnv, sampleEnv, sampleLibrary]
  split
  · decide
  · decide

/-- The node itself restores it. -/
theorem restores_accepted_iff_edge :
    Restores edgeEnv edgeSite (some "12D3KooWNode") (some []) ∧
      (edgeSite.restart.restoreFromDisk edgeEnv (some "12D3KooWNode") (some [])).map
        (·.desired.toList.map Prod.fst) = some ["web"] := by
  have hparse : edgeEnv.tomlParse edgeSigned.manifestToml = .ok edgeManifest := by
    simp only [edgeEnv, edgeSigned, if_true]
  constructor
  · apply (restores_accepted_iff isDigest_edgeEnv edge_accepted rfl hparse _ _).mpr
    intro name spec _ hother hmatches _
    have hnone : spec.matchesTarget (some "12D3KooWNode") (some []) = false := hother
    rw [hnone] at hmatches
    cases hmatches
  · decide +kernel

/-- The web process, which restores without a peer id, panics on it. -/
theorem edge_panics :
    ¬ ∀ (x : Env) (signed : SignedManifest) (acceptRoles : List String)
      (visits : List (Site × StepInput)) (s : Site) (localPeerId : Option String)
      (agentRoles : Option (List String)), (∀ bytes, IsDigest (x.sha256Hex bytes)) →
        run (applyAmong x signed acceptRoles) .check visits = some .accepted →
          s.desiredManifest = some signed.manifestToml →
            Restores x s localPeerId agentRoles := by
  intro h
  obtain ⟨restored, hrestored, -⟩ := h edgeEnv edgeSigned [] edgeVisits edgeSite none none
    isDigest_edgeEnv edge_accepted rfl
  have hnone : (edgeSite.restart.restoreFromDisk edgeEnv none none).isSome = false := by
    decide +kernel
  rw [hrestored] at hnone
  cases hnone

end PeerDeploy.Deploy
