import Mathlib.Data.List.Basic
import PeerDeploy.Base.Base64
import PeerDeploy.Deploy.Owner

/-!
# Which hosts a binary is for

`realm upgrade` (`crates/agent/src/cmd/upgrade.rs:54–290`) sniffs the header of a binary and may
tag the package with the platform that it finds; the agents filter by the tag
(`crates/agent/src/p2p/mod.rs:1036–1045`) and sniff again
(`crates/agent/src/p2p/handlers/util.rs:45–273`). The sniffers are there twice, word for word.
-/

namespace PeerDeploy.Deploy

open PeerDeploy.Common PeerDeploy.Base

/-- `crates/agent/src/cmd/upgrade.rs:112–131`; `none` where an index panics. -/
def detectBinaryPlatform (bin : Bytes) : Option (Option String) := do
  match ← detectBinaryOs bin with
  | some .linux => return (← detectElfArch bin).map (s!"linux/{·}")
  | some .macOs =>
    match ← detectMachoArches bin with
    | some [arch] => return some s!"macos/{arch}"
    | _ => return none
  | some .windows => return (← detectPeArch bin).map (s!"windows/{·}")
  | none => return none

/-- What `realm upgrade` reads besides the binary. -/
structure UpgradeRequest where
  publicBs58 : String
  version : Nat
  targetPlatform : Option String := none
  targetPeers : List String := []
  targetTags : List String := []

/-- The package once the platform is settled; `crates/agent/src/cmd/upgrade.rs:90–101`. -/
def upgradePackage (x : Externals) (base64Encode : Bytes → String) (sign : Bytes → Bytes)
    (request : UpgradeRequest) (bin : Bytes) (platformDetected : Option String) :
    AgentUpgrade where
  alg := "ed25519"
  ownerPubBs58 := request.publicBs58
  version := request.version
  targetPlatform := platformDetected
  targetPeerIds := request.targetPeers
  targetTags := request.targetTags
  binarySha256Hex := x.sha256Hex bin
  binaryB64 := base64Encode bin
  signatureB64 := base64Encode (sign bin)

/-- `crates/agent/src/cmd/upgrade.rs:85–101`. -/
def buildUpgrade (x : Externals) (base64Encode : Bytes → String) (sign : Bytes → Bytes)
    (request : UpgradeRequest) (bin : Bytes) : Option AgentUpgrade :=
  let platformDetected := match request.targetPlatform with
    | some platform => some (some platform)
    | none => detectBinaryPlatform bin
  platformDetected.map (upgradePackage x base64Encode sign request bin)

/-- The agent accepts the header of the binary. -/
def TargetMatches (host : HostPlatform) (bin : Bytes) : Prop :=
  ∃ desc, binaryTargetMatchesHost host bin = some (.ok desc)

/-- The package gets past the agent's prefilter and header check. -/
def PassesPlatform (x : Env) (pkg : AgentUpgrade) : Prop :=
  pkg.targetPlatform.all (hostPlatformString x.host == ·) = true ∧
    TargetMatches x.host (upgradeBinary x.toExternals pkg)

/-- The architectures that agents know. -/
def KnownArch (arch : String) : Prop := arch ∈ ["x86_64", "aarch64", "arm", "x86", "riscv64"]

/-- The slice at an offset is of a known type. -/
def SliceAt (bigEndian : Bool) (bin : Bytes) (off : Nat) (arch : String) : Prop :=
  ∃ cputype, u32At bigEndian bin off = some cputype ∧ machoCputypeToArch cputype = some arch

/-! ### The readers stay inside the bytes -/

/-- A slice within the bytes is taken. -/
theorem bytesSlice_eq {bin : Bytes} {start stop : Nat} (hle : start ≤ stop)
    (hlen : stop ≤ bin.length) :
    bytesSlice bin start stop = some ((bin.drop start).take (stop - start)) :=
  if_pos ⟨hle, hlen⟩

private theorem getElem?_of_lt {bin : Bytes} {i : Nat} (h : i < bin.length) :
    ∃ b, bin[i]? = some b := ⟨bin[i], List.getElem?_eq_getElem h⟩

private theorem u16At_of_le (bigEndian : Bool) {bin : Bytes} {off : Nat}
    (h : off + 2 ≤ bin.length) : ∃ n, u16At bigEndian bin off = some n := by
  obtain ⟨b0, h0⟩ := getElem?_of_lt (show off < bin.length by omega)
  obtain ⟨b1, h1⟩ := getElem?_of_lt (show off + 1 < bin.length by omega)
  unfold u16At
  rw [h0, h1]
  exact ⟨_, rfl⟩

/-- Four bytes within the bytes are read. -/
theorem u32At_of_le (bigEndian : Bool) {bin : Bytes} {off : Nat}
    (h : off + 4 ≤ bin.length) : ∃ n, u32At bigEndian bin off = some n := by
  obtain ⟨b0, h0⟩ := getElem?_of_lt (show off < bin.length by omega)
  obtain ⟨b1, h1⟩ := getElem?_of_lt (show off + 1 < bin.length by omega)
  obtain ⟨b2, h2⟩ := getElem?_of_lt (show off + 2 < bin.length by omega)
  obtain ⟨b3, h3⟩ := getElem?_of_lt (show off + 3 < bin.length by omega)
  unfold u32At
  rw [h0, h1, h2, h3]
  exact ⟨_, rfl⟩

/-- What the first bytes say about the operating system. -/
theorem detectBinaryOs_eq (bin : Bytes) : detectBinaryOs bin = some (
    if bin.length < 4 then none
    else if bin.take 4 = [0x7F, 0x45, 0x4C, 0x46] then some .linux
    else if bin.take 4 = [0x4D, 0x5A, 0x90, 0x00] ∨ bin.take 2 = [0x4D, 0x5A] then some .windows
    else if bin.take 4 ∈ thinMagics ∨ bin.take 4 = [0xCA, 0xFE, 0xBA, 0xBE] ∨
      bin.take 4 = [0xBE, 0xBA, 0xFE, 0xCA] then some .macOs
    else none) := by
  unfold detectBinaryOs
  by_cases hlen : 4 ≤ bin.length
  · rw [if_pos hlen, if_neg (by omega), bytesSlice_eq (Nat.zero_le 4) hlen,
      bytesSlice_eq (Nat.zero_le 2) (by omega)]
    simp only [List.drop_zero, Nat.sub_zero, Option.bind_eq_bind, Option.bind_some]
    split
    · rfl
    · split
      · rfl
      · split
        · rfl
        · rfl
  · rw [if_neg hlen, if_pos (by omega)]

private theorem elfArch_known {em : Nat} {arch : String}
    (h : (match em with
      | 62 => some "x86_64"
      | 183 => some "aarch64"
      | 3 => some "x86"
      | 40 => some "arm"
      | 243 => some "riscv64"
      | _ => none) = some arch) : KnownArch arch := by
  unfold KnownArch
  split at h
  all_goals first
    | cases h
      decide
    | cases h

/-- An ELF file has one architecture at most, and it is known. -/
theorem detectElfArch_total (bin : Bytes) :
    ∃ found, detectElfArch bin = some found ∧ ∀ arch, found = some arch → KnownArch arch := by
  unfold detectElfArch
  split
  · exact ⟨none, rfl, fun _ h ↦ by cases h⟩
  · next hlen =>
    rw [bytesSlice_eq (Nat.zero_le 4) (by omega)]
    obtain ⟨eiData, hdata⟩ := getElem?_of_lt (show 5 < bin.length by omega)
    obtain ⟨em, hem⟩ := u16At_of_le (decide (eiData ≠ 1))
      (show 18 + 2 ≤ bin.length by omega)
    simp only [Option.bind_eq_bind, Option.bind_some, hdata, hem]
    split
    · exact ⟨none, rfl, fun _ h ↦ by cases h⟩
    · exact ⟨_, rfl, fun _ ↦ elfArch_known⟩

private theorem peArch_known {machine : Nat} {arch : String}
    (h : (match machine with
      | 0x8664 => some "x86_64"
      | 0x014c => some "x86"
      | 0xAA64 => some "aarch64"
      | 0x01c0 => some "arm"
      | _ => none) = some arch) : KnownArch arch := by
  unfold KnownArch
  split at h
  all_goals first
    | cases h
      decide
    | cases h

/-- A PE file has one architecture at most, and it is known. -/
theorem detectPeArch_total (bin : Bytes) :
    ∃ found, detectPeArch bin = some found ∧ ∀ arch, found = some arch → KnownArch arch := by
  have hnone : ∃ found : Option String, some (none : Option String) = some found ∧
      ∀ arch, found = some arch → KnownArch arch :=
    ⟨none, rfl, fun _ h ↦ by cases h⟩
  unfold detectPeArch
  split
  · exact hnone
  · next hlen =>
    rw [bytesSlice_eq (Nat.zero_le 2) (by omega)]
    obtain ⟨peOff, hoff⟩ := u32At_of_le false (show 0x3C + 4 ≤ bin.length by omega)
    simp only [Option.bind_eq_bind, Option.bind_some, hoff]
    split
    · exact hnone
    · split
      · exact hnone
      · next hroom =>
        obtain ⟨machine, hmachine⟩ := u16At_of_le false (show peOff + 4 + 2 ≤ bin.length by omega)
        rw [bytesSlice_eq (Nat.le_add_right peOff 4) (by omega)]
        simp only [Option.bind_some, hmachine]
        split
        · exact hnone
        · exact ⟨_, rfl, fun _ ↦ peArch_known⟩

private theorem machoArch_known {cputype : Nat} {arch : String}
    (h : machoCputypeToArch cputype = some arch) : KnownArch arch := by
  unfold machoCputypeToArch at h
  unfold KnownArch
  split at h
  all_goals first
    | cases h
      decide
    | cases h

/-- The loop collects the known architectures of the slices that lie within the bytes. -/
theorem fatArches_total (bigEndian : Bool) {recSize : Nat} (hsize : 4 ≤ recSize) (bin : Bytes)
    (count off : Nat) (arches : List String) :
    ∃ found, fatArches bigEndian recSize bin count off arches = some found ∧
      ∀ arch, arch ∈ found ↔ arch ∈ arches ∨ ∃ i < count,
        off + (i + 1) * recSize ≤ bin.length ∧ SliceAt bigEndian bin (off + i * recSize) arch := by
  induction count generalizing off arches with
  | zero => exact ⟨arches, rfl, fun arch ↦ by simp⟩
  | succ count ih =>
    rw [fatArches_succ]
    by_cases hshort : bin.length < off + recSize
    · refine ⟨arches, if_pos hshort, fun arch ↦ ⟨.inl, ?_⟩⟩
      rintro (hin | ⟨i, -, hroom, -⟩)
      · exact hin
      · have hone : recSize ≤ (i + 1) * recSize := Nat.le_mul_of_pos_left recSize (Nat.succ_pos i)
        omega
    · obtain ⟨cputype, hcputype⟩ := u32At_of_le bigEndian (show off + 4 ≤ bin.length by omega)
      obtain ⟨found, hfound, hmem⟩ := ih (off + recSize)
        (arches ++ (machoCputypeToArch cputype).toList)
      refine ⟨found, ?_, fun arch ↦ ?_⟩
      · rw [if_neg hshort]
        rw [hcputype, Option.bind_some]
        exact hfound
      · rw [hmem, List.mem_append, Option.mem_toList, or_assoc]
        apply or_congr Iff.rfl
        constructor
        · rintro (hfirst | ⟨i, hi, hroom, hslice⟩)
          · refine ⟨0, Nat.succ_pos count, by omega, cputype, ?_, hfirst⟩
            rw [Nat.zero_mul, Nat.add_zero]
            exact hcputype
          · refine ⟨i + 1, Nat.succ_lt_succ hi, ?_, ?_⟩
            · rw [Nat.succ_mul]
              omega
            · rw [Nat.succ_mul, show off + (i * recSize + recSize) = off + recSize + i * recSize by
                omega]
              exact hslice
        · rintro ⟨i, hi, hroom, hslice⟩
          cases i with
          | zero =>
            obtain ⟨other, hother, harch⟩ := hslice
            rw [Nat.zero_mul, Nat.add_zero, hcputype] at hother
            cases hother
            exact .inl harch
          | succ i =>
            refine .inr ⟨i, Nat.lt_of_succ_lt_succ hi, ?_, ?_⟩
            · rw [Nat.succ_mul] at hroom
              omega
            · rw [show off + recSize + i * recSize = off + (i + 1) * recSize by
                rw [Nat.succ_mul]
                omega]
              exact hslice

/-- A Mach-O file is read within its bytes, and its architectures are known. -/
theorem detectMachoArches_total (bin : Bytes) :
    ∃ found, detectMachoArches bin = some found ∧
      ∀ arches, found = some arches → ∀ arch ∈ arches, KnownArch arch := by
  have hnone : ∃ found : Option (List String), some (none : Option (List String)) = some found ∧
      ∀ arches, found = some arches → ∀ arch ∈ arches, KnownArch arch :=
    ⟨none, rfl, fun _ h ↦ by cases h⟩
  unfold detectMachoArches
  split
  · exact hnone
  · next hlen =>
    rw [bytesSlice_eq (Nat.zero_le 4) (by omega)]
    simp only [Option.bind_eq_bind, Option.bind_some]
    generalize (bin.drop 0).take (4 - 0) = m4
    split
    · split
      · exact hnone
      · next hroom =>
        obtain ⟨count, hcount⟩ := u32At_of_le
          (decide (m4 = [0xCA, 0xFE, 0xBA, 0xBE] ∨ m4 = [0xCA, 0xFE, 0xBA, 0xBF]))
          (show 4 + 4 ≤ bin.length by omega)
        have hfour : 4 ≤ if m4 = [0xCA, 0xFE, 0xBA, 0xBF] ∨ m4 = [0xBF, 0xBA, 0xFE, 0xCA] then 32
            else 20 := by
          split
          · decide
          · decide
        obtain ⟨found, hfound, hmem⟩ := fatArches_total
          (decide (m4 = [0xCA, 0xFE, 0xBA, 0xBE] ∨ m4 = [0xCA, 0xFE, 0xBA, 0xBF])) hfour bin count
          8 []
        simp only [hcount, hfound, Option.bind_some]
        refine ⟨_, rfl, ?_⟩
        intro arches harches arch hin
        split at harches
        · cases harches
        · cases harches
          rcases (hmem arch).mp hin with hnil | ⟨i, -, -, cputype, -, harch⟩
          · cases hnil
          · exact machoArch_known harch
    · split
      · obtain ⟨cputype, hcputype⟩ := u32At_of_le
          (decide (m4 = [0xFE, 0xED, 0xFA, 0xCE] ∨ m4 = [0xFE, 0xED, 0xFA, 0xCF]))
          (show 4 + 4 ≤ bin.length by omega)
        simp only [hcputype, Option.bind_some]
        refine ⟨_, rfl, ?_⟩
        intro arches harches arch hin
        obtain ⟨found, hfound, rfl⟩ := Option.map_eq_some_iff.mp harches
        rw [List.mem_singleton.mp hin]
        exact machoArch_known hfound
      · exact hnone

/-! ### The header check -/

private theorem archMatches_iff {arch : String} (hostArch : String) (h : KnownArch arch) :
    archMatches arch hostArch = true ↔ arch = hostArch := by
  unfold archMatches
  rw [decide_eq_true_iff]
  exact and_iff_right h

private theorem singleArchVerdict_ok_iff (host : HostPlatform) (osName unrecognized : String)
    {found : Option String} (hknown : ∀ arch, found = some arch → KnownArch arch) :
    (∃ desc, singleArchVerdict host osName unrecognized found = .ok desc) ↔
      found = some host.arch := by
  cases found with
  | none => simp [singleArchVerdict]
  | some arch =>
    have hmatches := archMatches_iff host.arch (hknown arch rfl)
    simp only [singleArchVerdict, Option.some.injEq, ← hmatches]
    by_cases hsame : archMatches arch host.arch = true
    · simp [hsame]
    · simp [hsame]

/-- The header check passes on the hosts of the architectures that the header names. -/
theorem targetMatches_iff (host : HostPlatform) (bin : Bytes) : TargetMatches host bin ↔
    (detectBinaryOs bin = some (some .linux) ∧ host.os = "linux" ∧
      detectElfArch bin = some (some host.arch)) ∨
    (detectBinaryOs bin = some (some .macOs) ∧ host.os = "macos" ∧
      ∃ arches, detectMachoArches bin = some (some arches) ∧ host.arch ∈ arches) ∨
    (detectBinaryOs bin = some (some .windows) ∧ host.os = "windows" ∧
      detectPeArch bin = some (some host.arch)) := by
  obtain ⟨os, hos⟩ : ∃ os, detectBinaryOs bin = some os := ⟨_, detectBinaryOs_eq bin⟩
  obtain ⟨elf, helf, helfKnown⟩ := detectElfArch_total bin
  obtain ⟨macho, hmacho, hmachoKnown⟩ := detectMachoArches_total bin
  obtain ⟨pe, hpe, hpeKnown⟩ := detectPeArch_total bin
  unfold TargetMatches binaryTargetMatchesHost
  rw [hos, helf, hmacho, hpe]
  simp only [Option.bind_eq_bind, Option.bind_some, Option.some.injEq]
  cases os with
  | none => simp
  | some os =>
    cases os with
    | linux =>
      have hverdict := singleArchVerdict_ok_iff host "linux" "unrecognized ELF arch" helfKnown
      by_cases hhost : host.os = "linux"
      · simp [hhost, hverdict]
      · simp [hhost]
    | windows =>
      have hverdict := singleArchVerdict_ok_iff host "windows" "unrecognized PE arch" hpeKnown
      by_cases hhost : host.os = "windows"
      · simp [hhost, hverdict]
      · simp [hhost]
    | macOs =>
      by_cases hhost : host.os = "macos"
      · cases macho with
        | none => simp [hhost]
        | some arches =>
          have hany : arches.any (archMatches · host.arch) = true ↔ host.arch ∈ arches := by
            rw [List.any_eq_true]
            constructor
            · rintro ⟨arch, hin, hmatches⟩
              rw [archMatches_iff host.arch (hmachoKnown arches rfl arch hin)] at hmatches
              rw [← hmatches]
              exact hin
            · intro hin
              exact ⟨host.arch, hin, (archMatches_iff _ (hmachoKnown arches rfl _ hin)).mpr rfl⟩
          by_cases hin : host.arch ∈ arches
          · simp [hhost, hany, hin]
          · simp [hhost, hany, hin]
      · simp [hhost]

/-- The header check does not panic, so it passes or gives an error. -/
theorem binaryTargetMatchesHost_total (host : HostPlatform) (bin : Bytes) :
    ∃ verdict, binaryTargetMatchesHost host bin = some verdict := by
  obtain ⟨os, hos⟩ : ∃ os, detectBinaryOs bin = some os := ⟨_, detectBinaryOs_eq bin⟩
  obtain ⟨elf, helf, -⟩ := detectElfArch_total bin
  obtain ⟨macho, hmacho, -⟩ := detectMachoArches_total bin
  obtain ⟨pe, hpe, -⟩ := detectPeArch_total bin
  unfold binaryTargetMatchesHost
  rw [hos, helf, hmacho, hpe]
  simp only [Option.bind_eq_bind, Option.bind_some]
  cases os with
  | none => exact ⟨_, rfl⟩
  | some os =>
    cases os with
    | linux =>
      simp only
      split
      · exact ⟨_, rfl⟩
      · exact ⟨_, rfl⟩
    | windows =>
      simp only
      split
      · exact ⟨_, rfl⟩
      · exact ⟨_, rfl⟩
    | macOs =>
      simp only
      split
      · exact ⟨_, rfl⟩
      · cases macho with
        | none => exact ⟨_, rfl⟩
        | some arches =>
          simp only
          split
          · exact ⟨_, rfl⟩
          · exact ⟨_, rfl⟩

/-! ### The tag -/

private theorem tag_eq_iff (osName front : String) (hfront : front.toList = osName.toList ++ ['/'])
    (hos : '/' ∉ osName.toList) {arch : String} (harch : KnownArch arch) (host : HostPlatform) :
    front ++ arch = hostPlatformString host ↔ host.os = osName ∧ arch = host.arch := by
  have hplain : '/' ∉ arch.toList := by
    have hall : ∀ known ∈ ["x86_64", "aarch64", "arm", "x86", "riscv64"],
        '/' ∉ String.toList known := by
      decide
    exact hall arch harch
  have hhost : (hostPlatformString host).toList = host.os.toList ++ '/' :: host.arch.toList := by
    show (host.os ++ "/" ++ host.arch).toList = _
    simp [String.toList_append]
  have htag : (front ++ arch).toList = osName.toList ++ '/' :: arch.toList := by
    simp [String.toList_append, hfront]
  rw [← String.toList_inj, hhost, htag, List.append_cons_inj_of_notMem hos hplain,
    String.toList_inj, String.toList_inj, and_iff_right rfl, eq_comm]

/-- A binary for one platform is tagged with it. -/
theorem detectBinaryPlatform_total (bin : Bytes) :
    ∃ platform, detectBinaryPlatform bin = some platform ∧
      ∀ p host, platform = some p → (TargetMatches host bin ↔ p = hostPlatformString host) := by
  obtain ⟨os, hos⟩ : ∃ os, detectBinaryOs bin = some os := ⟨_, detectBinaryOs_eq bin⟩
  obtain ⟨elf, helf, helfKnown⟩ := detectElfArch_total bin
  obtain ⟨macho, hmacho, hmachoKnown⟩ := detectMachoArches_total bin
  obtain ⟨pe, hpe, hpeKnown⟩ := detectPeArch_total bin
  unfold detectBinaryPlatform
  simp only [targetMatches_iff, hos, helf, hmacho, hpe, Option.bind_eq_bind, Option.bind_some,
    Option.some.injEq]
  cases os with
  | none => exact ⟨none, rfl, fun _ _ h ↦ by cases h⟩
  | some os =>
    cases os with
    | linux =>
      refine ⟨_, rfl, ?_⟩
      intro p host hp
      obtain ⟨arch, rfl, rfl⟩ := Option.map_eq_some_iff.mp hp
      have htag := tag_eq_iff "linux" "linux/" (by decide) (by decide) (helfKnown arch rfl) host
      show _ ↔ "linux/" ++ arch = hostPlatformString host
      rw [htag]
      simp
    | windows =>
      refine ⟨_, rfl, ?_⟩
      intro p host hp
      obtain ⟨arch, rfl, rfl⟩ := Option.map_eq_some_iff.mp hp
      have htag := tag_eq_iff "windows" "windows/" (by decide) (by decide) (hpeKnown arch rfl) host
      show _ ↔ "windows/" ++ arch = hostPlatformString host
      rw [htag]
      simp
    | macOs =>
      rcases macho with - | - | ⟨arch, - | ⟨second, rest⟩⟩
      · exact ⟨none, rfl, fun _ _ h ↦ by cases h⟩
      · exact ⟨none, rfl, fun _ _ h ↦ by cases h⟩
      · refine ⟨_, rfl, ?_⟩
        intro p host hp
        cases hp
        have htag := tag_eq_iff "macos" "macos/" (by decide) (by decide)
          (hmachoKnown [arch] rfl arch List.mem_cons_self) host
        show _ ↔ "macos/" ++ arch = hostPlatformString host
        rw [htag]
        simp [eq_comm]
      · exact ⟨none, rfl, fun _ _ h ↦ by cases h⟩

/-- For every binary and host: a tag that `realm upgrade` detects is the host's exactly if the
agent there accepts the header; and a package whose platform is not given gets past the
agent's prefilter and header check exactly if it gets past the header check. -/
theorem upgrade_platform_agrees {x : Env} {base64Encode : Bytes → String} {bin : Bytes}
    (hround : x.base64Decode (base64Encode bin) = .ok bin) (sign : Bytes → Bytes)
    {request : UpgradeRequest} (hrequest : request.targetPlatform = none) :
    ∃ platform pkg, detectBinaryPlatform bin = some platform ∧
      buildUpgrade x.toExternals base64Encode sign request bin = some pkg ∧
      pkg.targetPlatform = platform ∧
      (∀ p, platform = some p → ∀ host : HostPlatform,
        TargetMatches host bin ↔ p = s!"{host.os}/{host.arch}") ∧
      (PassesPlatform x pkg ↔ TargetMatches x.host bin) := by
  obtain ⟨platform, hplatform, htag⟩ := detectBinaryPlatform_total bin
  refine ⟨platform, upgradePackage x.toExternals base64Encode sign request bin platform,
    hplatform, ?_, rfl, fun p hp host ↦ htag p host hp, ?_⟩
  · unfold buildUpgrade
    simp only [hrequest, hplatform, Option.map_some]
  · unfold PassesPlatform
    simp only [upgradePackage, upgradeBinary, hround]
    apply and_iff_right_of_imp
    intro hmatches
    rw [Option.all_eq_true]
    intro p hp
    rw [beq_iff_eq]
    exact ((htag p x.host hp).mp hmatches).symm

private def firstRequest : UpgradeRequest where
  publicBs58 := "ed25519:AKnL4NNf3DGWZJS6cPknBuEGnVsV4A4m5tgebLHaRSZ9"
  version := 1

/-- The Linux binary is tagged `linux/x86_64`, and its package passes on such a host. -/
theorem upgrade_platform_agrees_linux :
    detectBinaryPlatform linuxBinary = some (some "linux/x86_64") ∧
    ∃ pkg, buildUpgrade sampleEnv.toExternals Base64.encode (fun _ ↦ binarySigA) firstRequest
      linuxBinary = some pkg ∧ PassesPlatform sampleEnv pkg := by
  have hdetected : detectBinaryPlatform linuxBinary = some (some "linux/x86_64") := by
    decide
  have hround : sampleEnv.base64Decode (Base64.encode linuxBinary) = .ok linuxBinary := by
    have htext : Base64.encode linuxBinary = (upgradeA 1).binaryB64 := by decide
    rw [htext]
    rfl
  have hgiven : firstRequest.targetPlatform = none := rfl
  obtain ⟨platform, pkg, hplatform, hbuild, -, htag, hpasses⟩ :=
    upgrade_platform_agrees hround (fun _ ↦ binarySigA) hgiven
  refine ⟨hdetected, pkg, hbuild, hpasses.mpr ?_⟩
  rw [hdetected] at hplatform
  cases hplatform
  exact (htag _ rfl sampleEnv.host).mpr (by decide)

/-! ### Universal binaries with 64-bit offsets -/

/-- The magic of a universal file whose records are those of `fat_arch_64`. -/
def fat64Magic (bigEndian : Bool) : Bytes :=
  if bigEndian then [0xCA, 0xFE, 0xBA, 0xBF] else [0xBF, 0xBA, 0xFE, 0xCA]

/-- Such a file, with a record of a known type among those that lie within the bytes. -/
def HoldsFat64 (bin : Bytes) : Prop :=
  ∃ bigEndian count i arch, bin.take 4 = fat64Magic bigEndian ∧
    u32At bigEndian bin 4 = some count ∧ i < count ∧ 8 + (i + 1) * 32 ≤ bin.length ∧
    SliceAt bigEndian bin (8 + i * 32) arch

/-- A file whose architectures are detected is taken for a Mach-O file, and accepted on hosts
with one of them. -/
def MachoRecognised (bin : Bytes) : Prop :=
  ∀ arches, detectMachoArches bin = some (some arches) →
    detectBinaryOs bin = some (some .macOs) ∧
    ∀ host : HostPlatform, host.os = "macos" → host.arch ∈ arches → TargetMatches host bin

private theorem detectMachoArches_fat64 {bin : Bytes} {bigEndian : Bool}
    (hmagic : bin.take 4 = fat64Magic bigEndian) (hlen : 12 ≤ bin.length) :
    ∃ count found, u32At bigEndian bin 4 = some count ∧
      fatArches bigEndian 32 bin count 8 [] = some found ∧
      detectMachoArches bin = some (if found.isEmpty then none else some found) := by
  obtain ⟨count, hcount⟩ := u32At_of_le bigEndian (show 4 + 4 ≤ bin.length by omega)
  obtain ⟨found, hfound, -⟩ := fatArches_total bigEndian (show 4 ≤ 32 by decide) bin count 8 []
  refine ⟨count, found, hcount, hfound, ?_⟩
  unfold detectMachoArches
  rw [if_neg (by omega), bytesSlice_eq (Nat.zero_le 4) (by omega), List.drop_zero, Nat.sub_zero,
    hmagic]
  have hroom : ¬ bin.length < 12 := by omega
  cases bigEndian with
  | true => simp [fat64Magic, hroom, hcount, hfound]
  | false => simp [fat64Magic, hroom, hcount, hfound]

private theorem not_macOs_of_fat64 {bin : Bytes} {bigEndian : Bool}
    (hmagic : bin.take 4 = fat64Magic bigEndian) :
    detectBinaryOs bin ≠ some (some .macOs) := by
  have htwo : bin.take 2 = (fat64Magic bigEndian).take 2 := by
    rw [← hmagic, List.take_take]
    rfl
  rw [detectBinaryOs_eq, hmagic, htwo]
  cases bigEndian with
  | true => simp [fat64Magic, thinMagics]
  | false => simp [fat64Magic, thinMagics]

private theorem magic_of_detected {bin : Bytes} {arches : List String}
    (h : detectMachoArches bin = some (some arches)) : 12 ≤ bin.length ∧
      (∃ bigEndian, bin.take 4 = fat64Magic bigEndian) ∨
    8 ≤ bin.length ∧ (bin.take 4 ∈ thinMagics ∨ bin.take 4 = [0xCA, 0xFE, 0xBA, 0xBE] ∨
      bin.take 4 = [0xBE, 0xBA, 0xFE, 0xCA]) := by
  unfold detectMachoArches at h
  split at h
  · cases h
  · next hlen =>
    rw [bytesSlice_eq (Nat.zero_le 4) (by omega)] at h
    simp only [Option.bind_eq_bind, Option.bind_some, List.drop_zero, Nat.sub_zero] at h
    split at h
    · next hfat =>
      split at h
      · cases h
      · next hroom =>
        simp only [List.mem_cons, List.not_mem_nil, or_false] at hfat
        rcases hfat with hmagic | hmagic | hmagic | hmagic
        · exact .inr ⟨by omega, .inr (.inl hmagic)⟩
        · exact .inr ⟨by omega, .inr (.inr hmagic)⟩
        · exact .inl ⟨by omega, true, hmagic⟩
        · exact .inl ⟨by omega, false, hmagic⟩
    · split at h
      · next hthin => exact .inr ⟨by omega, .inl hthin⟩
      · cases h

private theorem macOs_of_magic {bin : Bytes} (hlen : 8 ≤ bin.length)
    (hmagic : bin.take 4 ∈ thinMagics ∨ bin.take 4 = [0xCA, 0xFE, 0xBA, 0xBE] ∨
      bin.take 4 = [0xBE, 0xBA, 0xFE, 0xCA]) : detectBinaryOs bin = some (some .macOs) := by
  have htwo : bin.take 2 = (bin.take 4).take 2 := by
    rw [List.take_take]
    rfl
  have hother : bin.take 4 ≠ [0x7F, 0x45, 0x4C, 0x46] ∧ bin.take 4 ≠ [0x4D, 0x5A, 0x90, 0x00] ∧
      bin.take 2 ≠ [0x4D, 0x5A] := by
    rw [htwo]
    simp only [thinMagics, List.mem_cons, List.not_mem_nil, or_false] at hmagic
    rcases hmagic with (h | h | h | h) | h | h
    all_goals
      rw [h]
      decide
  obtain ⟨helf, hdos, hmz⟩ := hother
  rw [detectBinaryOs_eq, if_neg (by omega), if_neg helf, if_neg (not_or.mpr ⟨hdos, hmz⟩),
    if_pos hmagic]

/-- A binary whose architectures are detected is recognised, unless it is a universal file with
64-bit offsets. -/
theorem macho_recognised_iff (bin : Bytes) : MachoRecognised bin ↔ ¬ HoldsFat64 bin := by
  constructor
  · rintro hrecognised ⟨bigEndian, count, i, arch, hmagic, hcount, hi, hroom, hslice⟩
    obtain ⟨count', found, hcount', hfound, hdetected⟩ :=
      detectMachoArches_fat64 hmagic (show 12 ≤ bin.length by omega)
    rw [hcount] at hcount'
    cases hcount'
    obtain ⟨found', hfound', hmem⟩ :=
      fatArches_total bigEndian (show 4 ≤ 32 by decide) bin count 8 []
    rw [hfound] at hfound'
    cases hfound'
    have hin : arch ∈ found := (hmem arch).mpr (.inr ⟨i, hi, hroom, hslice⟩)
    have hnonempty : found.isEmpty = false := by
      cases found with
      | nil => cases hin
      | cons first rest => rfl
    rw [hnonempty] at hdetected
    exact not_macOs_of_fat64 hmagic (hrecognised found hdetected).1
  · intro hnot arches hdetected
    have hos : detectBinaryOs bin = some (some .macOs) := by
      rcases magic_of_detected hdetected with ⟨hlen, bigEndian, hmagic⟩ | ⟨hlen, hmagic⟩
      · exfalso
        obtain ⟨count, found, hcount, hfound, heq⟩ := detectMachoArches_fat64 hmagic hlen
        obtain ⟨found', hfound', hmem⟩ :=
          fatArches_total bigEndian (show 4 ≤ 32 by decide) bin count 8 []
        rw [hfound] at hfound'
        cases hfound'
        cases found with
        | nil =>
          rw [hdetected] at heq
          cases heq
        | cons first rest =>
          rcases (hmem first).mp List.mem_cons_self with hnil | ⟨i, hi, hroom, hslice⟩
          · cases hnil
          · exact hnot ⟨bigEndian, count, i, first, hmagic, hcount, hi, hroom, hslice⟩
      · exact macOs_of_magic hlen hmagic
    refine ⟨hos, fun host hhost harch ↦ (targetMatches_iff host bin).mpr ?_⟩
    exact .inr (.inl ⟨hos, hhost, arches, hdetected, harch⟩)

/-- The header of a universal file with one 64-bit record, for x86-64. -/
def fat64Binary : Bytes :=
  [0xCA, 0xFE, 0xBA, 0xBF, 0, 0, 0, 1, 0x01, 0, 0, 0x07, 0, 0, 0, 3] ++ List.replicate 24 0

/-- Its architecture is detected, but not its operating system. -/
theorem fat64_not_recognised :
    detectMachoArches fat64Binary = some (some ["x86_64"]) ∧
      detectBinaryOs fat64Binary = some none ∧
      binaryTargetMatchesHost ⟨"macos", "x86_64"⟩ fat64Binary =
        some (.error "unknown binary format") ∧
      ¬ MachoRecognised fat64Binary := by
  have hdetected : detectMachoArches fat64Binary = some (some ["x86_64"]) := by decide
  have hos : detectBinaryOs fat64Binary = some none := by decide
  refine ⟨hdetected, hos, rfl, ?_⟩
  intro hrecognised
  have hmac := (hrecognised _ hdetected).1
  rw [hos] at hmac
  cases hmac

end PeerDeploy.Deploy
