import PeerDeploy.Common.Command
import Mathlib.Algebra.Ring.Nat

/-!
# The platform of an agent binary

Header sniffing of `crates/agent/src/p2p/handlers/util.rs:45–273`. Every index and slice of
the source can panic, so the readers below return `none` outside the bytes; what a function
detects is the option inside.
-/

namespace PeerDeploy.Deploy

open PeerDeploy.Common

/-- `crates/agent/src/p2p/handlers/util.rs:49–54`. -/
inductive BinaryOs where
  | linux
  | macOs
  | windows
  deriving DecidableEq, Repr

/-- The operating system and architecture of the host, as `std::env::consts` names them. -/
structure HostPlatform where
  os : String
  arch : String
  deriving DecidableEq, Repr

/-- `crates/agent/src/p2p/handlers/util.rs:45–47`. -/
def hostPlatformString (host : HostPlatform) : String := s!"{host.os}/{host.arch}"

/-- `&bin[start..stop]`. -/
def bytesSlice (bin : Bytes) (start stop : Nat) : Option Bytes :=
  if start ≤ stop ∧ stop ≤ bin.length then some ((bin.drop start).take (stop - start)) else none

/-- `u16::from_le_bytes` or `u16::from_be_bytes` at an offset. -/
def u16At (bigEndian : Bool) (bin : Bytes) (off : Nat) : Option Nat := do
  let b0 ← bin[off]?
  let b1 ← bin[off + 1]?
  return if bigEndian then b0.toNat * 256 + b1.toNat else b0.toNat + b1.toNat * 256

/-- `u32::from_le_bytes` or `u32::from_be_bytes` at an offset. -/
def u32At (bigEndian : Bool) (bin : Bytes) (off : Nat) : Option Nat := do
  let b0 ← bin[off]?
  let b1 ← bin[off + 1]?
  let b2 ← bin[off + 2]?
  let b3 ← bin[off + 3]?
  return if bigEndian then
      ((b0.toNat * 256 + b1.toNat) * 256 + b2.toNat) * 256 + b3.toNat
    else b0.toNat + (b1.toNat + (b2.toNat + b3.toNat * 256) * 256) * 256

/-- Mach-O magics of a thin file, big-endian first. -/
def thinMagics : List Bytes :=
  [[0xFE, 0xED, 0xFA, 0xCE], [0xFE, 0xED, 0xFA, 0xCF], [0xCE, 0xFA, 0xED, 0xFE],
    [0xCF, 0xFA, 0xED, 0xFE]]

/-- `crates/agent/src/p2p/handlers/util.rs:111–132`. -/
def detectBinaryOs (bin : Bytes) : Option (Option BinaryOs) :=
  if 4 ≤ bin.length then do
    let m4 ← bytesSlice bin 0 4
    if m4 = [0x7F, 0x45, 0x4C, 0x46] then return some .linux
    let m2 ← bytesSlice bin 0 2
    if m4 = [0x4D, 0x5A, 0x90, 0x00] ∨ m2 = [0x4D, 0x5A] then return some .windows
    if m4 ∈ thinMagics ∨ m4 = [0xCA, 0xFE, 0xBA, 0xBE] ∨ m4 = [0xBE, 0xBA, 0xFE, 0xCA] then
      return some .macOs
    return none
  else some none

/-- `crates/agent/src/p2p/handlers/util.rs:134–143`. -/
def archMatches (binArch hostArch : String) : Bool :=
  binArch ∈ ["x86_64", "aarch64", "arm", "x86", "riscv64"] ∧ binArch = hostArch

/-- `crates/agent/src/p2p/handlers/util.rs:145–170`. -/
def detectElfArch (bin : Bytes) : Option (Option String) :=
  if bin.length < 20 then some none
  else do
    let m4 ← bytesSlice bin 0 4
    if m4 ≠ [0x7F, 0x45, 0x4C, 0x46] then return none
    let eiData ← bin[5]?
    let em ← u16At (eiData ≠ 1) bin 18
    return match em with
      | 62 => some "x86_64"
      | 183 => some "aarch64"
      | 3 => some "x86"
      | 40 => some "arm"
      | 243 => some "riscv64"
      | _ => none

/-- `crates/agent/src/p2p/handlers/util.rs:239–250`. -/
def machoCputypeToArch (cputype : Nat) : Option String :=
  match cputype % 2 ^ 24, decide (cputype / 2 ^ 24 % 2 ≠ 0) with
  | 7, true => some "x86_64"
  | 7, false => some "x86"
  | 12, true => some "aarch64"
  | 12, false => some "arm"
  | _, _ => none

/-- The loop over the slices of a universal binary, with the offset of each round that it begins;
`crates/agent/src/p2p/handlers/util.rs:200–213`. -/
def fatLoop (bigEndian : Bool) (recSize : Nat) (bin : Bytes) :
    Nat → Nat → List String → Option (List String × List Nat)
  | 0, _, arches => some (arches, [])
  | count + 1, off, arches =>
    if bin.length < off + recSize then some (arches, [off])
    else do
      let cputype ← u32At bigEndian bin off
      let (arches, rounds) ← fatLoop bigEndian recSize bin count (off + recSize)
        (arches ++ (machoCputypeToArch cputype).toList)
      return (arches, off :: rounds)

/-- What the loop collects. -/
def fatArches (bigEndian : Bool) (recSize : Nat) (bin : Bytes) (count off : Nat)
    (arches : List String) : Option (List String) :=
  (fatLoop bigEndian recSize bin count off arches).map Prod.fst

/-- One round of the loop. -/
theorem fatArches_succ (bigEndian : Bool) (recSize : Nat) (bin : Bytes) (count off : Nat)
    (arches : List String) :
    fatArches bigEndian recSize bin (count + 1) off arches =
      if bin.length < off + recSize then some arches
      else (u32At bigEndian bin off).bind fun cputype ↦
        fatArches bigEndian recSize bin count (off + recSize)
          (arches ++ (machoCputypeToArch cputype).toList) := by
  rw [fatArches, fatLoop]
  split
  · rfl
  · cases u32At bigEndian bin off with
    | none => rfl
    | some cputype =>
      simp only [Option.bind_eq_bind, Option.bind_some, fatArches]
      cases fatLoop bigEndian recSize bin count (off + recSize)
        (arches ++ (machoCputypeToArch cputype).toList) with
      | none => rfl
      | some found => rfl

/-- `crates/agent/src/p2p/handlers/util.rs:172–237`. -/
def detectMachoArches (bin : Bytes) : Option (Option (List String)) :=
  if bin.length < 8 then some none
  else do
    let m4 ← bytesSlice bin 0 4
    if m4 ∈ [[0xCA, 0xFE, 0xBA, 0xBE], [0xBE, 0xBA, 0xFE, 0xCA], [0xCA, 0xFE, 0xBA, 0xBF],
        [0xBF, 0xBA, 0xFE, 0xCA]] then
      let bigEndian := m4 = [0xCA, 0xFE, 0xBA, 0xBE] ∨ m4 = [0xCA, 0xFE, 0xBA, 0xBF]
      if bin.length < 12 then return none
      let nfatArch ← u32At bigEndian bin 4
      let recSize :=
        if m4 = [0xCA, 0xFE, 0xBA, 0xBF] ∨ m4 = [0xBF, 0xBA, 0xFE, 0xCA] then 32 else 20
      let arches ← fatArches bigEndian recSize bin nfatArch 8 []
      return if arches.isEmpty then none else some arches
    else if m4 ∈ thinMagics then
      let bigEndian := m4 = [0xFE, 0xED, 0xFA, 0xCE] ∨ m4 = [0xFE, 0xED, 0xFA, 0xCF]
      let cputype ← u32At bigEndian bin 4
      return (machoCputypeToArch cputype).map ([·])
    else return none

/-- `crates/agent/src/p2p/handlers/util.rs:252–273`. -/
def detectPeArch (bin : Bytes) : Option (Option String) :=
  if bin.length < 0x40 then some none
  else do
    let m2 ← bytesSlice bin 0 2
    if m2 ≠ [0x4D, 0x5A] then return none
    let peOff ← u32At false bin 0x3C
    if bin.length < peOff + 6 then return none
    let signature ← bytesSlice bin peOff (peOff + 4)
    if signature ≠ [0x50, 0x45, 0, 0] then return none
    let machine ← u16At false bin (peOff + 4)
    return match machine with
      | 0x8664 => some "x86_64"
      | 0x014c => some "x86"
      | 0xAA64 => some "aarch64"
      | 0x01c0 => some "arm"
      | _ => none

/-- The verdict on one detected architecture, the same for ELF and PE files;
`crates/agent/src/p2p/handlers/util.rs:65–72,98–105`. -/
def singleArchVerdict (host : HostPlatform) (osName unrecognized : String) :
    Option String → Except String String
  | some a =>
    if archMatches a host.arch then .ok s!"{osName}/{a}"
    else .error s!"host {host.os}/{host.arch} but bin {osName}/{a}"
  | none => .error unrecognized

/-- `crates/agent/src/p2p/handlers/util.rs:56–109`; `none` where an index panics. -/
def binaryTargetMatchesHost (host : HostPlatform) (bin : Bytes) :
    Option (Except String String) := do
  match ← detectBinaryOs bin with
  | some .linux =>
    if host.os ≠ "linux" then return .error s!"host {host.os} but bin linux"
    return singleArchVerdict host "linux" "unrecognized ELF arch" (← detectElfArch bin)
  | some .macOs =>
    if host.os ≠ "macos" then return .error s!"host {host.os} but bin macos"
    match ← detectMachoArches bin with
    | some arches =>
      let joined := String.intercalate "|" arches
      if arches.any (archMatches · host.arch) then return .ok s!"macos/{joined}"
      return .error s!"host {host.os}/{host.arch} but bin macos/{joined}"
    | none => return .error "unrecognized Mach-O arch"
  | some .windows =>
    if host.os ≠ "windows" then return .error s!"host {host.os} but bin windows"
    return singleArchVerdict host "windows" "unrecognized PE arch" (← detectPeArch bin)
  | none => return .error "unknown binary format"

end PeerDeploy.Deploy
