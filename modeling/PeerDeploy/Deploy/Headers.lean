import PeerDeploy.Deploy.Platform

/-!
# Reading untrusted headers

The header readers of `crates/agent/src/p2p/handlers/util.rs:111–273` take offsets and a slice
count from the file itself. They stay inside the bytes, and the loop over the slices of a universal
binary ends with the file, whatever count it claims.
-/

namespace PeerDeploy.Deploy

open PeerDeploy.Common

/-- The magics of a universal binary; `crates/agent/src/p2p/handlers/util.rs:178–181`. -/
def fatMagics : List Bytes :=
  [[0xCA, 0xFE, 0xBA, 0xBE], [0xBE, 0xBA, 0xFE, 0xCA], [0xCA, 0xFE, 0xBA, 0xBF],
    [0xBF, 0xBA, 0xFE, 0xCA]]

/-- Whether the numbers behind a magic are big-endian. -/
def fatBigEndian (m4 : Bytes) : Bool :=
  m4 = [0xCA, 0xFE, 0xBA, 0xBE] ∨ m4 = [0xCA, 0xFE, 0xBA, 0xBF]

/-- The size of a record behind a magic. -/
def fatRecSize (m4 : Bytes) : Nat :=
  if m4 = [0xCA, 0xFE, 0xBA, 0xBF] ∨ m4 = [0xBF, 0xBA, 0xFE, 0xCA] then 32 else 20

/-- The offsets of the complete records among the first `count`. -/
def completeRecords (recSize length count off : Nat) : List Nat :=
  (List.range (min count ((length - off) / recSize))).map fun i ↦ off + i * recSize

/-- The architecture that the record at an offset names, if it is a known one. -/
def archAt (bigEndian : Bool) (bin : Bytes) (off : Nat) : List String :=
  ((u32At bigEndian bin off).bind machoCputypeToArch).toList

/-- The known architectures of the complete records among the first `count`, behind a magic. -/
def knownArches (m4 bin : Bytes) (count : Nat) : List String :=
  (completeRecords (fatRecSize m4) bin.length count 8).flatMap (archAt (fatBigEndian m4) bin)

private theorem completeRecords_succ {recSize length : Nat} (hsize : 0 < recSize) {off : Nat}
    (h : off + recSize ≤ length) (count : Nat) : completeRecords recSize length (count + 1) off =
      off :: completeRecords recSize length count (off + recSize) := by
  have hdiv : (length - off) / recSize = (length - (off + recSize)) / recSize + 1 := by
    rw [Nat.div_eq_sub_div hsize (by omega), Nat.sub_sub]
  rw [completeRecords, hdiv, Nat.add_min_add_right, List.range_succ_eq_map, List.map_cons,
    List.map_map, Nat.zero_mul, Nat.add_zero, completeRecords]
  refine congrArg (off :: ·) (List.map_congr_left fun i _ ↦ ?_)
  rw [Function.comp_apply, Nat.succ_mul]
  omega

private theorem completeRecords_of_short {recSize length off : Nat} (h : length < off + recSize)
    (hoff : off ≤ length) (count : Nat) : completeRecords recSize length count off = [] := by
  rw [completeRecords, Nat.div_eq_of_lt (by omega), Nat.min_zero, List.range_zero, List.map_nil]

/-- The loop collects the known architectures of the complete records, in their order, and looks
once behind them, no further. -/
theorem fatLoop_spec (bigEndian : Bool) {recSize : Nat} (hsize : 4 ≤ recSize) (bin : Bytes)
    (count : Nat) {off : Nat} (hoff : off ≤ bin.length) (arches : List String) :
    ∃ rounds, fatLoop bigEndian recSize bin count off arches =
        some (arches ++ (completeRecords recSize bin.length count off).flatMap
          (archAt bigEndian bin), rounds) ∧
      rounds.length ≤ (bin.length - off) / recSize + 1 ∧
      rounds.filter (· + recSize ≤ bin.length) = completeRecords recSize bin.length count off ∧
      ∀ round ∈ rounds, round ≤ bin.length := by
  induction count generalizing off arches with
  | zero => exact ⟨[], by simp [fatLoop, completeRecords]⟩
  | succ count ih =>
    by_cases hshort : bin.length < off + recSize
    · refine ⟨[off], ?_, Nat.succ_le_succ (Nat.zero_le _), ?_, fun round hround ↦ ?_⟩
      · rw [fatLoop, if_pos hshort, completeRecords_of_short hshort hoff, List.flatMap_nil,
          List.append_nil]
      · rw [completeRecords_of_short hshort hoff]
        exact List.filter_cons_of_neg (by simpa using hshort)
      · rw [List.mem_singleton.mp hround]
        exact hoff
    · have hend : off + recSize ≤ bin.length := Nat.le_of_not_lt hshort
      obtain ⟨cputype, hcputype⟩ := u32At_of_le bigEndian (show off + 4 ≤ bin.length by omega)
      have harch : archAt bigEndian bin off = (machoCputypeToArch cputype).toList := by
        rw [archAt, hcputype, Option.bind_some]
      obtain ⟨rounds, hloop, hlen, hcomplete, hinside⟩ :=
        ih hend (arches ++ (machoCputypeToArch cputype).toList)
      have hrecords := completeRecords_succ (show 0 < recSize by omega) hend count
      refine ⟨off :: rounds, ?_, ?_, ?_, fun round hround ↦ ?_⟩
      · rw [fatLoop, if_neg hshort, hcputype, Option.bind_eq_bind, Option.bind_some, hloop,
          hrecords, List.flatMap_cons, harch, List.append_assoc]
        rfl
      · rw [List.length_cons, Nat.div_eq_sub_div (by omega) (by omega), Nat.sub_sub]
        exact Nat.succ_le_succ hlen
      · rw [hrecords, ← hcomplete]
        exact List.filter_cons_of_pos (by simpa using hend)
      · rcases List.mem_cons.mp hround with rfl | hround
        · exact hoff
        · exact hinside round hround

/-- The answer for a universal binary is what its loop collects. -/
theorem detectMachoArches_of_fat {bin : Bytes} (hlen : 12 ≤ bin.length)
    (hmagic : bin.take 4 ∈ fatMagics) {count : Nat}
    (hcount : u32At (fatBigEndian (bin.take 4)) bin 4 = some count) {arches : List String}
    (harches : fatArches (fatBigEndian (bin.take 4)) (fatRecSize (bin.take 4)) bin count 8 [] =
      some arches) :
    detectMachoArches bin = some (if arches.isEmpty then none else some arches) := by
  unfold detectMachoArches
  rw [if_neg (by omega), bytesSlice_eq (Nat.zero_le 4) (by omega), List.drop_zero, Nat.sub_zero,
    Option.bind_eq_bind, Option.bind_some]
  refine (if_pos hmagic).trans ?_
  change (if bin.length < 12 then some none
    else (u32At (fatBigEndian (bin.take 4)) bin 4).bind fun nfatArch ↦
      (fatArches (fatBigEndian (bin.take 4)) (fatRecSize (bin.take 4)) bin nfatArch 8 []).bind
        fun found ↦ some (if found.isEmpty then none else some found)) = _
  rw [if_neg (by omega), hcount, Option.bind_some, harches, Option.bind_some]

/-- A number of four bytes. -/
theorem u32At_lt {bigEndian : Bool} {bin : Bytes} {off n : Nat}
    (h : u32At bigEndian bin off = some n) : n < 2 ^ 32 := by
  simp only [u32At, Option.bind_eq_bind, Option.bind_eq_some_iff, Option.pure_def,
    Option.some.injEq] at h
  obtain ⟨b0, -, b1, -, b2, -, b3, -, rfl⟩ := h
  have h0 := b0.toNat_lt
  have h1 := b1.toNat_lt
  have h2 := b2.toNat_lt
  have h3 := b3.toNat_lt
  split
  · omega
  · omega

/-- The loop over the slices of a universal binary that claims `count` of them, with what it finds
and the offsets of the rounds that it begins. -/
structure FatLoop (m4 bin : Bytes) (count : Nat) (found : List String) (rounds : List Nat) :
    Prop where
  runs : fatLoop (fatBigEndian m4) (fatRecSize m4) bin count 8 [] = some (found, rounds)
  /-- The loop begins at most one round more than there are complete records. -/
  bounded : rounds.length ≤ (bin.length - 8) / fatRecSize m4 + 1
  complete : rounds.filter (· + fatRecSize m4 ≤ bin.length) =
    completeRecords (fatRecSize m4) bin.length count 8
  /-- No sum is too large for 64 bits: a slice has less than 2 ^ 63 bytes. -/
  noOverflow : bin.length < 2 ^ 63 → ∀ off ∈ rounds, off + fatRecSize m4 < 2 ^ 64
  arches : found = knownArches m4 bin count

/-- The header readers never index outside the bytes, and read no more records than there are. -/
structure HeadersSafe (bin : Bytes) : Prop where
  os : (detectBinaryOs bin).isSome
  elf : (detectElfArch bin).isSome
  macho : (detectMachoArches bin).isSome
  pe : (detectPeArch bin).isSome
  peOffset : ∀ off, u32At false bin 0x3C = some off → off + 6 < 2 ^ 64
  loop : 8 ≤ bin.length → ∀ m4 ∈ fatMagics, ∀ count, ∃ found rounds,
    FatLoop m4 bin count found rounds
  /-- The architectures of a universal binary. -/
  fat : 12 ≤ bin.length → bin.take 4 ∈ fatMagics →
    ∃ count < 2 ^ 32, u32At (fatBigEndian (bin.take 4)) bin 4 = some count ∧
      detectMachoArches bin = some (if (knownArches (bin.take 4) bin count).isEmpty then none
        else some (knownArches (bin.take 4) bin count))

/-- Headers are read safely from any bytes. -/
theorem headersSafe (bin : Bytes) : HeadersSafe bin := by
  have hsize (m4 : Bytes) : 20 ≤ fatRecSize m4 ∧ fatRecSize m4 ≤ 32 := by
    unfold fatRecSize
    split
    · decide
    · decide
  have hloop (hlen : 8 ≤ bin.length) (m4 : Bytes) (count : Nat) :
      ∃ found rounds, FatLoop m4 bin count found rounds := by
    obtain ⟨hlower, hupper⟩ := hsize m4
    obtain ⟨rounds, hruns, hbounded, hcomplete, hinside⟩ :=
      fatLoop_spec (fatBigEndian m4) (show 4 ≤ fatRecSize m4 by omega) bin count hlen []
    refine ⟨knownArches m4 bin count, rounds, hruns, hbounded, hcomplete, ?_, rfl⟩
    intro hshort off hoff
    have hle := hinside off hoff
    omega
  obtain ⟨elf, helf, -⟩ := detectElfArch_total bin
  obtain ⟨macho, hmacho, -⟩ := detectMachoArches_total bin
  obtain ⟨pe, hpe, -⟩ := detectPeArch_total bin
  exact {
    os := by
      rw [detectBinaryOs_eq]
      rfl
    elf := by rw [helf, Option.isSome_some]
    macho := by rw [hmacho, Option.isSome_some]
    pe := by rw [hpe, Option.isSome_some]
    peOffset := by
      intro off hoff
      have hlt := u32At_lt hoff
      omega
    loop := fun hlen m4 _ count ↦ hloop hlen m4 count
    fat := by
      intro hlen hmagic
      obtain ⟨count, hcount⟩ := u32At_of_le (fatBigEndian (bin.take 4))
        (show 4 + 4 ≤ bin.length by omega)
      refine ⟨count, u32At_lt hcount, hcount, detectMachoArches_of_fat hlen hmagic hcount ?_⟩
      obtain ⟨found, rounds, hfat⟩ := hloop (by omega) (bin.take 4) count
      rw [fatArches, hfat.runs, hfat.arches]
      rfl }

end PeerDeploy.Deploy
