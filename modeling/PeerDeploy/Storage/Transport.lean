import PeerDeploy.Base.Base64
import PeerDeploy.Common.Messages
import PeerDeploy.Storage.Collect
import PeerDeploy.Storage.Serve
import PeerDeploy.Storage.Upload

/-!
# Blobs and the size of a gossip message

Blobs travel as base64 texts inside JSON messages, and the transport refuses messages above
ten MiB (`crates/agent/src/p2p/mod.rs:226–228`, `crates/agent/src/cmd/util.rs:76–78`). The
three senders compare the size of the raw bytes with limits of their own
(`crates/agent/src/cmd/job.rs:68–95`, `crates/agent/src/web/jobs.rs:58–77`,
`crates/agent/src/p2p/mod.rs:887–904`).
-/

namespace PeerDeploy.Storage

open PeerDeploy.Common PeerDeploy.Base

/-- `max_transmit_size`; `crates/agent/src/p2p/mod.rs:227`. -/
def maxTransmitSize : Nat := 10 * 1024 * 1024

/-- The size of the JSON text of a command. -/
def messageSize (command : Command) : Nat := (serializeMessage command.toJson).length

/-- The JSON text of the command is within the limit of the transport. Gossipsub measures the
signed envelope around it, which is some 135 bytes longer. -/
def FitsTransport (command : Command) : Prop := messageSize command ≤ maxTransmitSize

/-- The message that the web interface publishes for the bytes of an asset;
`crates/agent/src/web/jobs.rs:58–77`. -/
def webUploadMessages (sha256Hex : Bytes → String) (base64Encode : Bytes → String)
    (bytes : Bytes) : List Command :=
  [.storagePut (sha256Hex bytes) (base64Encode bytes)]

/-- The message in which the answer to `StorageGet` goes out;
`crates/agent/src/p2p/mod.rs:895–899`. -/
def servedMessages (base64Encode : Bytes → String) (out : Served) : List Command :=
  out.published.toList.map fun (digest, bytes) ↦ .storageData digest (base64Encode bytes)

/-- The largest blob whose inline message is not above the limit: the rest of the message takes
107 or 108 bytes, and base64 makes four characters of three bytes. -/
def fittingMax : Nat := (maxTransmitSize - 108) / 4 * 3

example : fittingMax = 7864239 := by decide

/-- The blob that the handler of `StorageGet` can read is small enough for its answer, or too
large for any. -/
def ServedSmall (base : String) (s : Store) (digest : String) (input : ServeInput) : Prop :=
  input.metadataError = none → input.readError = none →
    ∀ bytes, (s.opened base).files[blobPlace base digest]? = some (.file bytes) →
      bytes.length ≤ fittingMax ∨ inlineMax < bytes.length

/-! ### The size of a message -/

-- The character takes one byte in JSON.
private def Plain (c : Char) : Prop := Json.escape c = [c] ∧ c.utf8Size = 1

private theorem plain_of_hexDigits {c : Char} (h : c ∈ hexDigits) : Plain c := by
  have hall : hexDigits.all (fun c ↦ Json.escape c == [c] && c.utf8Size == 1) = true := by
    decide
  simpa [Plain] using List.all_eq_true.mp hall c h

private theorem plain_of_base64 {c : Char} (h : c ∈ Base64.alphabet ∨ c = '=') : Plain c := by
  have hall : ('=' :: Base64.alphabet).all (fun c ↦ Json.escape c == [c] && c.utf8Size == 1) =
      true := by
    decide
  have hin : c ∈ '=' :: Base64.alphabet := by
    rw [List.mem_cons]
    exact h.symm
  simpa [Plain] using List.all_eq_true.mp hall c hin

-- The size of a text in UTF-8.
private def width (cs : List Char) : Nat := (cs.map Char.utf8Size).sum

private theorem width_append (cs ds : List Char) : width (cs ++ ds) = width cs + width ds := by
  simp [width]

private theorem width_cons (c : Char) (cs : List Char) : width (c :: cs) = c.utf8Size + width cs := by
  simp [width]

private theorem length_asBytes (cs : List Char) : (asBytes (String.ofList cs)).length = width cs := by
  have hsize (text : String) : (asBytes text).length = text.utf8ByteSize := by
    simp [asBytes]
  rw [hsize]
  induction cs with
  | nil => rfl
  | cons c cs ih =>
    rw [← List.singleton_append, String.ofList_append, String.utf8ByteSize_append, ih, width_append]
    simp [width]

private theorem width_quote {text : String} (h : ∀ c ∈ text.toList, Plain c) :
    width (Json.quote text) = text.toList.length + 2 := by
  have hescape : width (text.toList.flatMap Json.escape) = text.toList.length := by
    generalize text.toList = cs at h
    induction cs with
    | nil => rfl
    | cons c cs ih =>
      obtain ⟨hplain, hone⟩ := h c List.mem_cons_self
      rw [List.flatMap_cons, hplain, width_append, ih fun d hd ↦ h d (List.mem_cons_of_mem c hd),
        width_cons, hone, List.length_cons]
      simp [width, Nat.add_comm]
  have hmark : '"'.utf8Size = 1 := by decide
  rw [Json.quote, width_cons, width_append, hescape, width_cons, hmark]
  simp [width]
  omega

private theorem width_toDigits (n : Nat) : width (Nat.toDigits 10 (n % 2 ^ 32)) ≤ 10 := by
  have hone : ∀ c ∈ Nat.toDigits 10 (n % 2 ^ 32), c.utf8Size = 1 := by
    intro c hc
    have hdigit : c.isDigit = true := Nat.isDigit_of_mem_toDigits (by decide) (by decide) hc
    obtain ⟨-, hhi⟩ : 48 ≤ c.toNat ∧ c.toNat ≤ 57 := by
      simpa [Char.isDigit, UInt32.le_iff_toNat_le] using hdigit
    exact utf8Size_of_ascii (by omega)
  have hlength : (Nat.toDigits 10 (n % 2 ^ 32)).length ≤ 10 := by
    rw [Nat.length_toDigits_le_iff (by decide) (by decide)]
    omega
  rw [width, List.map_congr_left hone, List.map_const', List.sum_replicate_nat]
  omega

section Sizes

variable {digest bytesB64 : String} (hdigest : ∀ c ∈ digest.toList, Plain c)
  (hbytes : ∀ c ∈ bytesB64.toList, Plain c)

private theorem width_marks : '{'.utf8Size = 1 ∧ '}'.utf8Size = 1 ∧ ':'.utf8Size = 1 ∧
    ','.utf8Size = 1 ∧ width [] = 0 := by decide

private theorem width_keys : width (Json.quote "digest") = 8 ∧
    width (Json.quote "bytes_b64") = 11 ∧ width (Json.quote "chunk_index") = 13 ∧
      width (Json.quote "total_chunks") = 14 := by decide

include hdigest hbytes

private theorem width_blobMessage (tag : String) :
    width (Json.print (.obj [(tag, .obj [("digest", .str digest), ("bytes_b64", .str bytesB64)])])) =
      width (Json.quote tag) + 31 + digest.toList.length + bytesB64.toList.length := by
  obtain ⟨hopen, hclose, hcolon, hcomma, hnil⟩ := width_marks
  obtain ⟨hkey, hkey', -, -⟩ := width_keys
  simp only [Json.print, Json.printMembers, width_append, width_cons, hkey, hkey',
    width_quote hdigest, width_quote hbytes, hopen, hclose, hcolon, hcomma, hnil]
  omega

private theorem messageSize_storagePut : messageSize (.storagePut digest bytesB64) =
    43 + digest.toList.length + bytesB64.toList.length := by
  have htag : width (Json.quote "StoragePut") = 12 := by decide
  have hwidth := width_blobMessage hdigest hbytes "StoragePut"
  rw [htag] at hwidth
  rw [messageSize, serializeMessage, length_asBytes]
  exact hwidth

private theorem messageSize_storageData : messageSize (.storageData digest bytesB64) =
    44 + digest.toList.length + bytesB64.toList.length := by
  have htag : width (Json.quote "StorageData") = 13 := by decide
  have hwidth := width_blobMessage hdigest hbytes "StorageData"
  rw [htag] at hwidth
  rw [messageSize, serializeMessage, length_asBytes]
  exact hwidth

private theorem messageSize_storagePutChunk_le (i total : Nat) :
    messageSize (.storagePutChunk digest (i % 2 ^ 32) (total % 2 ^ 32) bytesB64) ≤
      99 + digest.toList.length + bytesB64.toList.length := by
  obtain ⟨hopen, hclose, hcolon, hcomma, hnil⟩ := width_marks
  obtain ⟨hkey, hkey', hkey₁, hkey₂⟩ := width_keys
  have htag : width (Json.quote "StoragePutChunk") = 17 := by decide
  have hindex := width_toDigits i
  have htotal := width_toDigits total
  rw [messageSize, serializeMessage, length_asBytes]
  simp only [Command.toJson, Command.payload, Json.print, Json.printMembers, width_append,
    width_cons, htag, hkey, hkey', hkey₁, hkey₂, width_quote hdigest, width_quote hbytes, hopen,
    hclose, hcolon, hcomma, hnil]
  omega

end Sizes

/-! ### What the senders publish -/

section Senders

variable {sha256Hex : Bytes → String} {base64Encode : Bytes → String}
  (hdigest : ∀ bytes, IsDigest (sha256Hex bytes)) (hbase64 : Base64.Standard base64Encode)

private theorem digest_plain {digest : String} (h : IsDigest digest) :
    digest.toList.length = 64 ∧ ∀ c ∈ digest.toList, Plain c := by
  obtain ⟨hlen, hhex⟩ : digest.toList.length = 64 ∧ ∀ c ∈ digest.toList, c ∈ hexDigits := by
    simpa [IsDigest, isDigest] using h
  exact ⟨hlen, fun c hc ↦ plain_of_hexDigits (hhex c hc)⟩

include hbase64

private theorem fits_storagePut_iff {digest : String} (h : IsDigest digest) (bytes : Bytes) :
    FitsTransport (.storagePut digest (base64Encode bytes)) ↔ bytes.length ≤ fittingMax := by
  obtain ⟨hlen, hplain⟩ := digest_plain h
  rw [FitsTransport, messageSize_storagePut hplain fun c hc ↦
    plain_of_base64 (hbase64.chars bytes c hc), hlen, hbase64.length, fittingMax, maxTransmitSize]
  omega

private theorem fits_storageData_iff {digest : String} (h : IsDigest digest) (bytes : Bytes) :
    FitsTransport (.storageData digest (base64Encode bytes)) ↔ bytes.length ≤ fittingMax := by
  obtain ⟨hlen, hplain⟩ := digest_plain h
  rw [FitsTransport, messageSize_storageData hplain fun c hc ↦
    plain_of_base64 (hbase64.chars bytes c hc), hlen, hbase64.length, fittingMax, maxTransmitSize]
  omega

private theorem fits_storagePutChunk {digest : String} (h : IsDigest digest) (i total : Nat)
    {chunk : Bytes} (hchunk : chunk.length ≤ chunkSize) :
    FitsTransport (.storagePutChunk digest (i % 2 ^ 32) (total % 2 ^ 32) (base64Encode chunk)) := by
  obtain ⟨hlen, hplain⟩ := digest_plain h
  have hsize := messageSize_storagePutChunk_le hplain (fun c hc ↦
    plain_of_base64 (hbase64.chars chunk c hc)) i total
  rw [hlen, hbase64.length] at hsize
  rw [chunkSize] at hchunk
  rw [FitsTransport, maxTransmitSize]
  omega

include hdigest

private theorem fits_upload_iff (bytes : Bytes) :
    (∀ m ∈ uploadMessages sha256Hex base64Encode bytes, FitsTransport m) ↔
      bytes.length ≤ fittingMax ∨ uploadMax < bytes.length := by
  unfold uploadMessages
  split
  · next hle =>
    rw [List.forall_mem_singleton, fits_storagePut_iff hbase64 (hdigest bytes)]
    omega
  · next hlarge =>
    constructor
    · intro _
      exact .inr (by omega)
    · intro _ m hm
      obtain ⟨⟨chunk, idx⟩, hmem, rfl⟩ := List.mem_map.mp hm
      have hchunk : chunk ∈ chunks chunkSize bytes := List.fst_mem_of_mem_zipIdx hmem
      exact fits_storagePutChunk hbase64 (hdigest bytes) idx _ (length_le_of_mem_chunks hchunk)

omit hdigest in
private theorem fits_served_iff (base : String) (s : Store) {digest : String} (h : IsDigest digest)
    (input : ServeInput) :
    ∃ out, storageGet base s digest input = some out ∧
      ((∀ m ∈ servedMessages base64Encode out, FitsTransport m) ↔
        ServedSmall base s digest input) := by
  obtain ⟨path, hpath, hplace, -⟩ := pathForDigest_eq_blob base h
  obtain ⟨out, hout, -, hpublished⟩ := storageGet_eq_some s input hpath
  refine ⟨out, hout, ?_⟩
  have hmessages : (∀ m ∈ servedMessages base64Encode out, FitsTransport m) ↔
      ∀ bytes, (readInline base (s.opened base).files digest path input).2 = some bytes →
        bytes.length ≤ fittingMax := by
    rw [servedMessages, hpublished]
    cases (readInline base (s.opened base).files digest path input).2 with
    | none => simp
    | some bytes => simp [fits_storageData_iff hbase64 h]
  rw [hmessages, ServedSmall]
  constructor
  · intro hall hmeta hread bytes hfile
    by_cases hle : bytes.length ≤ inlineMax
    · rw [← hplace, ← lookupDigest_of_isDigest _ h hpath] at hfile
      exact .inl (hall bytes
        ((readInline_bytes_iff _ input bytes hpath).mpr ⟨hmeta, hread, hfile, hle⟩))
    · exact .inr (by omega)
  · intro hsmall bytes hbytes
    obtain ⟨hmeta, hread, hfile, hle⟩ := (readInline_bytes_iff _ input bytes hpath).mp hbytes
    rw [lookupDigest_of_isDigest _ h hpath, hplace] at hfile
    have hone := hsmall hmeta hread bytes hfile
    omega

/-- The messages of the three senders fit the transport exactly when the blob is small enough
to go inline, or large enough to go in chunks, or not at all. -/
theorem messages_fit_iff :
    (∀ bytes, (∀ m ∈ uploadMessages sha256Hex base64Encode bytes, FitsTransport m) ↔
      bytes.length ≤ fittingMax ∨ uploadMax < bytes.length) ∧
    (∀ bytes, (∀ m ∈ webUploadMessages sha256Hex base64Encode bytes, FitsTransport m) ↔
      bytes.length ≤ fittingMax) ∧
    ∀ base s digest input, IsDigest digest →
      ∃ out, storageGet base s digest input = some out ∧
        ((∀ m ∈ servedMessages base64Encode out, FitsTransport m) ↔
          ServedSmall base s digest input) := by
  refine ⟨fits_upload_iff hdigest hbase64, ?_, ?_⟩
  · intro bytes
    rw [webUploadMessages, List.forall_mem_singleton, fits_storagePut_iff hbase64 (hdigest bytes)]
  · intro base s digest input h
    exact fits_served_iff hbase64 base s h input

end Senders

-- The digest of the bytes `hi`, for all bytes.
private def hiDigest (_ : Bytes) : String :=
  "8f434346648f6b96df89dda901c5176b10a6d83961dd3c1ac88b59b2dc327aa4"

private theorem isDigest_hiDigest (bytes : Bytes) : IsDigest (hiDigest bytes) := by
  change IsDigest "8f434346648f6b96df89dda901c5176b10a6d83961dd3c1ac88b59b2dc327aa4"
  decide

/-- The message of two bytes fits. -/
theorem messages_fit_iff_hi :
    uploadMessages hiDigest Base64.encode (asBytes "hi") = [.storagePut
      "8f434346648f6b96df89dda901c5176b10a6d83961dd3c1ac88b59b2dc327aa4" "aGk="] ∧
      ∀ m ∈ uploadMessages hiDigest Base64.encode (asBytes "hi"), FitsTransport m := by
  have hlen : (asBytes "hi").length = 2 := by decide
  constructor
  · decide
  · apply ((messages_fit_iff isDigest_hiDigest Base64.standard_encode).1 (asBytes "hi")).mpr
    exact .inl (by rw [hlen]; decide)

/-- An asset of eight MiB goes out in one message, which is too large. -/
theorem eight_mib_unsent :
    ¬ ∀ (sha256Hex base64Encode : Bytes → String), (∀ bytes, IsDigest (sha256Hex bytes)) →
      Base64.Standard base64Encode →
        ∀ bytes, ∀ m ∈ uploadMessages sha256Hex base64Encode bytes, FitsTransport m := by
  intro h
  have hlen : (List.replicate uploadMax (0 : UInt8)).length = uploadMax := List.length_replicate
  have hfits := (fits_upload_iff isDigest_hiDigest Base64.standard_encode _).mp
    (h hiDigest Base64.encode isDigest_hiDigest Base64.standard_encode
      (List.replicate uploadMax 0))
  rw [hlen, uploadMax, fittingMax, maxTransmitSize] at hfits
  omega

end PeerDeploy.Storage
