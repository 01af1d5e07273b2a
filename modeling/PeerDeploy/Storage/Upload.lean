import PeerDeploy.Base.Slices
import PeerDeploy.Storage.Chunks

/-!
# Uploading a blob in chunks

The sender of `StoragePutChunk` messages (`crates/agent/src/cmd/job.rs:68–95`) and what a node
has stored after any of these messages, in any order and any number of times. The counters
of the sender are `u32`; their arithmetic wraps, as in a release build.
-/

namespace PeerDeploy.Storage

open PeerDeploy.Common PeerDeploy.Base

/-- Larger byte strings are sent in chunks; `crates/agent/src/cmd/job.rs:68`. -/
def uploadMax : Nat := 8 * 1024 * 1024

/-- `crates/agent/src/cmd/job.rs:79`. -/
def chunkSize : Nat := 6 * 1024 * 1024

/-- The number of chunks, as a `u32`; `crates/agent/src/cmd/job.rs:81`. -/
def totalChunks (bytes : Bytes) : Nat := (bytes.length + chunkSize - 1) / chunkSize % 2 ^ 32

/-- The messages that `submit_job` publishes for the bytes of an asset;
`crates/agent/src/cmd/job.rs:68–95`. -/
def uploadMessages (sha256Hex : Bytes → String) (base64Encode : Bytes → String) (bytes : Bytes) :
    List Command :=
  let digest := sha256Hex bytes
  if bytes.length ≤ uploadMax then [.storagePut digest (base64Encode bytes)]
  else (chunks chunkSize bytes).zipIdx.map fun (chunk, idx) ↦
    .storagePutChunk digest (idx % 2 ^ 32) (totalChunks bytes) (base64Encode chunk)

/-- The node handles a command at a time; the commands about other things are left out. -/
def BlobNode.receive (h : BlobHost) (n : BlobNode) (command : Command) (now : Nat) : BlobNode :=
  match command with
  | .storagePut digest bytesB64 => n.storagePut h digest bytesB64 now
  | .storagePutChunk digest chunkIndex totalChunks bytesB64 =>
    n.storagePutChunk h digest chunkIndex totalChunks bytesB64 now
  | _ => n

/-- The handling of a command as a step. -/
def receiveStep (h : BlobHost) (n : BlobNode) (delivery : Command × Nat) : Option BlobNode :=
  some (n.receive h delivery.1 delivery.2)

/-! ### The slots of one blob -/

/-- The slots of a buffer for some parts. -/
def slots (parts : List Bytes) (buf : Option ChunkBuf) : List Bytes :=
  (buf.getD (.empty parts.length)).chunks

/-- How far a blob has come: which of its parts lie in the buffer, and which have ever come. -/
structure Gathers (parts : List Bytes) (buf : Option ChunkBuf) (stored : Prop) (came : Nat → Prop) :
    Prop where
  incomplete : ∀ b, buf = some b → b.complete = false
  length : (slots parts buf).length = parts.length
  slot : ∀ (i : Nat) (part : Bytes), parts[i]? = some part →
    (slots parts buf)[i]? = some [] ∨ (slots parts buf)[i]? = some part
  filled : ¬ stored → ∀ (i : Nat) (part : Bytes), parts[i]? = some part →
    ((slots parts buf)[i]? = some part ↔ came i)
  all : stored → ∀ i, i < parts.length → came i

section Slots

variable {parts : List Bytes} {buf : Option ChunkBuf} {stored : Prop} {came : Nat → Prop}

private theorem slots_none (parts : List Bytes) : slots parts none = List.replicate parts.length [] :=
  rfl

private theorem gathers_none (hparts : ∀ part ∈ parts, part ≠ [])
    (hcame : ¬ stored → ∀ i, ¬ came i) (hall : stored → ∀ i, i < parts.length → came i) :
    Gathers parts none stored came where
  incomplete b hb := by cases hb
  length := by rw [slots_none, List.length_replicate]
  slot i part hpart := by
    have hlt : i < parts.length := (List.getElem?_eq_some_iff.mp hpart).1
    rw [slots_none, List.getElem?_replicate, if_pos hlt]
    exact .inl rfl
  filled hstored i part hpart := by
    have hlt : i < parts.length := (List.getElem?_eq_some_iff.mp hpart).1
    have hne : part ≠ [] := hparts part (List.mem_of_getElem? hpart)
    rw [slots_none, List.getElem?_replicate, if_pos hlt]
    constructor
    · intro he
      exact absurd (Option.some.inj he).symm hne
    · intro hc
      exact absurd hc (hcame hstored i)
  all := hall

private theorem slots_fill (hgathers : Gathers parts buf stored came) {i : Nat} {part : Bytes}
    (hpart : parts[i]? = some part) :
    slots parts (some ((buf.getD (.empty parts.length)).fill i parts.length part)) =
      (slots parts buf).set i part := by
  have hlt : i < (slots parts buf).length := by
    rw [hgathers.length]
    exact (List.getElem?_eq_some_iff.mp hpart).1
  change (if i < (slots parts buf).length then (slots parts buf).set i part else slots parts buf) = _
  rw [if_pos hlt]

private theorem slot_fill (hgathers : Gathers parts buf stored came) {i : Nat} {part : Bytes}
    (hpart : parts[i]? = some part) {j : Nat} {other : Bytes} (hother : parts[j]? = some other) :
    ((slots parts buf).set i part)[j]? = if i = j then some other else (slots parts buf)[j]? := by
  rw [List.getElem?_set]
  split
  · next heq =>
    subst heq
    rw [hpart] at hother
    cases hother
    rw [if_pos (by rw [hgathers.length]; exact (List.getElem?_eq_some_iff.mp hpart).1)]
  · rfl

private theorem slots_of_complete (hparts : ∀ part ∈ parts, part ≠ []) {b : ChunkBuf}
    (hlength : b.chunks.length = parts.length)
    (hslot : ∀ (i : Nat) (part : Bytes), parts[i]? = some part →
      b.chunks[i]? = some [] ∨ b.chunks[i]? = some part) :
    b.complete = true ↔ b.chunks = parts := by
  constructor
  · intro hcomplete
    apply List.ext_getElem?
    intro i
    cases hpart : parts[i]? with
    | none =>
      rw [List.getElem?_eq_none_iff] at hpart ⊢
      omega
    | some part =>
      rcases hslot i part hpart with hempty | hfull
      · have hin : [] ∈ b.chunks := List.mem_of_getElem? hempty
        have := List.all_eq_true.mp hcomplete [] hin
        cases this
      · exact hfull
  · intro heq
    rw [ChunkBuf.complete, List.all_eq_true, heq]
    intro part hin
    simpa using hparts part hin

private theorem gathers_fill (hparts : ∀ part ∈ parts, part ≠ [])
    (hgathers : Gathers parts buf stored came) {i : Nat} {part : Bytes}
    (hpart : parts[i]? = some part) :
    let b := (buf.getD (.empty parts.length)).fill i parts.length part
    (b.complete = true → b.chunks = parts ∧ ∀ j, j < parts.length → j = i ∨ came j) ∧
      (b.complete = false → Gathers parts (some b) stored fun j ↦ j = i ∨ came j) := by
  intro b
  have hfill : b.chunks = (slots parts buf).set i part := slots_fill hgathers hpart
  have hlength : b.chunks.length = parts.length := by
    rw [hfill, List.length_set, hgathers.length]
  have hslot : ∀ (j : Nat) (other : Bytes), parts[j]? = some other →
      b.chunks[j]? = some [] ∨ b.chunks[j]? = some other := by
    intro j other hother
    rw [hfill, slot_fill hgathers hpart hother]
    split
    · exact .inr rfl
    · exact hgathers.slot j other hother
  constructor
  · intro hcomplete
    have hchunks := (slots_of_complete hparts hlength hslot).mp hcomplete
    refine ⟨hchunks, ?_⟩
    intro j hj
    by_cases hstored : stored
    · exact .inr (hgathers.all hstored j hj)
    · by_cases heq : j = i
      · exact .inl heq
      · have hother : parts[j]? = some parts[j] := List.getElem?_eq_getElem hj
        have hat := slot_fill hgathers hpart hother
        rw [← hfill, hchunks, if_neg (Ne.symm heq), hother] at hat
        exact .inr ((hgathers.filled hstored j _ hother).mp hat.symm)
  · intro hincomplete
    constructor
    case incomplete =>
      intro b' hb'
      cases hb'
      exact hincomplete
    case length => exact hlength
    case slot => exact hslot
    case filled =>
      intro hstored j other hother
      change b.chunks[j]? = some other ↔ _
      rw [hfill, slot_fill hgathers hpart hother]
      split
      · next heq => simp [heq]
      · next hne =>
        rw [hgathers.filled hstored j other hother]
        simp [Ne.symm hne]
    case all =>
      intro hstored j hj
      exact .inr (hgathers.all hstored j hj)

private theorem Gathers.congr {stored' : Prop} {came' : Nat → Prop}
    (hgathers : Gathers parts buf stored came) (hstored : stored ↔ stored')
    (hcame : ∀ i, i < parts.length → (came i ↔ came' i)) : Gathers parts buf stored' came' where
  incomplete := hgathers.incomplete
  length := hgathers.length
  slot := hgathers.slot
  filled hnot i part hpart := by
    rw [hgathers.filled (fun hs ↦ hnot (hstored.mp hs)) i part hpart]
    exact hcame i (List.getElem?_eq_some_iff.mp hpart).1
  all hs i hi := (hcame i hi).mp (hgathers.all (hstored.mpr hs) i hi)

private theorem gathers_iff (hparts : ∀ part ∈ parts, part ≠ []) (hne : parts ≠ [])
    (hgathers : Gathers parts buf stored came) : stored ↔ ∀ i, i < parts.length → came i := by
  constructor
  · exact hgathers.all
  · intro hall
    apply Classical.byContradiction
    intro hstored
    have hfull (i : Nat) (part : Bytes) (hpart : parts[i]? = some part) :
        (slots parts buf)[i]? = some part :=
      (hgathers.filled hstored i part hpart).mpr (hall i (List.getElem?_eq_some_iff.mp hpart).1)
    cases buf with
    | none =>
      have hpos : 0 < parts.length := List.length_pos_iff.mpr hne
      have hfirst : parts[0]? = some parts[0] := List.getElem?_eq_getElem hpos
      have hempty := hfull 0 _ hfirst
      rw [slots_none, List.getElem?_replicate, if_pos hpos] at hempty
      exact hparts _ (List.getElem_mem hpos) (Option.some.inj hempty).symm
    | some b =>
      have hchunks : b.chunks = parts := by
        apply List.ext_getElem?
        intro i
        cases hpart : parts[i]? with
        | none =>
          have hlength : b.chunks.length = parts.length := hgathers.length
          rw [List.getElem?_eq_none_iff] at hpart ⊢
          omega
        | some part => exact hfull i part hpart
      have hcomplete : b.complete = true :=
        (slots_of_complete hparts hgathers.length hgathers.slot).mpr hchunks
      rw [hgathers.incomplete b rfl] at hcomplete
      cases hcomplete

end Slots

/-! ### Any blobs, any messages -/

/-- The message with the chunk of the given number. -/
def chunkMessage (sha256Hex base64Encode : Bytes → String) (blob : Bytes) (i : Nat) : Command :=
  .storagePutChunk (sha256Hex blob) (i % 2 ^ 32) (totalChunks blob)
    (base64Encode ((chunks chunkSize blob)[i]?.getD []))

/-- The messages of a large blob are those with its chunks. -/
theorem mem_uploadMessages {sha256Hex base64Encode : Bytes → String} {blob : Bytes}
    (hlarge : uploadMax < blob.length) (m : Command) :
    m ∈ uploadMessages sha256Hex base64Encode blob ↔
      ∃ i, i < (chunks chunkSize blob).length ∧ m = chunkMessage sha256Hex base64Encode blob i := by
  unfold uploadMessages
  rw [if_neg (by omega), List.mem_map]
  constructor
  · rintro ⟨⟨chunk, i⟩, hin, rfl⟩
    have hchunk := List.mem_zipIdx_iff_getElem?.mp hin
    refine ⟨i, (List.getElem?_eq_some_iff.mp hchunk).1, ?_⟩
    simp only [chunkMessage, hchunk, Option.getD_some]
  · rintro ⟨i, hi, rfl⟩
    have hchunk : (chunks chunkSize blob)[i]? = some (chunks chunkSize blob)[i] :=
      List.getElem?_eq_getElem hi
    refine ⟨((chunks chunkSize blob)[i], i), List.mem_zipIdx_iff_getElem?.mpr hchunk, ?_⟩
    simp only [chunkMessage, hchunk, Option.getD_some]

/-- At most `2 ^ 32 - 1` chunks, so that the counters of the sender do not wrap. -/
def Counted (blob : Bytes) : Prop := blob.length ≤ (2 ^ 32 - 1) * chunkSize

/-- That many chunks are counted rightly. -/
theorem length_chunks_lt_iff (blob : Bytes) :
    (chunks chunkSize blob).length < 2 ^ 32 ↔ Counted blob := by
  rw [length_chunks (by decide), Counted, chunkSize]
  omega

section Delivery

variable {h : BlobHost} {base64Encode : Bytes → String} {blobs : List Bytes}

/-- A node that has received some messages: what it has stored and what it has gathered. -/
structure Progress (h : BlobHost) (base64Encode : Bytes → String) (blobs : List Bytes)
    (n : BlobNode) (seen : List (Command × Nat)) : Prop where
  agrees : Agrees h.sha256Hex h.base n.stored n.store
  clear : Clear h.base n.store.files
  known : ∀ bytes ∈ n.stored, bytes ∈ blobs
  listed : ∀ bytes ∈ n.stored, n.store.index.contains (h.sha256Hex bytes) = true
  gathers : ∀ blob ∈ blobs, Gathers (chunks chunkSize blob) n.chunkBufs[h.sha256Hex blob]?
    (blob ∈ n.stored)
    fun i ↦ chunkMessage h.sha256Hex base64Encode blob i ∈ seen.map Prod.fst

/-- Nothing but the blob itself has the digest of a blob that is uploaded. -/
def Distinct (sha256Hex : Bytes → String) (blobs : List Bytes) : Prop :=
  ∀ blob ∈ blobs, ∀ bytes, sha256Hex bytes = sha256Hex blob → bytes = blob

/-- The chunks of the blobs survive their encoding. -/
def Decodes (h : BlobHost) (base64Encode : Bytes → String) (blobs : List Bytes) : Prop :=
  ∀ blob ∈ blobs, ∀ part ∈ chunks chunkSize blob, h.base64Decode (base64Encode part) = .ok part

private theorem putBytes_blob (hsha : ∀ bytes, IsDigest (h.sha256Hex bytes))
    (hdistinct : Distinct h.sha256Hex blobs) {n : BlobNode}
    (hagrees : Agrees h.sha256Hex h.base n.stored n.store) (hclear : Clear h.base n.store.files)
    (hknown : ∀ bytes ∈ n.stored, bytes ∈ blobs) {blob : Bytes} (hblob : blob ∈ blobs)
    (now : Nat) :
    ∃ store, n.putBytes h blob now = { n with store, stored := blob :: n.stored } ∧
      Agrees h.sha256Hex h.base (blob :: n.stored) store ∧ Clear h.base store.files ∧
      ∀ digest, store.index.contains digest = true ↔
        h.sha256Hex blob = digest ∨ n.store.index.contains digest = true := by
  have hfree : CollisionFree h.sha256Hex (blob :: n.stored) := by
    intro x _ y hy hxy
    have hin : y ∈ blobs := by
      rcases List.mem_cons.mp hy with rfl | hy
      · exact hblob
      · exact hknown y hy
    exact hdistinct y hin x hxy
  obtain ⟨store, hput, hclear', hindex⟩ :=
    hagrees.opened.stores hsha (clear_opened hclear) hfree now
  refine ⟨store, ?_, hagrees.opened.putBytes hsha hfree hput, hclear', hindex⟩
  simp only [BlobNode.putBytes, hput]

private theorem chunks_nonempty (blob : Bytes) : ∀ part ∈ chunks chunkSize blob, part ≠ [] :=
  fun _ hpart ↦ ne_nil_of_mem_chunks hpart

private theorem chunkMessage_inj {blob : Bytes} (hcounted : Counted blob) {i j : Nat}
    (hi : i < (chunks chunkSize blob).length) (hj : j < (chunks chunkSize blob).length)
    (heq : chunkMessage h.sha256Hex base64Encode blob j =
      chunkMessage h.sha256Hex base64Encode blob i) : j = i := by
  have hlt := (length_chunks_lt_iff blob).mpr hcounted
  simp only [chunkMessage, Command.storagePutChunk.injEq] at heq
  rw [Nat.mod_eq_of_lt (by omega), Nat.mod_eq_of_lt (by omega)] at heq
  exact heq.2.1

private theorem chunkMessage_ne (hdistinct : Distinct h.sha256Hex blobs) {blob other : Bytes}
    (hblob : blob ∈ blobs) (hne : other ≠ blob) (i j : Nat) :
    chunkMessage h.sha256Hex base64Encode other j ≠ chunkMessage h.sha256Hex base64Encode blob i := by
  intro heq
  simp only [chunkMessage, Command.storagePutChunk.injEq] at heq
  exact hne (hdistinct blob hblob other heq.1)

private theorem receive_chunkMessage {blob part : Bytes}
    (hcodec : h.base64Decode (base64Encode part) = .ok part) (hcounted : Counted blob) {i : Nat}
    (hpart : (chunks chunkSize blob)[i]? = some part)
    (n : BlobNode) (now : Nat) :
    n.receive h (chunkMessage h.sha256Hex base64Encode blob i) now =
      let buf := (n.chunkBufs[h.sha256Hex blob]?.getD (.empty (chunks chunkSize blob).length)).fill
        i (chunks chunkSize blob).length part
      if buf.complete then
        BlobNode.accept h { n with chunkBufs := n.chunkBufs.erase (h.sha256Hex blob) }
          (h.sha256Hex blob) buf.chunks.flatten now
      else { n with chunkBufs := n.chunkBufs.insert (h.sha256Hex blob) buf } := by
  have hlt := (length_chunks_lt_iff blob).mpr hcounted
  have hi : i < (chunks chunkSize blob).length := (List.getElem?_eq_some_iff.mp hpart).1
  have htotal : totalChunks blob = (chunks chunkSize blob).length := by
    rw [totalChunks, ← length_chunks (by decide), Nat.mod_eq_of_lt hlt]
  have hindex : i % 2 ^ 32 = i := Nat.mod_eq_of_lt (by omega)
  simp only [BlobNode.receive, chunkMessage, BlobNode.storagePutChunk, hpart, Option.getD_some,
    hcodec, hindex, htotal, fileChunk]
  split
  · next hfile =>
    split at hfile
    · cases hfile
    · next hbuf =>
      cases hfile
      rw [if_neg hbuf]
  · next hfile =>
    split at hfile
    · next hbuf =>
      cases hfile
      rw [if_pos hbuf]
    · cases hfile

private theorem progress_receive (hsha : ∀ bytes, IsDigest (h.sha256Hex bytes))
    (hcodec : Decodes h base64Encode blobs)
    (hdistinct : Distinct h.sha256Hex blobs) (hcounted : ∀ blob ∈ blobs, Counted blob)
    {n : BlobNode} {seen : List (Command × Nat)} (hn : Progress h base64Encode blobs n seen)
    {blob : Bytes} (hblob : blob ∈ blobs) {i : Nat} (hi : i < (chunks chunkSize blob).length)
    (now : Nat) :
    Progress h base64Encode blobs
      (n.receive h (chunkMessage h.sha256Hex base64Encode blob i) now)
      (seen ++ [(chunkMessage h.sha256Hex base64Encode blob i, now)]) := by
  have hpart : (chunks chunkSize blob)[i]? = some (chunks chunkSize blob)[i] :=
    List.getElem?_eq_getElem hi
  have hseen (m : Command) :
      m ∈ (seen ++ [(chunkMessage h.sha256Hex base64Encode blob i, now)]).map Prod.fst ↔
        m = chunkMessage h.sha256Hex base64Encode blob i ∨ m ∈ seen.map Prod.fst := by
    rw [List.map_append, List.mem_append, or_comm]
    simp
  have hcame (j : Nat) (hj : j < (chunks chunkSize blob).length) :
      (j = i ∨ chunkMessage h.sha256Hex base64Encode blob j ∈ seen.map Prod.fst) ↔
        chunkMessage h.sha256Hex base64Encode blob j ∈
          (seen ++ [(chunkMessage h.sha256Hex base64Encode blob i, now)]).map Prod.fst := by
    rw [hseen]
    constructor
    · rintro (rfl | hold)
      · exact .inl rfl
      · exact .inr hold
    · rintro (heq | hold)
      · exact .inl (chunkMessage_inj (hcounted blob hblob) hi hj heq)
      · exact .inr hold
  -- the buffers of the other blobs, and what has come of them, stay as they are
  have hothers {bufs : ChunkBufs} {stored : List Bytes}
      (hbufs : ∀ digest, h.sha256Hex blob ≠ digest → bufs[digest]? = n.chunkBufs[digest]?)
      (hstored : ∀ other, other ≠ blob → (other ∈ n.stored ↔ other ∈ stored))
      {other : Bytes} (hother : other ∈ blobs) (hne : other ≠ blob) :
      Gathers (chunks chunkSize other) bufs[h.sha256Hex other]? (other ∈ stored) fun j ↦
        chunkMessage h.sha256Hex base64Encode other j ∈
          (seen ++ [(chunkMessage h.sha256Hex base64Encode blob i, now)]).map Prod.fst := by
    rw [hbufs _ fun heq ↦ hne (hdistinct blob hblob other heq.symm)]
    apply (hn.gathers other hother).congr (hstored other hne)
    intro j _
    rw [hseen]
    simp [chunkMessage_ne hdistinct hblob hne i j]
  obtain ⟨hfull, hmore⟩ := gathers_fill (chunks_nonempty blob) (hn.gathers blob hblob) hpart
  rw [receive_chunkMessage (hcodec blob hblob _ (List.getElem_mem hi)) (hcounted blob hblob) hpart]
  simp only
  split
  · next hcomplete =>
    obtain ⟨hchunks, hall⟩ := hfull hcomplete
    have hwhole : (chunks chunkSize blob).flatten = blob := flatten_chunks (by decide) blob
    rw [hchunks, hwhole, BlobNode.accept, if_pos rfl]
    obtain ⟨store, hput, hagrees, hclear, hindex⟩ := putBytes_blob hsha hdistinct
      (n := { n with chunkBufs := n.chunkBufs.erase (h.sha256Hex blob) })
      hn.agrees hn.clear hn.known hblob now
    rw [hput]
    constructor
    case agrees => exact hagrees
    case clear => exact hclear
    case known =>
      intro bytes hbytes
      rcases List.mem_cons.mp hbytes with rfl | hbytes
      · exact hblob
      · exact hn.known bytes hbytes
    case listed =>
      intro bytes hbytes
      refine (hindex _).mpr ?_
      rcases List.mem_cons.mp hbytes with rfl | hbytes
      · exact .inl rfl
      · exact .inr (hn.listed bytes hbytes)
    case gathers =>
      intro other hother
      change Gathers _ (n.chunkBufs.erase (h.sha256Hex blob))[h.sha256Hex other]?
        (other ∈ blob :: n.stored) _
      by_cases heq : other = blob
      · subst heq
        rw [Table.getElem?_erase, if_pos rfl]
        apply gathers_none (chunks_nonempty other)
        · intro hnot
          exact absurd List.mem_cons_self hnot
        · intro _ j hj
          exact (hcame j hj).mp (hall j hj)
      · apply hothers _ _ hother heq
        · intro digest hne
          rw [Table.getElem?_erase, if_neg hne]
        · intro bytes hne
          simp [hne]
  · next hincomplete =>
    constructor
    case agrees => exact hn.agrees
    case clear => exact hn.clear
    case known => exact hn.known
    case listed => exact hn.listed
    case gathers =>
      intro other hother
      change Gathers _ (n.chunkBufs.insert (h.sha256Hex blob) _)[h.sha256Hex other]? _ _
      by_cases heq : other = blob
      · subst heq
        rw [Table.getElem?_insert, if_pos rfl]
        exact (hmore (by simpa using hincomplete)).congr Iff.rfl hcame
      · apply hothers _ _ hother heq
        · intro digest hne
          rw [Table.getElem?_insert, if_neg hne]
        · intro bytes _
          exact Iff.rfl

/-- The blobs that the node has are those whose messages have all come, byte for byte. -/
def DeliversExactly (h : BlobHost) (base64Encode : Bytes → String) (blobs : List Bytes)
    (delivered : List (Command × Nat)) (n : BlobNode) : Prop :=
  (∀ blob ∈ blobs, n.store.has h.base (h.sha256Hex blob) = some true ↔
    ∀ m ∈ uploadMessages h.sha256Hex base64Encode blob, m ∈ delivered.map Prod.fst) ∧
  ∀ place bytes, BlobFile h.base n.store.files place bytes →
    bytes ∈ blobs ∧ place = blobPlace h.base (h.sha256Hex bytes)

/-- Nothing is delivered but messages of the blobs. -/
def FromUploads (h : BlobHost) (base64Encode : Bytes → String) (blobs : List Bytes)
    (delivered : List (Command × Nat)) : Prop :=
  ∀ delivery ∈ delivered, ∃ blob ∈ blobs,
    delivery.1 ∈ uploadMessages h.sha256Hex base64Encode blob

private theorem has_iff {base digest : String} (hdigest : IsDigest digest) (s : Store) :
    s.has base digest = some true ↔ ∃ found, s.files[blobPlace base digest]? = some found := by
  obtain ⟨path, hpath, hplace, -⟩ := pathForDigest_eq_blob base hdigest
  rw [Store.has, hpath, lookupDigest_of_isDigest s.files hdigest hpath, hplace, Option.map_some,
    Option.some.injEq, Option.isSome_iff_exists]

private theorem has_iff_stored (hsha : ∀ bytes, IsDigest (h.sha256Hex bytes))
    (hdistinct : Distinct h.sha256Hex blobs) {n : BlobNode} {seen : List (Command × Nat)}
    (hn : Progress h base64Encode blobs n seen) {blob : Bytes} (hblob : blob ∈ blobs) :
    n.store.has h.base (h.sha256Hex blob) = some true ↔ blob ∈ n.stored := by
  rw [has_iff (hsha blob)]
  constructor
  · rintro ⟨found, hfound⟩
    rcases hn.agrees.below _ found (below_blobPlace _ _) hfound with ⟨-, hlt⟩ | ⟨d, e, he, hplace⟩
    · rw [length_blobPlace] at hlt
      omega
    · rw [← blobPlace_inj hplace] at he
      obtain ⟨bytes, hin, hbytes, -⟩ := hn.agrees.blob _ e he
      rwa [hdistinct blob hblob bytes hbytes] at hin
  · intro hstored
    have hlisted := hn.listed blob hstored
    rw [Std.ExtTreeMap.contains_eq_isSome_getElem?, Option.isSome_iff_exists] at hlisted
    obtain ⟨entry, hentry⟩ := hlisted
    obtain ⟨bytes, -, -, -, hat⟩ := hn.agrees.blob _ entry hentry
    exact ⟨_, hat⟩

private theorem delivers_of_progress (hsha : ∀ bytes, IsDigest (h.sha256Hex bytes))
    (hdistinct : Distinct h.sha256Hex blobs) (hlarge : ∀ blob ∈ blobs, uploadMax < blob.length)
    {n : BlobNode} {seen : List (Command × Nat)} (hn : Progress h base64Encode blobs n seen) :
    DeliversExactly h base64Encode blobs seen n := by
  constructor
  · intro blob hblob
    have hne : chunks chunkSize blob ≠ [] := by
      intro hnil
      have hwhole : (chunks chunkSize blob).flatten = blob := flatten_chunks (by decide) blob
      rw [hnil] at hwhole
      have hlt := hlarge blob hblob
      rw [← hwhole] at hlt
      simp at hlt
    rw [has_iff_stored hsha hdistinct hn hblob,
      gathers_iff (chunks_nonempty blob) hne (hn.gathers blob hblob)]
    constructor
    · intro hall m hm
      obtain ⟨i, hi, rfl⟩ := (mem_uploadMessages (hlarge blob hblob) m).mp hm
      exact hall i hi
    · intro hall i hi
      exact hall _ ((mem_uploadMessages (hlarge blob hblob) _).mpr ⟨i, hi, rfl⟩)
  · intro place bytes hfile
    obtain ⟨entry, -, hplace, -, hin⟩ := hn.agrees.file hfile
    exact ⟨hn.known bytes hin, hplace⟩

/-! ### Counters that wrap -/

private theorem length_flatten_le {parts : List Bytes} {bound : Nat}
    (hparts : ∀ part ∈ parts, part.length ≤ bound) :
    parts.flatten.length ≤ parts.length * bound := by
  induction parts with
  | nil => simp
  | cons part rest ih =>
    have hfirst := hparts part List.mem_cons_self
    have hrest := ih fun p hp ↦ hparts p (List.mem_cons_of_mem part hp)
    rw [List.flatten_cons, List.length_append, List.length_cons, Nat.succ_mul]
    omega

/-- The store is untouched, and a buffer of the blob has as many slots as the messages say,
none larger than a chunk. -/
def Stray (h : BlobHost) (s : Store) (blob : Bytes) (n : BlobNode) : Prop :=
  n.store = s ∧ ∀ buf, n.chunkBufs[h.sha256Hex blob]? = some buf →
    buf.chunks.length = totalChunks blob ∧ ∀ chunk ∈ buf.chunks, chunk.length ≤ chunkSize

-- What is put together of a blob with too many chunks is never the blob.
private theorem stray_receive
    (hcodec : Decodes h base64Encode blobs)
    (hdistinct : Distinct h.sha256Hex blobs) {s : Store} {blob : Bytes} (hblob : blob ∈ blobs)
    (hwraps : ¬ Counted blob) {n : BlobNode} (hn : Stray h s blob n) {i : Nat}
    (hi : i < (chunks chunkSize blob).length) (now : Nat) :
    Stray h s blob (n.receive h (chunkMessage h.sha256Hex base64Encode blob i) now) := by
  have hpart : (chunks chunkSize blob)[i]? = some (chunks chunkSize blob)[i] :=
    List.getElem?_eq_getElem hi
  have hlen := length_le_of_mem_chunks (List.getElem_mem hi)
  have hdecode := hcodec blob hblob _ (List.getElem_mem hi)
  simp only [BlobNode.receive, chunkMessage, BlobNode.storagePutChunk, hpart, Option.getD_some,
    hdecode, fileChunk]
  generalize hbuf : (n.chunkBufs[h.sha256Hex blob]?.getD (.empty (totalChunks blob))).fill
    (i % 2 ^ 32) (totalChunks blob) (chunks chunkSize blob)[i] = buf
  have hold : ∀ b, b = n.chunkBufs[h.sha256Hex blob]?.getD (.empty (totalChunks blob)) →
      b.chunks.length = totalChunks blob ∧ ∀ chunk ∈ b.chunks, chunk.length ≤ chunkSize := by
    rintro b rfl
    cases hfound : n.chunkBufs[h.sha256Hex blob]? with
    | none => simp [ChunkBuf.empty]
    | some found => exact hn.2 found hfound
  have hslots : buf.chunks.length = totalChunks blob ∧
      ∀ chunk ∈ buf.chunks, chunk.length ≤ chunkSize := by
    obtain ⟨hlength, hsmall⟩ := hold _ rfl
    rw [← hbuf]
    simp only [ChunkBuf.fill]
    split
    · refine ⟨by rw [List.length_set, hlength], ?_⟩
      intro chunk hin
      rcases List.mem_or_eq_of_mem_set hin with hin | rfl
      · exact hsmall chunk hin
      · exact hlen
    · exact ⟨hlength, hsmall⟩
  have hshort : buf.chunks.flatten ≠ blob := by
    intro heq
    have hle := length_flatten_le hslots.2
    have hlt : totalChunks blob < 2 ^ 32 := Nat.mod_lt _ (by decide)
    rw [heq, hslots.1] at hle
    apply hwraps
    calc blob.length ≤ totalChunks blob * chunkSize := hle
      _ ≤ (2 ^ 32 - 1) * chunkSize := Nat.mul_le_mul_right chunkSize (by omega)
  have hdigest : h.sha256Hex buf.chunks.flatten ≠ h.sha256Hex blob :=
    fun heq ↦ hshort (hdistinct blob hblob _ heq)
  split
  · next hfile =>
    split at hfile
    · cases hfile
    · cases hfile
      refine ⟨hn.1, ?_⟩
      intro b hb
      rw [Table.getElem?_insert, if_pos rfl] at hb
      cases hb
      exact hslots
  · next hfile =>
    split at hfile
    · cases hfile
      rw [BlobNode.accept, if_neg hdigest]
      refine ⟨hn.1, ?_⟩
      intro b hb
      rw [Table.getElem?_erase, if_pos rfl] at hb
      cases hb
    · cases hfile

private theorem store_of_wrapped
    (hcodec : Decodes h base64Encode blobs)
    (hdistinct : Distinct h.sha256Hex blobs) {s : Store} {blob : Bytes} (hblob : blob ∈ blobs)
    (hlarge : uploadMax < blob.length) (hwraps : ¬ Counted blob) {n : BlobNode}
    (hrun : run (receiveStep h) { store := s }
      ((uploadMessages h.sha256Hex base64Encode blob).map fun m ↦ (m, 0)) = some n) :
    n.store = s := by
  have hstart : Stray h s blob { store := s } := ⟨rfl, fun buf hbuf ↦ by simp at hbuf⟩
  have hmeets : StepsMeet (receiveStep h)
      (fun _ delivery ↦ delivery.1 ∈ uploadMessages h.sha256Hex base64Encode blob) { store := s }
      ((uploadMessages h.sha256Hex base64Encode blob).map fun m ↦ (m, 0)) := by
    apply stepsMeet_of_forall
    intro delivery hin
    obtain ⟨m, hm, rfl⟩ := List.mem_map.mp hin
    exact hm
  refine (run_invariant ?_ hstart hmeets hrun).1
  intro n delivery t hn hm ht
  cases ht
  obtain ⟨i, hi, heq⟩ := (mem_uploadMessages hlarge _).mp hm
  rw [heq]
  exact stray_receive hcodec hdistinct hblob hwraps hn hi delivery.2

-- If uploads of the blobs are always delivered, the counters of none of them wrap.
private theorem counted_of_delivers (hsha : ∀ bytes, IsDigest (h.sha256Hex bytes)) {s : Store}
    (hempty : EmptyStore h.base s) (hlarge : ∀ blob ∈ blobs, uploadMax < blob.length)
    (hdistinct : Distinct h.sha256Hex blobs) (hcodec : Decodes h base64Encode blobs)
    (hdelivers : ∀ delivered n, FromUploads h base64Encode blobs delivered →
      run (receiveStep h) { store := s } delivered = some n →
        DeliversExactly h base64Encode blobs delivered n) {blob : Bytes} (hblob : blob ∈ blobs) :
    Counted blob := by
  apply Classical.byContradiction
  intro hwraps
  obtain ⟨n, hrun⟩ : ∃ n, run (receiveStep h) { store := s }
      ((uploadMessages h.sha256Hex base64Encode blob).map fun m ↦ (m, 0)) = some n :=
    run_total (fun n delivery ↦ ⟨_, rfl⟩) _ _
  have hstore := store_of_wrapped hcodec hdistinct hblob (hlarge blob hblob) hwraps hrun
  have hfrom : FromUploads h base64Encode blobs
      ((uploadMessages h.sha256Hex base64Encode blob).map fun m ↦ (m, 0)) := by
    intro delivery hin
    obtain ⟨m, hm, rfl⟩ := List.mem_map.mp hin
    exact ⟨blob, hblob, hm⟩
  -- all messages have come, but there is no blob
  have hhas := ((hdelivers _ n hfrom hrun).1 blob hblob).mpr fun m hm ↦ by
    rw [List.map_map]
    exact List.mem_map.mpr ⟨m, hm, rfl⟩
  rw [hstore, has_iff (hsha blob)] at hhas
  obtain ⟨found, hfound⟩ := hhas
  rw [hempty.2 _ (below_blobPlace _ _)] at hfound
  cases hfound

private theorem progress_run (hsha : ∀ bytes, IsDigest (h.sha256Hex bytes)) {s : Store}
    (hempty : EmptyStore h.base s) (hclear : Clear h.base s.files)
    (hlarge : ∀ blob ∈ blobs, uploadMax < blob.length)
    (hdistinct : Distinct h.sha256Hex blobs) (hcodec : Decodes h base64Encode blobs)
    (hcounted : ∀ blob ∈ blobs, Counted blob) {delivered : List (Command × Nat)} {n : BlobNode}
    (hfrom : FromUploads h base64Encode blobs delivered)
    (hrun : run (receiveStep h) { store := s } delivered = some n) :
    Progress h base64Encode blobs n delivered := by
  have hstart : Progress h base64Encode blobs { store := s } [] := by
    constructor
    case agrees => exact agrees_of_empty hempty
    case clear => exact hclear
    case known => exact fun bytes hbytes ↦ absurd hbytes List.not_mem_nil
    case listed => exact fun bytes hbytes ↦ absurd hbytes List.not_mem_nil
    case gathers =>
      intro blob _
      change Gathers _ (∅ : ChunkBufs)[_]? (blob ∈ []) _
      rw [Std.ExtTreeMap.getElem?_empty]
      apply gathers_none (chunks_nonempty blob)
      · exact fun _ i hcame ↦ absurd hcame List.not_mem_nil
      · exact fun hstored ↦ absurd hstored List.not_mem_nil
  change Progress h base64Encode blobs n ([] ++ delivered)
  refine run_history ?_ hfrom hstart hrun
  rintro n seen ⟨m, now⟩ t hn ⟨blob, hblob, hm⟩ ht
  cases ht
  obtain ⟨i, hi, rfl⟩ := (mem_uploadMessages (hlarge blob hblob) _).mp hm
  exact progress_receive hsha hcodec hdistinct hcounted hn hblob hi now

/-- Whatever messages of the blobs come, in any order and any number of times: a blob is stored
exactly when all of its messages have come, and then byte for byte. -/
theorem chunks_deliver (h : BlobHost) (base64Encode : Bytes → String)
    (hsha : ∀ bytes, IsDigest (h.sha256Hex bytes)) {s : Store} (hempty : EmptyStore h.base s)
    (hclear : Clear h.base s.files) (blobs : List Bytes)
    (hlarge : ∀ blob ∈ blobs, uploadMax < blob.length) (hcounted : ∀ blob ∈ blobs, Counted blob)
    (hdistinct : Distinct h.sha256Hex blobs) (hcodec : Decodes h base64Encode blobs)
    (delivered : List (Command × Nat)) (n : BlobNode)
    (hfrom : FromUploads h base64Encode blobs delivered)
    (hrun : run (receiveStep h) { store := s } delivered = some n) :
    DeliversExactly h base64Encode blobs delivered n := by
  apply delivers_of_progress hsha hdistinct hlarge
  exact progress_run hsha hempty hclear hlarge hdistinct hcodec hcounted hfrom hrun

/-- The counters decide: uploads of the blobs are delivered, in whatever order and number the
messages come, if and only if none of the blobs has so many chunks that the counters wrap. -/
theorem chunks_deliver_iff (h : BlobHost) (base64Encode : Bytes → String)
    (hsha : ∀ bytes, IsDigest (h.sha256Hex bytes)) {s : Store} (hempty : EmptyStore h.base s)
    (hclear : Clear h.base s.files) (blobs : List Bytes)
    (hlarge : ∀ blob ∈ blobs, uploadMax < blob.length)
    (hdistinct : Distinct h.sha256Hex blobs) (hcodec : Decodes h base64Encode blobs) :
    (∀ delivered n, FromUploads h base64Encode blobs delivered →
      run (receiveStep h) { store := s } delivered = some n →
        DeliversExactly h base64Encode blobs delivered n) ↔
      ∀ blob ∈ blobs, Counted blob := by
  constructor
  · intro hdelivers blob hblob
    exact counted_of_delivers hsha hempty hlarge hdistinct hcodec hdelivers hblob
  · intro hcounted delivered n hfrom hrun
    apply delivers_of_progress hsha hdistinct hlarge
    exact progress_run hsha hempty hclear hlarge hdistinct hcodec hcounted hfrom hrun

end Delivery

/-! ### Blobs of zeros -/

-- The encoding of zeros, for lengths that are a multiple of three.
private def encodeZeros (bytes : Bytes) : String :=
  String.ofList (List.replicate (bytes.length / 3 * 4) 'A')

-- A node that knows the digest of one blob, and the encoding of zeros.
private def zerosHost (blob : Bytes) (digest : String) : BlobHost where
  sha256Hex bytes := if bytes = blob then digest
    else "e3b0c44298fc1c149afbf4c8996fb92427ae41e4649b934ca495991b7852b855"
  base64Decode text := .ok (List.replicate (text.toList.length / 4 * 3) 0)
  base := "/data/artifacts/blobs/sha256"

private theorem eq_replicate_of_mem_chunks {size count : Nat} {part : Bytes}
    (hpart : part ∈ chunks size (List.replicate count 0)) :
    part = List.replicate part.length 0 ∧
      (size % 3 = 0 → count % 3 = 0 → part.length % 3 = 0) := by
  generalize hblob : List.replicate count (0 : UInt8) = blob at hpart
  fun_induction chunks size blob generalizing count with
  | case1 blob _ => cases hpart
  | case2 blob _ ih =>
    subst hblob
    rcases List.mem_cons.mp hpart with rfl | hpart
    · rw [List.take_replicate, List.length_replicate]
      exact ⟨rfl, fun hsize hcount ↦ by omega⟩
    · rw [List.drop_replicate] at ih hpart
      obtain ⟨heq, hmod⟩ := ih rfl hpart
      exact ⟨heq, fun hsize hcount ↦ hmod hsize (by omega)⟩

private theorem decodes_zeros {count : Nat} (hcount : count % 3 = 0) (digest : String) :
    Decodes (zerosHost (List.replicate count 0) digest) encodeZeros [List.replicate count 0] := by
  intro blob hblob part hpart
  rw [List.mem_singleton.mp hblob] at hpart
  obtain ⟨heq, hmod⟩ := eq_replicate_of_mem_chunks hpart
  have hlen : part.length / 3 * 4 / 4 * 3 = part.length := by
    have hthree := hmod (by decide) hcount
    omega
  change Except.ok (List.replicate ((encodeZeros part).toList.length / 4 * 3) 0) = .ok part
  rw [encodeZeros, String.toList_ofList, List.length_replicate, hlen, ← heq]

private theorem distinct_zeros (blob : Bytes) (digest : String)
    (hdigest : digest ≠ "e3b0c44298fc1c149afbf4c8996fb92427ae41e4649b934ca495991b7852b855") :
    Distinct (zerosHost blob digest).sha256Hex [blob] := by
  intro found hfound bytes heq
  rw [List.mem_singleton.mp hfound] at heq ⊢
  change (if bytes = blob then _ else _) = (if blob = blob then _ else _) at heq
  rw [if_pos rfl] at heq
  split at heq
  · assumption
  · exact absurd heq.symm hdigest

private theorem isDigest_zeros (blob : Bytes) {digest : String} (hdigest : IsDigest digest)
    (bytes : Bytes) : IsDigest ((zerosHost blob digest).sha256Hex bytes) := by
  change IsDigest (if bytes = blob then _ else _)
  split
  · exact hdigest
  · decide

-- One byte more than is sent inline.
private def smallZeros : Bytes := List.replicate (uploadMax + 1) 0

private def smallHost : BlobHost :=
  zerosHost smallZeros "4459f957d031a8b782dfee09d2c7070a4b5e6c33130a8f20ac35393fd97fc57a"

-- Its second chunk comes twice, before and after the first one.
private def smallDelivered : List (Command × Nat) :=
  [(chunkMessage smallHost.sha256Hex encodeZeros smallZeros 1, 10),
    (chunkMessage smallHost.sha256Hex encodeZeros smallZeros 0, 20),
    (chunkMessage smallHost.sha256Hex encodeZeros smallZeros 1, 30)]

/-- A blob of that size, sent in two chunks, is delivered. -/
theorem chunks_deliver_zeros :
    ∃ n, run (receiveStep smallHost) {} smallDelivered = some n ∧
      DeliversExactly smallHost encodeZeros [smallZeros] smallDelivered n := by
  have hclear : Clear smallHost.base ({} : Store).files := by
    intro place _ bytes
    simp
  have hlarge : ∀ blob ∈ [smallZeros], uploadMax < blob.length := by
    intro blob hblob
    rw [List.mem_singleton.mp hblob, smallZeros, List.length_replicate]
    decide
  have hcounted : ∀ blob ∈ [smallZeros], Counted blob := by
    intro blob hblob
    rw [List.mem_singleton.mp hblob, Counted, smallZeros, List.length_replicate]
    decide
  have htwo : (chunks chunkSize smallZeros).length = 2 := by
    rw [length_chunks (by decide), smallZeros, List.length_replicate]
    decide
  have hmem (i : Nat) (hi : i < 2) :
      ∃ blob ∈ [smallZeros], chunkMessage smallHost.sha256Hex encodeZeros smallZeros i ∈
        uploadMessages smallHost.sha256Hex encodeZeros blob := by
    refine ⟨smallZeros, List.mem_cons_self, ?_⟩
    apply (mem_uploadMessages (hlarge _ List.mem_cons_self) _).mpr
    exact ⟨i, by omega, rfl⟩
  have hfrom : FromUploads smallHost encodeZeros [smallZeros] smallDelivered := by
    intro delivery hin
    simp only [smallDelivered, List.mem_cons, List.not_mem_nil, or_false] at hin
    rcases hin with rfl | rfl | rfl
    · exact hmem 1 (by decide)
    · exact hmem 0 (by decide)
    · exact hmem 1 (by decide)
  have htotal (h : BlobHost) (delivered : List (Command × Nat)) :
      ∃ n, run (receiveStep h) {} delivered = some n :=
    run_total (fun n delivery ↦ ⟨_, rfl⟩) _ _
  obtain ⟨n, hrun⟩ := htotal smallHost smallDelivered
  exact ⟨n, hrun, chunks_deliver smallHost encodeZeros (isDigest_zeros _ (by decide))
    ⟨rfl, by simp⟩ hclear [smallZeros] hlarge hcounted (distinct_zeros _ _ (by decide))
    (decodes_zeros (by decide) _) smallDelivered n hfrom hrun⟩

end PeerDeploy.Storage
