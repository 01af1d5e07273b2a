import PeerDeploy.Base.Transition
import PeerDeploy.Storage.Collect

/-!
# Blobs that arrive from other peers

The handlers of `StoragePut` and `StoragePutChunk` (`crates/agent/src/p2p/mod.rs:916–956`)
beside the local operations of the content store. A blob that comes in chunks is collected
in a buffer under the digest it is sent under; nothing is known of it before it is complete.
A call that panics leaves the node as it was. No operation of this module meets an I/O error.
-/

namespace PeerDeploy.Storage

open PeerDeploy.Common PeerDeploy.Base

/-- The hash, the decoder and the base directory of a node. -/
structure BlobHost where
  sha256Hex : Bytes → String
  base64Decode : String → Except String Bytes
  base : String

/-- The chunks of a blob that is not complete; `crates/agent/src/p2p/mod.rs:468–470`. -/
structure ChunkBuf where
  total : Nat
  chunks : List Bytes
  deriving DecidableEq, Repr

/-- `chunk_bufs`, by digest. -/
abbrev ChunkBufs := Std.ExtTreeMap String ChunkBuf

/-- A node as far as it keeps blobs. -/
structure BlobNode where
  store : Store := {}
  chunkBufs : ChunkBufs := ∅
  /-- The announcements made, in order. -/
  announced : List Command := []
  /-- The byte strings handed to `put_bytes`, the latest first. No step reads it. -/
  stored : List Bytes := []

/-- What happens to the blobs of a node. -/
inductive Call where
  | putBytes (bytes : Bytes) (now : Nat)
  | getPath (digest : String) (now : Nat)
  | pin (digest : String) (value : Bool)
  | gcToTarget (target : Nat)
  | storagePut (digest bytesB64 : String) (now : Nat)
  | storagePutChunk (digest : String) (chunkIndex totalChunks : Nat) (bytesB64 : String)
      (now : Nat)

/-- A buffer for a number of chunks, all empty. -/
def ChunkBuf.empty (total : Nat) : ChunkBuf := ⟨total, List.replicate total []⟩

/-- Put a chunk into its slot, if there is one;
`crates/agent/src/p2p/mod.rs:935–938`. -/
def ChunkBuf.fill (buf : ChunkBuf) (chunkIndex totalChunks : Nat) (bytes : Bytes) : ChunkBuf :=
  { total := totalChunks
    chunks := if chunkIndex < buf.chunks.length then buf.chunks.set chunkIndex bytes
      else buf.chunks }

/-- No slot is empty; `crates/agent/src/p2p/mod.rs:940`. -/
def ChunkBuf.complete (buf : ChunkBuf) : Bool := buf.chunks.all fun chunk ↦ !chunk.isEmpty

/-- File a chunk, with the whole byte string if the buffer is complete and then dropped;
`crates/agent/src/p2p/mod.rs:933–944`. -/
def fileChunk (bufs : ChunkBufs) (digest : String) (chunkIndex totalChunks : Nat) (bytes : Bytes) :
    ChunkBufs × Option Bytes :=
  let buf := (bufs[digest]?.getD (.empty totalChunks)).fill chunkIndex totalChunks bytes
  if buf.complete then (bufs.erase digest, some buf.chunks.flatten)
  else (bufs.insert digest buf, none)

namespace BlobNode

/-- `ContentStore::open().put_bytes(..)`. -/
def putBytes (h : BlobHost) (n : BlobNode) (bytes : Bytes) (now : Nat) : BlobNode :=
  match (n.store.opened h.base).putBytes h.sha256Hex h.base bytes { now } with
  | none => n
  | some (store, _) => { n with store, stored := bytes :: n.stored }

/-- Store bytes that have the digest they come under, and announce them;
`crates/agent/src/p2p/mod.rs:919–928,945–953`. -/
def accept (h : BlobHost) (n : BlobNode) (digest : String) (bytes : Bytes) (now : Nat) :
    BlobNode :=
  if h.sha256Hex bytes = digest then
    let n := n.putBytes h bytes now
    { n with announced := n.announced ++ [.storageHave digest bytes.length] }
  else n

/-- `crates/agent/src/p2p/mod.rs:916–930`. -/
def storagePut (h : BlobHost) (n : BlobNode) (digest bytesB64 : String) (now : Nat) : BlobNode :=
  match h.base64Decode bytesB64 with
  | .error _ => n
  | .ok bytes => n.accept h digest bytes now

/-- `crates/agent/src/p2p/mod.rs:931–956`. -/
def storagePutChunk (h : BlobHost) (n : BlobNode) (digest : String)
    (chunkIndex totalChunks : Nat) (bytesB64 : String) (now : Nat) : BlobNode :=
  match h.base64Decode bytesB64 with
  | .error _ => n
  | .ok bytes =>
    match fileChunk n.chunkBufs digest chunkIndex totalChunks bytes with
    | (chunkBufs, none) => { n with chunkBufs }
    | (chunkBufs, some full) => ({ n with chunkBufs } : BlobNode).accept h digest full now

/-- One call on a node. -/
def call (h : BlobHost) (n : BlobNode) : Call → BlobNode
  | .putBytes bytes now => n.putBytes h bytes now
  | .getPath digest now =>
    match (n.store.opened h.base).getPath h.base digest { now } with
    | none => n
    | some (store, _) => { n with store }
  | .pin digest value => { n with store := ((n.store.opened h.base).pin digest value {}).1 }
  | .gcToTarget target =>
    match (n.store.opened h.base).gcToTarget h.base target (fun _ ↦ false) {} with
    | none => n
    | some (store, _) => { n with store }
  | .storagePut digest bytesB64 now => n.storagePut h digest bytesB64 now
  | .storagePutChunk digest chunkIndex totalChunks bytesB64 now =>
    n.storagePutChunk h digest chunkIndex totalChunks bytesB64 now

end BlobNode

/-- One call on a node, as a step. -/
def blobStep (h : BlobHost) (n : BlobNode) (call : Call) : Option BlobNode := some (n.call h call)

/-! ### The invariant of the content store -/

section Invariant

variable {h : BlobHost}

/-- Unless byte strings stored so far collide, the index agrees with the blobs. -/
def BlobInv (h : BlobHost) (n : BlobNode) : Prop :=
  CollisionFree h.sha256Hex n.stored → Agrees h.sha256Hex h.base n.stored n.store

private theorem blobInv_putBytes (hsha : ∀ bytes, IsDigest (h.sha256Hex bytes)) {n : BlobNode}
    (hinv : BlobInv h n) (bytes : Bytes) (now : Nat) : BlobInv h (n.putBytes h bytes now) := by
  unfold BlobNode.putBytes
  split
  · exact hinv
  · next store _ hput =>
    intro hfree
    have hbefore : CollisionFree h.sha256Hex n.stored := fun x hx y hy ↦
      hfree x (List.mem_cons_of_mem bytes hx) y (List.mem_cons_of_mem bytes hy)
    exact (hinv hbefore).opened.putBytes hsha hfree hput

private theorem blobInv_accept (hsha : ∀ bytes, IsDigest (h.sha256Hex bytes)) {n : BlobNode}
    (hinv : BlobInv h n) (digest : String) (bytes : Bytes) (now : Nat) :
    BlobInv h (n.accept h digest bytes now) := by
  unfold BlobNode.accept
  split
  · exact blobInv_putBytes hsha hinv bytes now
  · exact hinv

private theorem blobInv_call (hsha : ∀ bytes, IsDigest (h.sha256Hex bytes)) {n : BlobNode}
    (hinv : BlobInv h n) (call : Call) : BlobInv h (n.call h call) := by
  cases call with
  | putBytes bytes now => exact blobInv_putBytes hsha hinv bytes now
  | getPath digest now =>
    simp only [BlobNode.call]
    split
    · exact hinv
    · next hget => exact fun hfree ↦ (hinv hfree).opened.getPath hget
  | pin digest value => exact fun hfree ↦ (hinv hfree).opened.pin digest value {}
  | gcToTarget target =>
    simp only [BlobNode.call]
    split
    · exact hinv
    · next hgc => exact fun hfree ↦ (hinv hfree).opened.gcToTarget hsha hgc
  | storagePut digest bytesB64 now =>
    simp only [BlobNode.call, BlobNode.storagePut]
    split
    · exact hinv
    · exact blobInv_accept hsha hinv digest _ now
  | storagePutChunk digest chunkIndex totalChunks bytesB64 now =>
    simp only [BlobNode.call, BlobNode.storagePutChunk]
    split
    · exact hinv
    · split
      · exact hinv
      · apply blobInv_accept hsha
        exact hinv

/-- In every run of local operations and of messages with any digests, indices, totals and
bytes that starts with an empty store, the index lists exactly the blob files, each blob has
the digest it is named by and each entry its size, as long as no stored byte strings collide. -/
theorem index_lists_blobs (h : BlobHost) (hsha : ∀ bytes, IsDigest (h.sha256Hex bytes))
    {s : Store} (hempty : EmptyStore h.base s) (calls : List Call) :
    Throughout (blobStep h)
      (fun n ↦ CollisionFree h.sha256Hex n.stored → Consistent h.sha256Hex h.base n.store)
      { store := s } calls := by
  have hstart : BlobInv h { store := s } := fun _ ↦ agrees_of_empty hempty
  have hstep : ∀ n call t, BlobInv h n → blobStep h n call = some t → BlobInv h t := by
    intro n call t hinv ht
    cases ht
    exact blobInv_call hsha hinv call
  intro before after _ n hrun hfree
  exact (run_invariant_all hstep hstart hrun hfree).consistent

-- A node that knows the digest and the encoding of the bytes `abc`.
private def abcHost : BlobHost where
  sha256Hex bytes :=
    if bytes = asBytes "abc" then "ba7816bf8f01cfea414140de5dae2223b00361a396177a9cb410ff61f20015ad"
    else "e3b0c44298fc1c149afbf4c8996fb92427ae41e4649b934ca495991b7852b855"
  base64Decode text := if text = "YWJj" then .ok (asBytes "abc") else .error "Invalid padding"
  base := "/data/artifacts/blobs/sha256"

-- A chunk that is the whole blob, a pin, a lying digest and a second copy.
private def abcCalls : List Call :=
  [.storagePutChunk "ba7816bf8f01cfea414140de5dae2223b00361a396177a9cb410ff61f20015ad" 0 1 "YWJj" 5,
    .pin "ba7816bf8f01cfea414140de5dae2223b00361a396177a9cb410ff61f20015ad" true,
    .storagePut "/etc/passwd" "YWJj" 6, .gcToTarget 0, .putBytes (asBytes "abc") 7]

/-- After these calls the index lists the blob. -/
theorem index_lists_blobs_abc :
    ∃ n, run (blobStep abcHost) {} abcCalls = some n ∧ n.stored = [asBytes "abc", asBytes "abc"] ∧
      Consistent abcHost.sha256Hex abcHost.base n.store := by
  have hsha : ∀ bytes, IsDigest (abcHost.sha256Hex bytes) := by
    intro bytes
    change IsDigest (if bytes = asBytes "abc" then _ else _)
    split
    · decide
    · decide
  have hempty : EmptyStore abcHost.base {} := ⟨rfl, fun place _ ↦ by simp⟩
  have hstored : (run (blobStep abcHost) {} abcCalls).map (fun n ↦ n.stored) =
      some [asBytes "abc", asBytes "abc"] := by
    decide +kernel
  obtain ⟨n, hrun, hn⟩ := Option.map_eq_some_iff.mp hstored
  refine ⟨n, hrun, hn, ?_⟩
  apply index_lists_blobs abcHost hsha hempty abcCalls abcCalls [] (by simp) n hrun
  intro x hx y hy _
  rw [hn] at hx hy
  simp_all

end Invariant

end PeerDeploy.Storage
