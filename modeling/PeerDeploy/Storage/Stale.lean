import PeerDeploy.Storage.Upload

/-!
# Left-over chunks

The handler of `StoragePutChunk` (`crates/agent/src/p2p/mod.rs:931–956`) sizes the slots of a
buffer by the first message of a digest. A later message replaces the announced total, but not
the slots, so chunks meet what an earlier sender has left in the buffer.
-/

namespace PeerDeploy.Storage

open PeerDeploy.Common PeerDeploy.Base

/-! ### Slots with left-over contents -/

section Slots

variable {stale pieces : List Bytes}

/-- The slots with the pieces that have come, and the left-over contents elsewhere. -/
def mixed (stale pieces : List Bytes) (came : List Nat) : List Bytes :=
  stale.mapIdx fun i old ↦ if i ∈ came then pieces.getD i [] else old

/-- A piece has come for every empty slot. -/
def Covers (stale : List Bytes) (came : List Nat) : Prop :=
  ∀ i : Nat, stale[i]? = some [] → i ∈ came

/-- After the pieces that have come, the one that fills the last empty slot completes the
blob. -/
def RecoversFrom (stale pieces : List Bytes) (blob : Bytes) (came order : List Nat) : Prop :=
  ∃ front i back, order = front ++ i :: back ∧ ¬ Covers stale (came ++ front) ∧
    Covers stale (came ++ front ++ [i]) ∧ (mixed stale pieces (came ++ front ++ [i])).flatten = blob

/-- The piece that fills the last empty slot completes the blob. -/
def Recovers (stale pieces : List Bytes) (blob : Bytes) (order : List Nat) : Prop :=
  RecoversFrom stale pieces blob [] order

/-- A slot holds the new piece if that came, and the stale one else. -/
theorem getElem?_mixed (came : List Nat) (i : Nat) : (mixed stale pieces came)[i]? =
    stale[i]?.map fun old ↦ if i ∈ came then pieces.getD i [] else old := by
  rw [mixed, List.getElem?_mapIdx]

/-- No slot is lost. -/
@[simp] theorem length_mixed (came : List Nat) :
    (mixed stale pieces came).length = stale.length := by
  rw [mixed, List.length_mapIdx]

/-- Before any piece has come, the slots are as they were left. -/
theorem mixed_nil : mixed stale pieces [] = stale := by
  apply List.ext_getElem?
  intro i
  simp [getElem?_mixed]

/-- A piece goes into its slot, if there is one. -/
theorem set_mixed {came : List Nat} {i : Nat} {piece : Bytes} (h : pieces[i]? = some piece) :
    (mixed stale pieces came).set i piece = mixed stale pieces (came ++ [i]) := by
  apply List.ext_getElem?
  intro j
  rw [List.getElem?_set, getElem?_mixed, getElem?_mixed, length_mixed]
  by_cases hij : i = j
  · subst hij
    by_cases hlt : i < stale.length
    · simp [hlt, h]
    · simp [hlt]
  · simp [hij, Ne.symm hij]

/-- No slot is empty once a piece has come for each empty slot. -/
theorem all_mixed_iff (hpieces : ∀ piece ∈ pieces, piece ≠ []) {came : List Nat}
    (hcame : ∀ i ∈ came, i < pieces.length) :
    (mixed stale pieces came).all (fun chunk ↦ !chunk.isEmpty) = true ↔ Covers stale came := by
  rw [List.all_eq_true]
  constructor
  · intro hall i hi
    by_cases hin : i ∈ came
    · exact hin
    · have hslot : (mixed stale pieces came)[i]? = some [] := by
        rw [getElem?_mixed, hi, Option.map_some, if_neg hin]
      have hfull := hall [] (List.mem_of_getElem? hslot)
      simp at hfull
  · intro hcovers chunk hchunk
    obtain ⟨i, hi⟩ := List.mem_iff_getElem?.mp hchunk
    rw [getElem?_mixed] at hi
    obtain ⟨old, hold, hvalue⟩ := Option.map_eq_some_iff.mp hi
    split at hvalue
    · next hin =>
      have hlt := hcame i hin
      have hget : pieces.getD i [] = pieces[i] := by simp [List.getD, hlt]
      have hne := hpieces _ (List.getElem_mem hlt)
      rw [← hvalue, hget]
      simpa using hne
    · next hout =>
      rw [← hvalue]
      have hne : old ≠ [] := by
        rintro rfl
        exact hout (hcovers i hold)
      simpa using hne

/-- More pieces cover what fewer cover. -/
theorem Covers.mono {came more : List Nat} (h : Covers stale came) (hsub : ∀ i ∈ came, i ∈ more) :
    Covers stale more := fun i hi ↦ hsub i (h i hi)

/-- The piece that covers the last empty slot decides. -/
theorem recoversFrom_cons_of_covers {blob : Bytes} {came order : List Nat} {i : Nat}
    (hbefore : ¬ Covers stale came) (hnow : Covers stale (came ++ [i])) :
    RecoversFrom stale pieces blob came (i :: order) ↔
      (mixed stale pieces (came ++ [i])).flatten = blob := by
  constructor
  · rintro ⟨front, j, back, horder, hnot, -, hblob⟩
    cases front with
    | nil =>
      cases horder
      simpa using hblob
    | cons first front =>
      obtain ⟨rfl, -⟩ := List.cons.inj horder
      refine absurd (hnow.mono fun k hk ↦ ?_) hnot
      rcases List.mem_append.mp hk with hold | hlast
      · exact List.mem_append_left _ hold
      · rw [List.mem_singleton.mp hlast]
        exact List.mem_append_right _ List.mem_cons_self
  · intro hblob
    exact ⟨[], i, order, rfl, by simpa using hbefore, by simpa using hnow, by simpa using hblob⟩

/-- Before that, what comes next decides. -/
theorem recoversFrom_cons_of_not_covers {blob : Bytes} {came order : List Nat} {i : Nat}
    (hnow : ¬ Covers stale (came ++ [i])) : RecoversFrom stale pieces blob came (i :: order) ↔
      RecoversFrom stale pieces blob (came ++ [i]) order := by
  constructor
  · rintro ⟨front, j, back, horder, hnot, hcovers, hblob⟩
    cases front with
    | nil =>
      cases horder
      exact absurd (by simpa using hcovers) hnow
    | cons first front =>
      obtain ⟨rfl, rfl⟩ := List.cons.inj horder
      exact ⟨front, j, back, rfl, by simpa using hnot, by simpa using hcovers, by simpa using hblob⟩
  · rintro ⟨front, j, back, rfl, hnot, hcovers, hblob⟩
    exact ⟨i :: front, j, back, rfl, by simpa using hnot, by simpa using hcovers,
      by simpa using hblob⟩

/-- Where the left-over contents are pieces of the blob in their slots, any order completes it. -/
theorem recoversFrom_of_agrees (hlength : stale.length = pieces.length)
    (hagrees : ∀ i : Nat, stale[i]? = some [] ∨ stale[i]? = pieces[i]?) {came order : List Nat}
    (hopen : ¬ Covers stale came) (hall : Covers stale (came ++ order)) :
    RecoversFrom stale pieces pieces.flatten came order := by
  induction order generalizing came with
  | nil => exact absurd (by simpa using hall) hopen
  | cons i rest ih =>
    by_cases hnow : Covers stale (came ++ [i])
    · rw [recoversFrom_cons_of_covers hopen hnow]
      congr 1
      apply List.ext_getElem?
      intro j
      rw [getElem?_mixed]
      by_cases hj : j < pieces.length
      · have hslot : j ∉ came ++ [i] → stale[j]? = some pieces[j] := by
          intro hout
          rw [(hagrees j).resolve_left fun hempty ↦ hout (hnow j hempty),
            List.getElem?_eq_getElem hj]
        by_cases hin : j ∈ came ++ [i]
        · simp [hin, hlength, hj]
        · simp [hin, hslot hin, hj]
      · rw [List.getElem?_eq_none (by omega), List.getElem?_eq_none (by omega)]
        rfl
    · rw [recoversFrom_cons_of_not_covers hnow]
      exact ih hnow (by simpa using hall)

end Slots

/-! ### The messages of one digest among others -/

/-- A `StoragePutChunk` message, with the clock at its arrival. -/
structure ChunkMessage where
  digest : String
  chunkIndex : Nat
  totalChunks : Nat
  bytesB64 : String
  now : Nat := 0

/-- The node handles a message. -/
def BlobNode.deliver (h : BlobHost) (n : BlobNode) (m : ChunkMessage) : BlobNode :=
  n.storagePutChunk h m.digest m.chunkIndex m.totalChunks m.bytesB64 m.now

/-- The handling of a message, as a step. -/
def chunkStep (h : BlobHost) (n : BlobNode) (m : ChunkMessage) : Option BlobNode :=
  some (n.deliver h m)

/-- The indices of the messages of a digest. -/
def indicesOf (digest : String) (messages : List ChunkMessage) : List Nat :=
  (messages.filter fun m ↦ m.digest = digest).map (·.chunkIndex)

/-- The messages of the digest announce the number of the pieces and carry one of them. -/
def Honest (h : BlobHost) (digest : String) (pieces : List Bytes) (messages : List ChunkMessage) :
    Prop :=
  ∀ m ∈ messages, m.digest = digest → m.totalChunks = pieces.length ∧
    ∃ piece, pieces[m.chunkIndex]? = some piece ∧ h.base64Decode m.bytesB64 = .ok piece

/-- The content store has the blob under its digest. -/
def Holds (h : BlobHost) (n : BlobNode) (blob : Bytes) : Prop :=
  n.store.files[blobPlace h.base (h.sha256Hex blob)]? = some (.file blob)

/-- What holds of a node at all times: the store is in shape and its blobs are right, and no
buffer is complete. -/
structure Gathering (h : BlobHost) (n : BlobNode) : Prop where
  shape : Shape h.base n.store.files
  blobs : StoreInv h.sha256Hex h.base n.store.files
  incomplete : ∀ (digest : String) buf, n.chunkBufs[digest]? = some buf → buf.complete = false

section Node

variable {h : BlobHost}

private theorem shape_createDirAll {base : String} {files : Files} (hshape : Shape base files)
    {dirs : List String} (hdirs : dirs.length < (Path.place base).length + 3) :
    Shape base (files.createDirAll dirs) where
  clear place hpre bytes hfile := hshape.clear place hpre bytes (Files.createDirAll_file hfile)
  file place bytes hbelow hfile := hshape.file place bytes hbelow (Files.createDirAll_file hfile)
  dir place hbelow hdir := by
    rcases Files.createDirAll_getElem? files dirs place with hsame | ⟨hpre, -, -⟩
    · exact hshape.dir place hbelow (hsame ▸ hdir)
    · exact Nat.lt_of_le_of_lt hpre.length_le hdirs

private theorem shape_insert {base : String} {files : Files} (hshape : Shape base files)
    (digest : String) (bytes : Bytes) :
    Shape base (files.insert (blobPlace base digest) (.file bytes)) where
  clear place hpre found hfile := by
    rw [Table.getElem?_insert] at hfile
    split at hfile
    · next heq =>
      have hle := hpre.length_le
      rw [← heq, length_blobPlace] at hle
      omega
    · exact hshape.clear place hpre found hfile
  file place found hbelow hfile := by
    rw [Table.getElem?_insert] at hfile
    split at hfile
    · next heq => rw [← heq, length_blobPlace]
    · exact hshape.file place found hbelow hfile
  dir place hbelow hdir := by
    rw [Table.getElem?_insert] at hdir
    split at hdir
    · cases hdir
    · exact hshape.dir place hbelow hdir

private theorem createDirAll_blobPlace {base : String} (files : Files) {dirs : List String}
    (hdirs : dirs.length < (Path.place base).length + 3) (digest : String) :
    (files.createDirAll dirs)[blobPlace base digest]? = files[blobPlace base digest]? := by
  rcases Files.createDirAll_getElem? files dirs (blobPlace base digest) with hsame | ⟨hpre, -, -⟩
  · exact hsame
  · have hle := hpre.length_le
    rw [length_blobPlace] at hle
    omega

private theorem putBytes_files (hsha : ∀ bytes, IsDigest (h.sha256Hex bytes)) {n : BlobNode}
    (hshape : Shape h.base n.store.files) (bytes : Bytes) (now : Nat) :
    Shape h.base (n.putBytes h bytes now).store.files ∧
      (∃ found, (n.putBytes h bytes now).store.files[blobPlace h.base (h.sha256Hex bytes)]? =
        some (.file found)) ∧
      ∀ digest, h.sha256Hex bytes ≠ digest →
        (n.putBytes h bytes now).store.files[blobPlace h.base digest]? =
          n.store.files[blobPlace h.base digest]? := by
  obtain ⟨path, hpath, hplace, hparent⟩ := pathForDigest_eq_blob h.base (hsha bytes)
  have hopened : Shape h.base (n.store.opened h.base).files :=
    shape_createDirAll hshape (by omega)
  have hkept (digest : String) : (n.store.opened h.base).files[blobPlace h.base digest]? =
      n.store.files[blobPlace h.base digest]? :=
    createDirAll_blobPlace n.store.files (by omega) digest
  unfold BlobNode.putBytes Store.putBytes
  generalize n.store.opened h.base = s at hopened hkept ⊢
  simp only [hpath, Option.bind_eq_bind, Option.bind_some]
  cases hfound : s.files[blobPlace h.base (h.sha256Hex bytes)]? with
  | some entry =>
    have hwrite : s.writeBlob path bytes { now } = (s, none) := by
      rw [Store.writeBlob, Std.ExtTreeMap.contains_eq_isSome_getElem?, hplace, hfound]
      rfl
    simp only [hwrite, Store.saveEntry]
    refine ⟨hopened, ?_, fun digest _ ↦ hkept digest⟩
    cases entry with
    | file found => exact ⟨found, hfound⟩
    | dir =>
      have hlevel := hopened.dir _ (below_blobPlace _ _) hfound
      rw [length_blobPlace] at hlevel
      omega
  | none =>
    have hdirs : (blobPlace h.base (h.sha256Hex bytes)).dropLast.length <
        (Path.place h.base).length + 3 := by
      rw [List.length_dropLast, length_blobPlace]
      omega
    simp only [hopened.writeBlob hplace hparent hfound bytes now, Store.saveEntry, Option.pure_def]
    refine ⟨shape_insert (shape_createDirAll hopened hdirs) _ bytes, ⟨bytes, ?_⟩, ?_⟩
    · rw [Table.getElem?_insert, if_pos rfl]
    · intro digest hne
      rw [Table.getElem?_insert, if_neg fun heq ↦ hne (blobPlace_inj heq),
        createDirAll_blobPlace _ hdirs, hkept]

private theorem storeInv_putBytes_node (hsha : ∀ bytes, IsDigest (h.sha256Hex bytes))
    {n : BlobNode} (hinv : StoreInv h.sha256Hex h.base n.store.files) (bytes : Bytes)
    (now : Nat) : StoreInv h.sha256Hex h.base (n.putBytes h bytes now).store.files := by
  unfold BlobNode.putBytes
  split
  · exact hinv
  · next hput => exact storeInv_putBytes hsha (storeInv_opened hinv) hput

/-- Storing bytes leaves the buffers alone. -/
@[simp] theorem chunkBufs_putBytes (n : BlobNode) (bytes : Bytes) (now : Nat) :
    (n.putBytes h bytes now).chunkBufs = n.chunkBufs := by
  unfold BlobNode.putBytes
  split
  · rfl
  · rfl

/-- So does accepting them. -/
@[simp] theorem chunkBufs_accept (n : BlobNode) (digest : String) (bytes : Bytes) (now : Nat) :
    (n.accept h digest bytes now).chunkBufs = n.chunkBufs := by
  unfold BlobNode.accept
  split
  · exact chunkBufs_putBytes n bytes now
  · rfl

private theorem gathering_accept (hsha : ∀ bytes, IsDigest (h.sha256Hex bytes)) {n : BlobNode}
    (hn : Gathering h n) (digest : String) (bytes : Bytes) (now : Nat) :
    Gathering h (n.accept h digest bytes now) := by
  have hbufs := chunkBufs_accept (h := h) n digest bytes now
  unfold BlobNode.accept at hbufs ⊢
  split
  · next hdigest =>
    rw [if_pos hdigest] at hbufs
    have hinv := storeInv_putBytes_node hsha hn.blobs bytes now
    refine ⟨(putBytes_files hsha hn.shape bytes now).1, hinv, ?_⟩
    rw [hbufs]
    exact hn.incomplete
  · exact hn

private theorem holds_accept (hsha : ∀ bytes, IsDigest (h.sha256Hex bytes)) {blob : Bytes}
    (hdistinct : ∀ bytes, h.sha256Hex bytes = h.sha256Hex blob → bytes = blob) {n : BlobNode}
    (hn : Gathering h n) (digest : String) (bytes : Bytes) (now : Nat) :
    Holds h (n.accept h digest bytes now) blob ↔
      Holds h n blob ∨ (digest = h.sha256Hex blob ∧ bytes = blob) := by
  unfold BlobNode.accept
  split
  · next hdigest =>
    obtain ⟨-, ⟨found, hfound⟩, hothers⟩ := putBytes_files hsha hn.shape bytes now
    by_cases hsame : h.sha256Hex bytes = h.sha256Hex blob
    · obtain rfl := hdistinct bytes hsame
      have hinv := storeInv_putBytes_node hsha hn.blobs bytes now
      have hright := (storeInv_iff_blobs _).mp hinv _ found (hsha bytes) hfound
      rw [hdistinct found hright] at hfound
      exact iff_of_true hfound (.inr ⟨hdigest.symm, rfl⟩)
    · have hout : ¬ (digest = h.sha256Hex blob ∧ bytes = blob) := by
        rintro ⟨-, rfl⟩
        exact hsame rfl
      unfold Holds
      simp only [hothers _ hsame, hout, or_false]
  · next hwrong =>
    have hout : ¬ (digest = h.sha256Hex blob ∧ bytes = blob) := by
      rintro ⟨rfl, rfl⟩
      exact hwrong rfl
    simp only [hout, or_false]

private theorem gathering_erase {n : BlobNode} (hn : Gathering h n) (digest : String) :
    Gathering h { n with chunkBufs := n.chunkBufs.erase digest } where
  shape := hn.shape
  blobs := hn.blobs
  incomplete other buf hbuf := by
    rw [Table.getElem?_erase] at hbuf
    split at hbuf
    · cases hbuf
    · exact hn.incomplete other buf hbuf

private theorem gathering_insert {n : BlobNode} (hn : Gathering h n) (digest : String)
    {buf : ChunkBuf} (hbuf : buf.complete = false) :
    Gathering h { n with chunkBufs := n.chunkBufs.insert digest buf } where
  shape := hn.shape
  blobs := hn.blobs
  incomplete other found hfound := by
    rw [Table.getElem?_insert] at hfound
    split at hfound
    · cases hfound
      exact hbuf
    · exact hn.incomplete other found hfound

private theorem fileChunk_eq (bufs : ChunkBufs) (digest : String) (i : Nat) (pieces : List Bytes)
    (bytes : Bytes) : fileChunk bufs digest i pieces.length bytes =
      let filled := (slots pieces bufs[digest]?).set i bytes
      if filled.all fun chunk ↦ !chunk.isEmpty then (bufs.erase digest, some filled.flatten)
      else (bufs.insert digest ⟨pieces.length, filled⟩, none) := by
  have hfill : (bufs[digest]?.getD (.empty pieces.length)).fill i pieces.length bytes =
      ⟨pieces.length, (slots pieces bufs[digest]?).set i bytes⟩ := by
    unfold ChunkBuf.fill slots
    congr 1
    split
    · rfl
    · next hout => rw [List.set_eq_of_length_le (Nat.le_of_not_lt hout)]
  simp only [fileChunk, hfill, ChunkBuf.complete]

private theorem gathering_deliver (hsha : ∀ bytes, IsDigest (h.sha256Hex bytes)) {n : BlobNode}
    (hn : Gathering h n) (m : ChunkMessage) : Gathering h (n.deliver h m) := by
  unfold BlobNode.deliver BlobNode.storagePutChunk
  split
  · exact hn
  · next bytes _ =>
    simp only [fileChunk]
    generalize (n.chunkBufs[m.digest]?.getD (.empty m.totalChunks)).fill m.chunkIndex
      m.totalChunks bytes = buf
    by_cases hcomplete : buf.complete = true
    · simp only [if_pos hcomplete]
      exact gathering_accept hsha (gathering_erase hn m.digest) _ _ _
    · simp only [if_neg hcomplete]
      exact gathering_insert hn m.digest (by simpa using hcomplete)

private theorem deliver_other (hsha : ∀ bytes, IsDigest (h.sha256Hex bytes)) {blob : Bytes}
    (hdistinct : ∀ bytes, h.sha256Hex bytes = h.sha256Hex blob → bytes = blob) {n : BlobNode}
    (hn : Gathering h n) {m : ChunkMessage} (hm : m.digest ≠ h.sha256Hex blob) :
    (n.deliver h m).chunkBufs[h.sha256Hex blob]? = n.chunkBufs[h.sha256Hex blob]? ∧
      (Holds h (n.deliver h m) blob ↔ Holds h n blob) := by
  unfold BlobNode.deliver BlobNode.storagePutChunk
  split
  · exact ⟨rfl, Iff.rfl⟩
  · next bytes _ =>
    simp only [fileChunk]
    generalize (n.chunkBufs[m.digest]?.getD (.empty m.totalChunks)).fill m.chunkIndex
      m.totalChunks bytes = buf
    by_cases hcomplete : buf.complete = true
    · simp only [if_pos hcomplete]
      have hholds := holds_accept hsha hdistinct (gathering_erase hn m.digest) m.digest
        buf.chunks.flatten m.now
      refine ⟨?_, hholds.trans (or_iff_left fun hout ↦ hm hout.1)⟩
      rw [chunkBufs_accept, Table.getElem?_erase, if_neg hm]
    · simp only [if_neg hcomplete]
      refine ⟨?_, Iff.rfl⟩
      rw [Table.getElem?_insert, if_neg hm]

private theorem deliver_piece (hsha : ∀ bytes, IsDigest (h.sha256Hex bytes)) {blob : Bytes}
    (hdistinct : ∀ bytes, h.sha256Hex bytes = h.sha256Hex blob → bytes = blob) {n : BlobNode}
    (hn : Gathering h n) {pieces : List Bytes} {m : ChunkMessage} {piece : Bytes}
    (hdigest : m.digest = h.sha256Hex blob) (htotal : m.totalChunks = pieces.length)
    (hdecode : h.base64Decode m.bytesB64 = .ok piece) {filled : List Bytes}
    (hfilled : (slots pieces n.chunkBufs[h.sha256Hex blob]?).set m.chunkIndex piece = filled) :
    if filled.all fun chunk ↦ !chunk.isEmpty then
      (n.deliver h m).chunkBufs[h.sha256Hex blob]? = none ∧
        (Holds h (n.deliver h m) blob ↔ Holds h n blob ∨ filled.flatten = blob)
    else slots pieces (n.deliver h m).chunkBufs[h.sha256Hex blob]? = filled ∧
      (Holds h (n.deliver h m) blob ↔ Holds h n blob) := by
  unfold BlobNode.deliver BlobNode.storagePutChunk
  simp only [hdecode, htotal, hdigest, fileChunk_eq, hfilled]
  by_cases hcomplete : (filled.all fun chunk ↦ !chunk.isEmpty) = true
  · simp only [if_pos hcomplete]
    have hholds := holds_accept hsha hdistinct (gathering_erase hn (h.sha256Hex blob))
      (h.sha256Hex blob) filled.flatten m.now
    refine ⟨?_, hholds.trans (or_congr Iff.rfl (and_iff_right rfl))⟩
    rw [chunkBufs_accept, Table.getElem?_erase, if_pos rfl]
  · simp only [if_neg hcomplete]
    refine ⟨?_, Iff.rfl⟩
    rw [Table.getElem?_insert, if_pos rfl]
    rfl

/-! ### All pieces of a blob -/

/-- A message of another digest brings no index. -/
theorem indicesOf_cons_of_ne {digest : String} {m : ChunkMessage} (hm : m.digest ≠ digest)
    (rest : List ChunkMessage) : indicesOf digest (m :: rest) = indicesOf digest rest := by
  rw [indicesOf, List.filter_cons_of_neg (by simpa using hm), indicesOf]

/-- A message of the digest brings its index. -/
theorem indicesOf_cons_of_eq {digest : String} {m : ChunkMessage} (hm : m.digest = digest)
    (rest : List ChunkMessage) :
    indicesOf digest (m :: rest) = m.chunkIndex :: indicesOf digest rest := by
  rw [indicesOf, List.filter_cons_of_pos (by simpa using hm), List.map_cons, indicesOf]

section Pieces

variable {blob : Bytes} {pieces : List Bytes}

private theorem lt_of_came {came : List Nat} (hcame : ∀ i ∈ came, i < pieces.length) {i : Nat}
    {piece : Bytes} (hpiece : pieces[i]? = some piece) : ∀ j ∈ came ++ [i], j < pieces.length := by
  intro j hj
  rcases List.mem_append.mp hj with hold | hlast
  · exact hcame j hold
  · rw [List.mem_singleton.mp hlast]
    exact (List.getElem?_eq_some_iff.mp hpiece).1

-- While a piece is missing that does not come any more, the blob is not stored anew.
private theorem holds_of_missing (hsha : ∀ bytes, IsDigest (h.sha256Hex bytes))
    (hdistinct : ∀ bytes, h.sha256Hex bytes = h.sha256Hex blob → bytes = blob)
    (hpieces : ∀ piece ∈ pieces, piece ≠ []) {later : List ChunkMessage}
    (hhonest : Honest h (h.sha256Hex blob) pieces later) {n t : BlobNode} (hn : Gathering h n)
    {came : List Nat} (hcame : ∀ i ∈ came, i < pieces.length)
    (hslots : slots pieces n.chunkBufs[h.sha256Hex blob]? =
      mixed (List.replicate pieces.length []) pieces came)
    {i : Nat} (hi : i < pieces.length) (hmissing : i ∉ came ++ indicesOf (h.sha256Hex blob) later)
    (hrun : run (chunkStep h) n later = some t) : Holds h t blob ↔ Holds h n blob := by
  induction later generalizing n came with
  | nil =>
    cases hrun
    exact Iff.rfl
  | cons m rest ih =>
    obtain ⟨u, hu, hrun⟩ := run_cons_eq_some.mp hrun
    cases hu
    have hrest : Honest h (h.sha256Hex blob) pieces rest :=
      fun m hm ↦ hhonest m (List.mem_cons_of_mem _ hm)
    by_cases hm : m.digest = h.sha256Hex blob
    · obtain ⟨htotal, piece, hpiece, hdecode⟩ := hhonest m List.mem_cons_self hm
      rw [indicesOf_cons_of_eq hm, List.append_cons] at hmissing
      have hfilled : (slots pieces n.chunkBufs[h.sha256Hex blob]?).set m.chunkIndex piece =
          mixed (List.replicate pieces.length []) pieces (came ++ [m.chunkIndex]) := by
        rw [hslots, set_mixed hpiece]
      have hnext := lt_of_came hcame hpiece
      have hgathering := gathering_deliver hsha hn m
      have hcase := deliver_piece hsha hdistinct hn hm htotal hdecode hfilled
      have hopen : ¬ Covers (List.replicate pieces.length []) (came ++ [m.chunkIndex]) := by
        intro hcovers
        exact hmissing (List.mem_append_left _ (hcovers i (by simp [hi])))
      rw [if_neg fun hall ↦ hopen ((all_mixed_iff hpieces hnext).mp hall)] at hcase
      rw [ih hrest hgathering hnext hcase.1 hmissing hrun]
      exact hcase.2
    · rw [indicesOf_cons_of_ne hm] at hmissing
      have hgathering := gathering_deliver hsha hn m
      obtain ⟨hbuf, hholds⟩ := deliver_other hsha hdistinct hn hm
      rw [ih hrest hgathering hcame (hbuf ▸ hslots) hmissing hrun]
      exact hholds

private theorem holds_iff_recoversFrom (hsha : ∀ bytes, IsDigest (h.sha256Hex bytes))
    (hdistinct : ∀ bytes, h.sha256Hex bytes = h.sha256Hex blob → bytes = blob)
    (hpieces : ∀ piece ∈ pieces, piece ≠ []) {stale : List Bytes} {later : List ChunkMessage}
    (hhonest : Honest h (h.sha256Hex blob) pieces later) {n t : BlobNode} (hn : Gathering h n)
    {came : List Nat} (hcame : ∀ i ∈ came, i < pieces.length)
    (hslots : slots pieces n.chunkBufs[h.sha256Hex blob]? = mixed stale pieces came)
    (hopen : ¬ Covers stale came) (honce : (came ++ indicesOf (h.sha256Hex blob) later).Nodup)
    (hrun : run (chunkStep h) n later = some t) :
    Holds h t blob ↔ Holds h n blob ∨
      RecoversFrom stale pieces blob came (indicesOf (h.sha256Hex blob) later) := by
  induction later generalizing n came with
  | nil =>
    cases hrun
    have hnone : ¬ RecoversFrom stale pieces blob came (indicesOf (h.sha256Hex blob) []) := by
      rintro ⟨front, i, back, horder, -⟩
      exact absurd horder (by simp [indicesOf])
    simp only [hnone, or_false]
  | cons m rest ih =>
    obtain ⟨u, hu, hrun⟩ := run_cons_eq_some.mp hrun
    cases hu
    have hrest : Honest h (h.sha256Hex blob) pieces rest :=
      fun m hm ↦ hhonest m (List.mem_cons_of_mem _ hm)
    by_cases hm : m.digest = h.sha256Hex blob
    · obtain ⟨htotal, piece, hpiece, hdecode⟩ := hhonest m List.mem_cons_self hm
      rw [indicesOf_cons_of_eq hm] at honce ⊢
      rw [List.append_cons] at honce
      have hfilled : (slots pieces n.chunkBufs[h.sha256Hex blob]?).set m.chunkIndex piece =
          mixed stale pieces (came ++ [m.chunkIndex]) := by
        rw [hslots, set_mixed hpiece]
      have hnext := lt_of_came hcame hpiece
      have hgathering := gathering_deliver hsha hn m
      have hcase := deliver_piece hsha hdistinct hn hm htotal hdecode hfilled
      by_cases hcovers : Covers stale (came ++ [m.chunkIndex])
      · -- the buffer is complete and dropped, and this piece will not come again
        rw [if_pos ((all_mixed_iff hpieces hnext).mpr hcovers)] at hcase
        have hmissing : m.chunkIndex ∉ [] ++ indicesOf (h.sha256Hex blob) rest := by
          intro hin
          exact (List.nodup_append.mp honce).2.2 _ (by simp) _ hin rfl
        have hfresh : slots pieces (n.deliver h m).chunkBufs[h.sha256Hex blob]? =
            mixed (List.replicate pieces.length []) pieces [] := by
          rw [hcase.1, mixed_nil]
          rfl
        rw [holds_of_missing hsha hdistinct hpieces hrest hgathering (by simp) hfresh
          (List.getElem?_eq_some_iff.mp hpiece).1 hmissing hrun, hcase.2,
          recoversFrom_cons_of_covers hopen hcovers]
      · rw [if_neg fun hall ↦ hcovers ((all_mixed_iff hpieces hnext).mp hall)] at hcase
        rw [ih hrest hgathering hnext hcase.1 hcovers honce hrun, hcase.2,
          recoversFrom_cons_of_not_covers hcovers]
    · rw [indicesOf_cons_of_ne hm] at honce ⊢
      have hgathering := gathering_deliver hsha hn m
      obtain ⟨hbuf, hholds⟩ := deliver_other hsha hdistinct hn hm
      rw [ih hrest hgathering hcame (hbuf ▸ hslots) hopen honce hrun, hholds]

end Pieces

/-- Whatever messages have come before: after all pieces of a blob, in any order and among
messages of other digests, the store has the blob exactly if it had it before, or the piece that
fills the last empty slot completes it. -/
theorem stale_chunks_iff (hsha : ∀ bytes, IsDigest (h.sha256Hex bytes)) {s : Store}
    (hempty : EmptyStore h.base s) (hclear : Clear h.base s.files) {earlier : List ChunkMessage}
    {n : BlobNode} (hearlier : run (chunkStep h) { store := s } earlier = some n)
    {pieces : List Bytes} (hne : pieces ≠ []) (hpieces : ∀ piece ∈ pieces, piece ≠ [])
    (hdistinct : ∀ bytes, h.sha256Hex bytes = h.sha256Hex pieces.flatten → bytes = pieces.flatten)
    {later : List ChunkMessage} (hhonest : Honest h (h.sha256Hex pieces.flatten) pieces later)
    (heach : (indicesOf (h.sha256Hex pieces.flatten) later).Perm (List.range pieces.length))
    {t : BlobNode} (hrun : run (chunkStep h) n later = some t) :
    Holds h t pieces.flatten ↔ Holds h n pieces.flatten ∨
      Recovers (slots pieces n.chunkBufs[h.sha256Hex pieces.flatten]?) pieces pieces.flatten
        (indicesOf (h.sha256Hex pieces.flatten) later) := by
  have hstart : Gathering h { store := s } := by
    have hagrees : Agrees h.sha256Hex h.base [] s := agrees_of_empty hempty
    refine ⟨hagrees.shape hclear, ?_, by simp⟩
    intro digest path bytes hd hpath hfile
    obtain ⟨path', hpath', hplace, -⟩ := pathForDigest_eq_blob h.base hd
    rw [hpath] at hpath'
    cases hpath'
    rw [hplace, hempty.2 _ (below_blobPlace _ _)] at hfile
    cases hfile
  have hn : Gathering h n := by
    refine run_invariant_all (fun n m t hn ht ↦ ?_) hstart hearlier
    cases ht
    exact gathering_deliver hsha hn m
  have hopen : ¬ Covers (slots pieces n.chunkBufs[h.sha256Hex pieces.flatten]?) [] := by
    intro hcovers
    have hfull : ∀ i : Nat, (slots pieces n.chunkBufs[h.sha256Hex pieces.flatten]?)[i]? ≠ some [] :=
      fun i hi ↦ List.not_mem_nil (hcovers i hi)
    cases hbuf : n.chunkBufs[h.sha256Hex pieces.flatten]? with
    | none =>
      rw [hbuf] at hfull
      apply hfull 0
      simp [slots, ChunkBuf.empty, List.length_pos_iff.mpr hne]
    | some buf =>
      have hincomplete := hn.incomplete _ buf hbuf
      rw [hbuf] at hfull
      have hcomplete : buf.complete = true := by
        rw [ChunkBuf.complete, List.all_eq_true]
        intro chunk hchunk
        obtain ⟨i, hi⟩ := List.mem_iff_getElem?.mp hchunk
        have hchunkne : chunk ≠ [] := by
          rintro rfl
          exact hfull i hi
        simpa using hchunkne
      rw [hcomplete] at hincomplete
      cases hincomplete
  have honce : ([] ++ indicesOf (h.sha256Hex pieces.flatten) later).Nodup :=
    heach.nodup_iff.mpr List.nodup_range
  exact holds_iff_recoversFrom hsha hdistinct hpieces hhonest hn (by simp) mixed_nil.symm hopen
    honce hrun

end Node

-- A node that knows the digest of the bytes `hi`, and the encoding of each of them.
private def hiHost : BlobHost where
  sha256Hex bytes :=
    if bytes = [104, 105] then "8f434346648f6b96df89dda901c5176b10a6d83961dd3c1ac88b59b2dc327aa4"
    else "e3b0c44298fc1c149afbf4c8996fb92427ae41e4649b934ca495991b7852b855"
  base64Decode text :=
    if text = "aA==" then .ok [104] else if text = "aQ==" then .ok [105]
    else .error "Invalid padding"
  base := "/data/artifacts/blobs/sha256"

-- A chunk of the bytes `hi`, as one of so many.
private def hiChunk (index total : Nat) : ChunkMessage where
  digest := "8f434346648f6b96df89dda901c5176b10a6d83961dd3c1ac88b59b2dc327aa4"
  chunkIndex := index
  totalChunks := total
  bytesB64 := if index = 0 then "aA==" else "aQ=="

/-- After one of two chunks has come, both come, the second one first. -/
theorem stale_chunks_iff_again : ∃ n t, run (chunkStep hiHost) {} [hiChunk 1 2] = some n ∧
    run (chunkStep hiHost) n [hiChunk 1 2, hiChunk 0 2] = some t ∧ Holds hiHost t [104, 105] := by
  have hsha : ∀ bytes, IsDigest (hiHost.sha256Hex bytes) := by
    intro bytes
    change IsDigest (if bytes = [104, 105] then _ else _)
    split
    · decide
    · decide
  have hdistinct : ∀ bytes, hiHost.sha256Hex bytes = hiHost.sha256Hex [104, 105] →
      bytes = [104, 105] := by
    intro bytes hsame
    change (if bytes = [104, 105] then _ else _) = _ at hsame
    split at hsame
    · next heq => exact heq
    · exact absurd hsame (by decide)
  have hempty : EmptyStore hiHost.base {} := ⟨rfl, fun place _ ↦ by simp⟩
  have hclear : Clear hiHost.base ({} : Store).files := fun place _ bytes ↦ by simp
  have hhonest : Honest hiHost (hiHost.sha256Hex [104, 105]) [[104], [105]]
      [hiChunk 1 2, hiChunk 0 2] := by
    intro m hm _
    rcases List.mem_cons.mp hm with rfl | hm
    · exact ⟨rfl, [105], rfl, rfl⟩
    · rw [List.mem_singleton.mp hm]
      exact ⟨rfl, [104], rfl, rfl⟩
  have hne : ([[104], [105]] : List Bytes) ≠ [] := by simp
  have hearlier : run (chunkStep hiHost) {} [hiChunk 1 2] = some _ := rfl
  refine ⟨_, _, hearlier, rfl, (stale_chunks_iff hsha hempty hclear hearlier hne (by simp) hdistinct
    hhonest (by decide) rfl).mpr (.inr ?_)⟩
  generalize hslots : slots [[104], [105]] _ = stale
  have hstale : stale = [[], [105]] := by
    rw [← hslots]
    decide
  have hempty (i : Nat) : stale[i]? = some [] ↔ i = 0 := by
    rw [hstale]
    match i with
    | 0 => simp
    | 1 => simp
    | i + 2 => simp
  refine recoversFrom_of_agrees (by rw [hstale]; rfl) (fun i ↦ ?_) ?_ ?_
  · rw [hstale]
    match i with
    | 0 => exact .inl rfl
    | i + 1 => exact .inr rfl
  · exact fun hcovers ↦ List.not_mem_nil (hcovers 0 ((hempty 0).mpr rfl))
  · intro i hi
    rw [(hempty i).mp hi]
    decide

/-- After a chunk that was announced as one of three, both chunks come, and the blob does not. -/
theorem stale_length_blocks :
    ∃ n t, run (chunkStep hiHost) {} [hiChunk 0 3] = some n ∧
      run (chunkStep hiHost) n [hiChunk 0 2, hiChunk 1 2] = some t ∧
      ¬ Holds hiHost t [104, 105] ∧
      t.chunkBufs[hiHost.sha256Hex [104, 105]]? = some ⟨2, [[104], [105], []]⟩ := by
  refine ⟨_, _, rfl, rfl, ?_, ?_⟩
  · unfold Holds
    decide
  · decide

end PeerDeploy.Storage
