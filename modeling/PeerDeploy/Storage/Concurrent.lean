import PeerDeploy.Base.Transition
import PeerDeploy.Storage.Collect

/-!
# Concurrent use of the content store

The operations of `crates/agent/src/storage/mod.rs` step by step: each reads or writes the blob
files, loads the index and saves it, and the steps of several calls interleave, as the event
loop, the web handlers and other processes open the same store. Writes and removals succeed
here.
-/

namespace PeerDeploy.Storage

open PeerDeploy.Common PeerDeploy.Base

/-- The entries of the index file; `crates/agent/src/storage/mod.rs:23–26`. -/
abbrev Index := Std.ExtTreeMap String IndexEntry

/-- A call, with what it reads of the clock. -/
inductive Op where
  | put (bytes : Bytes) (now : Nat)
  | get (digest : String) (now : Nat)
  | pin (digest : String) (value : Bool)
  | gc (target : Nat)
  deriving DecidableEq

/-- What a call returns. -/
inductive Outcome where
  | digest (result : Except String String)
  | path (found : Option String)
  | unit (result : Except String Unit)
  | panicked

/-- Where a call stands. -/
inductive Pc where
  | start
  /-- The blob is there, and the index has yet to be loaded. -/
  | blob
  /-- The index is loaded, and has yet to be changed and saved. -/
  | loaded (index : Index)
  /-- A collection has loaded the index and has yet to remove some blobs and to save. -/
  | removing (index : Index) (left : List String)
  | done (outcome : Outcome)

/-- The digests that the loop of `gc_to_target` removes;
`crates/agent/src/storage/mod.rs:140–151`. -/
def victims (target : Nat) : Nat → List (String × IndexEntry) → List String
  | _, [] => []
  | current, (digest, entry) :: rest =>
    if current ≤ target then []
    else if entry.pinned then victims target current rest
    else digest :: victims target (current - entry.sizeBytes) rest

/-- The digests that a collection of this index removes. -/
def gcVictims (target : Nat) (index : Index) : List String :=
  let items := Store.leastRecent { index }
  victims target (Store.totalSize items) items

section Steps

variable (sha256Hex : Bytes → String) (base : String)

/-- What a call makes of the index that it has loaded;
`crates/agent/src/storage/mod.rs:86–89,98–99,115–116,150`. -/
def Op.change (op : Op) (index : Index) : Index :=
  match op with
  | .put bytes now =>
    index.insert (sha256Hex bytes) { index[sha256Hex bytes]?.getD {} with
      sizeBytes := bytes.length, lastAccessedUnix := now }
  | .get digest now =>
    match index[digest]? with
    | none => index
    | some entry => index.insert digest { entry with lastAccessedUnix := now }
  | .pin digest value =>
    match index[digest]? with
    | none => index
    | some entry => index.insert digest { entry with pinned := value }
  | .gc target => (gcVictims target index).foldl (fun index digest ↦ index.erase digest) index

/-- A call takes its next step; `crates/agent/src/storage/mod.rs:76–153`. -/
def Op.advance (s : Store) : Op → Pc → Option (Store × Pc)
  | .put bytes _, .start =>
    match pathForDigest base (sha256Hex bytes) with
    | none => some (s, .done .panicked)
    | some path =>
      match s.writeBlob path bytes {} with
      | (t, some e) => some (t, .done (.digest (.error e)))
      | (t, none) => some (t, .blob)
  | .put _ _, .blob => some (s, .loaded s.index)
  | .put bytes now, .loaded index =>
    some ({ s with index := (Op.put bytes now).change sha256Hex index },
      .done (.digest (.ok (sha256Hex bytes))))
  | .get digest _, .start =>
    match pathForDigest base digest with
    | none => some (s, .done .panicked)
    | some _ =>
      if (lookupDigest base s.files digest).isSome then some (s, .blob)
      else some (s, .done (.path none))
  | .get digest _, .blob =>
    match s.index[digest]? with
    | none => some (s, .done (.path (pathForDigest base digest)))
    | some _ => some (s, .loaded s.index)
  | .get digest now, .loaded index =>
    some ({ s with index := (Op.get digest now).change sha256Hex index },
      .done (.path (pathForDigest base digest)))
  | .pin digest _, .start =>
    match s.index[digest]? with
    | none => some (s, .done (.unit (.error "digest not found")))
    | some _ => some (s, .loaded s.index)
  | .pin digest value, .loaded index =>
    some ({ s with index := (Op.pin digest value).change sha256Hex index },
      .done (.unit (.ok ())))
  | .gc target, .start => some (s, .removing s.index (gcVictims target s.index))
  | .gc _, .removing index (digest :: left) =>
    match pathForDigest base digest with
    | none => some (s, .done .panicked)
    | some path =>
      some ({ s with files := s.files.removeFile (Path.place path) }, .removing index left)
  | .gc target, .removing index [] =>
    some ({ s with index := (Op.gc target).change sha256Hex index }, .done (.unit (.ok ())))
  | _, _ => none

/-- A call that nothing disturbs, by the operations of the store. -/
def Op.alone (s : Store) : Op → Store
  | .put bytes now => ((s.putBytes sha256Hex base bytes { now }).map Prod.fst).getD s
  | .get digest now => ((s.getPath base digest { now }).map Prod.fst).getD s
  | .pin digest value => (s.pin digest value {}).1
  | .gc target => ((s.gcToTarget base target (fun _ ↦ false) {}).map Prod.fst).getD s

/-- The store after some calls, one after the other. -/
def sequential (s : Store) (ops : List Op) : Store := ops.foldl (Op.alone sha256Hex base) s

/-- A store and the calls on it. -/
structure Shared where
  store : Store
  calls : List (Op × Pc) := []

/-- A call begins, or one takes a step. -/
inductive Act where
  | begin (op : Op)
  | advance (k : Nat)

/-- One step of the system. -/
def step (s : Shared) : Act → Option Shared
  | .begin op => some { s with calls := s.calls ++ [(op, .start)] }
  | .advance k =>
    match s.calls[k]? with
    | none => none
    | some (op, pc) =>
      (op.advance sha256Hex base s.store pc).map fun (store, pc) ↦
        { store, calls := s.calls.set k (op, pc) }

/-! ### The promise -/

/-- All calls have returned. -/
def Finished (s : Shared) : Prop := ∀ call ∈ s.calls, ∃ outcome, call.2 = .done outcome

/-- A call that saves the index finds it as it loaded it. -/
def Undisturbed (s : Shared) : Act → Prop
  | .begin _ => True
  | .advance k =>
    (∀ op index, s.calls[k]? = some (op, .loaded index) → s.store.index = index) ∧
      ∀ op index, s.calls[k]? = some (op, .removing index []) → s.store.index = index

/-- The index is the one that the calls give in some order, one after the other. -/
def Serial (start : Store) (s : Shared) : Prop :=
  ∃ order : List Op, order.Perm (s.calls.map Prod.fst) ∧
    s.store.index = (sequential sha256Hex base start order).index

/-- A digest is listed and pinned. -/
def Pinned (digest : String) (s : Store) : Prop :=
  ∃ entry, s.index[digest]? = some entry ∧ entry.pinned = true

/-- The step returns `Ok` from a pin of the digest. -/
def PinsAt (digest : String) (s t : Shared) : Prop :=
  ∃ (k : Nat) (pc : Pc), s.calls[k]? = some (.pin digest true, pc) ∧ (∀ outcome, pc ≠ .done outcome) ∧
    t.calls[k]? = some (.pin digest true, .done (.unit (.ok ())))

/-- No call that unpins the digest is on its way. -/
def NoUnpin (digest : String) (s : Shared) : Prop :=
  ∀ pc : Pc, (Op.pin digest false, pc) ∈ s.calls → ∃ outcome, pc = .done outcome

/-- Once a pin has returned, and as long as no call unpins the digest, a collection that begins
later leaves its entry pinned and its blob as it is. -/
def PinsHold (start : Shared) (acts : List Act) : Prop :=
  ∀ before act later k rest digest s t u v target pc,
    acts = before ++ act :: (later ++ .advance k :: rest) →
    run (step sha256Hex base) start before = some s → step sha256Hex base s act = some t →
    PinsAt digest s t → NoUnpin digest t → (∀ a ∈ later, a ≠ .begin (.pin digest false)) →
    run (step sha256Hex base) t later = some u → u.calls[k]? = some (.gc target, pc) →
    t.calls.length ≤ k → step sha256Hex base u (.advance k) = some v →
      Pinned digest v.store ∧
        v.store.files[blobPlace base digest]? = u.store.files[blobPlace base digest]?

end Steps

/-! ### Calls, one after the other -/

/-- The base directory is in shape, and each entry is listed under a digest and has its blob. -/
structure Sound (base : String) (s : Store) : Prop where
  shape : Shape base s.files
  digests : ∀ digest entry, s.index[digest]? = some entry → IsDigest digest
  blobs : ∀ digest entry, s.index[digest]? = some entry →
    s.files[blobPlace base digest]? ≠ none

/-- A digest that is chosen is not pinned. -/
theorem pinned_of_mem_victims {digest : String} {target current : Nat}
    {items : List (String × IndexEntry)} (h : digest ∈ victims target current items) :
    ∃ entry, (digest, entry) ∈ items ∧ entry.pinned = false := by
  induction items generalizing current with
  | nil => cases h
  | cons item rest ih =>
    obtain ⟨d, entry⟩ := item
    have hlater {current : Nat} (h : digest ∈ victims target current rest) :
        ∃ e, (digest, e) ∈ (d, entry) :: rest ∧ e.pinned = false := by
      obtain ⟨e, hin, hpin⟩ := ih h
      exact ⟨e, List.mem_cons_of_mem _ hin, hpin⟩
    simp only [victims] at h
    split at h
    · cases h
    · split at h
      · exact hlater h
      · next hpin =>
        rcases List.mem_cons.mp h with rfl | hrest
        · exact ⟨entry, List.mem_cons_self, by simpa using hpin⟩
        · exact hlater hrest

/-- A collection removes entries of its index that are not pinned. -/
theorem entry_of_mem_gcVictims {digest : String} {target : Nat} {index : Index}
    (h : digest ∈ gcVictims target index) :
    ∃ entry, index[digest]? = some entry ∧ entry.pinned = false := by
  obtain ⟨entry, hin, hpin⟩ := pinned_of_mem_victims h
  have hlist : (digest, entry) ∈ index.toList := List.mem_mergeSort.mp hin
  exact ⟨entry, Std.ExtTreeMap.mem_toList_iff_getElem?_eq_some.mp hlist, hpin⟩

/-- A collection spares what its index has pinned. -/
theorem notMem_gcVictims {digest : String} {target : Nat} {index : Index} {entry : IndexEntry}
    (hentry : index[digest]? = some entry) (hpin : entry.pinned = true) :
    digest ∉ gcVictims target index := by
  intro hin
  obtain ⟨found, hfound, hfree⟩ := entry_of_mem_gcVictims hin
  rw [hentry] at hfound
  cases hfound
  rw [hpin] at hfree
  cases hfree

private theorem getElem?_foldl_erase (digests : List String) (index : Index) (digest : String) :
    (digests.foldl (fun index d ↦ index.erase d) index)[digest]? =
      if digest ∈ digests then none else index[digest]? := by
  induction digests generalizing index with
  | nil => simp
  | cons d rest ih =>
    rw [List.foldl_cons, ih, Table.getElem?_erase]
    by_cases hd : d = digest
    · simp [hd]
    · have hd' : ¬ digest = d := fun he ↦ hd he.symm
      simp [hd, hd']

section Sequential

variable {sha256Hex : Bytes → String} {base : String} {s : Store}

/-- What a call leaves of the entry of a digest. -/
theorem change_getElem? (op : Op) (index : Index) (digest : String) :
    (op.change sha256Hex index)[digest]? =
      match op with
      | .put bytes now =>
        if sha256Hex bytes = digest then
          some { index[digest]?.getD {} with sizeBytes := bytes.length, lastAccessedUnix := now }
        else index[digest]?
      | .get d now =>
        if d = digest then index[digest]?.map ({ · with lastAccessedUnix := now })
        else index[digest]?
      | .pin d value =>
        if d = digest then index[digest]?.map ({ · with pinned := value }) else index[digest]?
      | .gc target => if digest ∈ gcVictims target index then none else index[digest]? := by
  cases op with
  | put bytes now =>
    simp only [Op.change, Table.getElem?_insert]
    split
    · next heq => rw [heq]
    · rfl
  | get d now =>
    simp only [Op.change]
    split
    · next hnone =>
      split
      · next heq =>
        rw [← heq, hnone]
        rfl
      · rfl
    · next entry hentry =>
      rw [Table.getElem?_insert]
      split
      · next heq =>
        rw [← heq, hentry]
        rfl
      · rfl
  | pin d value =>
    simp only [Op.change]
    split
    · next hnone =>
      split
      · next heq =>
        rw [← heq, hnone]
        rfl
      · rfl
    · next entry hentry =>
      rw [Table.getElem?_insert]
      split
      · next heq =>
        rw [← heq, hentry]
        rfl
      · rfl
  | gc target => exact getElem?_foldl_erase _ _ _

/-- A lookup of a digest that is not listed changes nothing. -/
theorem change_get_of_none {digest : String} {now : Nat} {index : Index}
    (h : index[digest]? = none) : (Op.get digest now).change sha256Hex index = index := by
  simp only [Op.change, h]

/-- Pinning a digest that is not listed changes nothing. -/
theorem change_pin_of_none {digest : String} {value : Bool} {index : Index}
    (h : index[digest]? = none) : (Op.pin digest value).change sha256Hex index = index := by
  simp only [Op.change, h]

/-- Calls list digests only. -/
theorem digests_change (hsha : ∀ bytes, IsDigest (sha256Hex bytes)) (op : Op) {index : Index}
    (h : ∀ digest entry, index[digest]? = some entry → IsDigest digest) (digest : String)
    (entry : IndexEntry) (hentry : (op.change sha256Hex index)[digest]? = some entry) :
    IsDigest digest := by
  rw [change_getElem?] at hentry
  cases op with
  | put bytes now =>
    simp only at hentry
    split at hentry
    · next heq => exact heq ▸ hsha bytes
    · exact h digest entry hentry
  | get d now =>
    simp only at hentry
    split at hentry
    · obtain ⟨old, hold, -⟩ := Option.map_eq_some_iff.mp hentry
      exact h digest old hold
    · exact h digest entry hentry
  | pin d value =>
    simp only at hentry
    split at hentry
    · obtain ⟨old, hold, -⟩ := Option.map_eq_some_iff.mp hentry
      exact h digest old hold
    · exact h digest entry hentry
  | gc target =>
    simp only at hentry
    split at hentry
    · cases hentry
    · exact h digest entry hentry

/-- Only unpinning takes a pin away. -/
theorem pinned_change {op : Op} {digest : String} {index : Index} {entry : IndexEntry}
    (hop : op ≠ .pin digest false) (hentry : index[digest]? = some entry)
    (hpin : entry.pinned = true) :
    ∃ changed, (op.change sha256Hex index)[digest]? = some changed ∧ changed.pinned = true := by
  rw [change_getElem?]
  cases op with
  | put bytes now =>
    simp only [hentry]
    split
    · exact ⟨_, rfl, hpin⟩
    · exact ⟨entry, rfl, hpin⟩
  | get d now =>
    simp only [hentry]
    split
    · exact ⟨_, rfl, hpin⟩
    · exact ⟨entry, rfl, hpin⟩
  | pin d value =>
    simp only [hentry]
    split
    · next heq =>
      subst heq
      cases value with
      | false => exact absurd rfl hop
      | true => exact ⟨_, rfl, rfl⟩
    · exact ⟨entry, rfl, hpin⟩
  | gc target =>
    simp only [notMem_gcVictims hentry hpin, if_false]
    exact ⟨entry, hentry, hpin⟩

end Sequential

section Alone

variable {sha256Hex : Bytes → String} {base : String} {s : Store}

private theorem length_dropLast_blobPlace (base digest : String) :
    (blobPlace base digest).dropLast.length < (Path.place base).length + 3 := by
  rw [List.length_dropLast, length_blobPlace]
  omega

private theorem Shape.createDirAll {files : Files} (h : Shape base files) {dirs : List String}
    (hdirs : dirs.length < (Path.place base).length + 3) :
    Shape base (files.createDirAll dirs) where
  clear place hpre bytes hfile := h.clear place hpre bytes (Files.createDirAll_file hfile)
  file place bytes hbelow hfile := h.file place bytes hbelow (Files.createDirAll_file hfile)
  dir place hbelow hdir := by
    rcases Files.createDirAll_getElem? files dirs place with hsame | ⟨hpre, -, -⟩
    · rw [hsame] at hdir
      exact h.dir place hbelow hdir
    · exact Nat.lt_of_le_of_lt hpre.length_le hdirs

private theorem Shape.insert {files : Files} (h : Shape base files) (digest : String)
    (bytes : Bytes) : Shape base (files.insert (blobPlace base digest) (.file bytes)) where
  clear place hpre found hfile := by
    rw [Table.getElem?_insert] at hfile
    split at hfile
    · next heq =>
      have hle := hpre.length_le
      rw [← heq, length_blobPlace] at hle
      omega
    · exact h.clear place hpre found hfile
  file place found hbelow hfile := by
    rw [Table.getElem?_insert] at hfile
    split at hfile
    · next heq => rw [← heq, length_blobPlace]
    · exact h.file place found hbelow hfile
  dir place hbelow hdir := by
    rw [Table.getElem?_insert] at hdir
    split at hdir
    · cases hdir
    · exact h.dir place hbelow hdir

private theorem Shape.blob_ne_dir {files : Files} (h : Shape base files) (digest : String) :
    files[blobPlace base digest]? ≠ some .dir := by
  intro hdir
  have hlt := h.dir _ (below_blobPlace base digest) hdir
  rw [length_blobPlace] at hlt
  omega

private theorem Shape.removeFile_getElem? {files : Files} (h : Shape base files)
    (digest : String) (place : List String) :
    (files.removeFile (blobPlace base digest))[place]? =
      if blobPlace base digest = place then none else files[place]? :=
  Files.removeFile_getElem? (h.blob_ne_dir digest) place

private theorem Shape.removeFile {files : Files} (h : Shape base files) (digest : String) :
    Shape base (files.removeFile (blobPlace base digest)) := by
  have hold {place : List String} {entry : Entry}
      (hfound : (files.removeFile (blobPlace base digest))[place]? = some entry) :
      files[place]? = some entry := by
    rw [h.removeFile_getElem?] at hfound
    split at hfound
    · cases hfound
    · exact hfound
  exact {
    clear := fun place hpre bytes hfile ↦ h.clear place hpre bytes (hold hfile)
    file := fun place bytes hbelow hfile ↦ h.file place bytes hbelow (hold hfile)
    dir := fun place hbelow hdir ↦ h.dir place hbelow (hold hdir) }

/-- A blob is written, or was there; the other blobs stay. -/
theorem Shape.writes (h : Shape base s.files) {digest path : String}
    (hplace : Path.place path = blobPlace base digest)
    (hparent : Path.parentPlace path = (blobPlace base digest).dropLast) (bytes : Bytes)
    (now : Nat) : ∃ files, s.writeBlob path bytes { now } = ({ s with files }, none) ∧
      Shape base files ∧ files[blobPlace base digest]? ≠ none ∧
        ∀ place : List String, s.files[place]? ≠ none → files[place]? = s.files[place]? := by
  cases hfound : s.files[blobPlace base digest]? with
  | some found =>
    refine ⟨s.files, ?_, h, by simp [hfound], fun _ _ ↦ rfl⟩
    unfold Store.writeBlob
    rw [Std.ExtTreeMap.contains_eq_isSome_getElem?, hplace, hfound]
    simp
  | none =>
    refine ⟨_, h.writeBlob hplace hparent hfound bytes now,
      (h.createDirAll (length_dropLast_blobPlace base digest)).insert digest bytes, ?_, ?_⟩
    · rw [Table.getElem?_insert, if_pos rfl]
      simp
    · intro place hsome
      rw [Table.getElem?_insert]
      split
      · next heq =>
        subst heq
        exact absurd hfound hsome
      · rcases Files.createDirAll_getElem? s.files (blobPlace base digest).dropLast place with
          hsame | ⟨-, hnone, -⟩
        · exact hsame
        · exact absurd hnone hsome

private theorem collect_digests_eq {s : Store} {target current : Nat} {items : List (String × IndexEntry)}
    (hitems : ∀ item ∈ items, IsDigest item.1) :
    s.collect base target (fun _ ↦ false) current items = some {
      files := (victims target current items).foldl
        (fun files digest ↦ files.removeFile (blobPlace base digest)) s.files
      index := (victims target current items).foldl (fun index digest ↦ index.erase digest)
        s.index } := by
  induction items generalizing s current with
  | nil => rfl
  | cons item rest ih =>
    obtain ⟨digest, entry⟩ := item
    have hrest : ∀ item ∈ rest, IsDigest item.1 :=
      fun item hin ↦ hitems item (List.mem_cons_of_mem _ hin)
    simp only [Store.collect, victims]
    split
    · rfl
    · split
      · exact ih hrest
      · obtain ⟨path, hpath, hplace, -⟩ :=
          pathForDigest_eq_blob base (hitems _ List.mem_cons_self)
        simp only [hpath, Option.bind_eq_bind, Option.bind_some, hplace, Bool.false_eq_true,
          if_false]
        exact ih hrest

private theorem Shape.foldl_removeFile {files : Files} (h : Shape base files)
    (digests : List String) :
    Shape base (digests.foldl (fun files digest ↦ files.removeFile (blobPlace base digest))
      files) ∧ ∀ digest, digest ∉ digests →
        (digests.foldl (fun files digest ↦ files.removeFile (blobPlace base digest))
          files)[blobPlace base digest]? = files[blobPlace base digest]? := by
  induction digests generalizing files with
  | nil => exact ⟨h, fun _ _ ↦ rfl⟩
  | cons d rest ih =>
    obtain ⟨hshape, hsame⟩ := ih (h.removeFile d)
    refine ⟨hshape, fun digest hout ↦ ?_⟩
    rw [List.mem_cons, not_or] at hout
    rw [List.foldl_cons, hsame digest hout.2, h.removeFile_getElem?,
      if_neg fun heq ↦ hout.1 (blobPlace_inj heq).symm]

-- The call does to the index what it makes of it, and leaves a sound store.
private def DoesChange (sha256Hex : Bytes → String) (base : String) (s : Store) (op : Op) : Prop :=
  Sound base (op.alone sha256Hex base s) ∧
    (op.alone sha256Hex base s).index = op.change sha256Hex s.index

private theorem Sound.reindex (h : Sound base s) {index : Index}
    (hkeys : ∀ (digest : String) (entry : IndexEntry), index[digest]? = some entry →
      ∃ old, s.index[digest]? = some old) : Sound base { s with index } where
  shape := h.shape
  digests digest entry hentry := by
    obtain ⟨old, hold⟩ := hkeys digest entry hentry
    exact h.digests digest old hold
  blobs digest entry hentry := by
    obtain ⟨old, hold⟩ := hkeys digest entry hentry
    exact h.blobs digest old hold

private theorem Sound.alone_put (hsha : ∀ bytes, IsDigest (sha256Hex bytes)) (h : Sound base s)
    (bytes : Bytes) (now : Nat) : DoesChange sha256Hex base s (.put bytes now) := by
  obtain ⟨path, hpath, hplace, hparent⟩ := pathForDigest_eq_blob base (hsha bytes)
  obtain ⟨files, hwrite, hshape, hat, hsame⟩ := h.shape.writes hplace hparent bytes now
  have halone : (Op.put bytes now).alone sha256Hex base s =
      { files, index := (Op.put bytes now).change sha256Hex s.index } := by
    simp only [Op.alone, Store.putBytes, hpath, Option.bind_eq_bind, Option.bind_some, hwrite,
      Store.saveEntry, Op.change]
    rfl
  unfold DoesChange
  rw [halone]
  refine ⟨⟨hshape, digests_change hsha _ h.digests, ?_⟩, rfl⟩
  intro digest entry hentry
  simp only [change_getElem?] at hentry
  split at hentry
  · next heq => exact heq ▸ hat
  · have hold := h.blobs digest entry hentry
    intro hnone
    exact hold ((hsame _ hold).symm.trans hnone)

private theorem Sound.alone_get (h : Sound base s) (digest : String) (now : Nat) :
    DoesChange sha256Hex base s (.get digest now) := by
  unfold DoesChange
  cases hentry : s.index[digest]? with
  | none =>
    have halone : (Op.get digest now).alone sha256Hex base s = s := by
      simp only [Op.alone, Store.getPath]
      cases pathForDigest base digest with
      | none => rfl
      | some path =>
        simp only [Option.bind_eq_bind, Option.bind_some, hentry]
        split <;> rfl
    rw [change_get_of_none hentry, halone]
    exact ⟨h, rfl⟩
  | some entry =>
    obtain ⟨path, hpath, hplace, -⟩ := pathForDigest_eq_blob base (h.digests digest entry hentry)
    have hin : (lookupDigest base s.files digest).isSome = true := by
      rw [lookupDigest_of_isDigest s.files (h.digests digest entry hentry) hpath, hplace,
        Option.isSome_iff_ne_none]
      exact h.blobs digest entry hentry
    have halone : (Op.get digest now).alone sha256Hex base s =
        { s with index := (Op.get digest now).change sha256Hex s.index } := by
      simp only [Op.alone, Store.getPath, hpath, Option.bind_eq_bind, Option.bind_some, hentry,
        hin, if_true, Store.saveEntry, Op.change]
      rfl
    rw [halone]
    refine ⟨h.reindex ?_, rfl⟩
    intro d e he
    simp only [change_getElem?] at he
    split at he
    · obtain ⟨old, hold, -⟩ := Option.map_eq_some_iff.mp he
      exact ⟨old, hold⟩
    · exact ⟨e, he⟩

private theorem Sound.alone_pin (h : Sound base s) (digest : String) (value : Bool) :
    DoesChange sha256Hex base s (.pin digest value) := by
  unfold DoesChange
  cases hentry : s.index[digest]? with
  | none =>
    have halone : (Op.pin digest value).alone sha256Hex base s = s := by
      simp only [Op.alone, Store.pin, hentry]
    rw [change_pin_of_none hentry, halone]
    exact ⟨h, rfl⟩
  | some entry =>
    have halone : (Op.pin digest value).alone sha256Hex base s =
        { s with index := (Op.pin digest value).change sha256Hex s.index } := by
      simp only [Op.alone, Store.pin, hentry, Store.saveEntry, Op.change]
    rw [halone]
    refine ⟨h.reindex ?_, rfl⟩
    intro d e he
    simp only [change_getElem?] at he
    split at he
    · obtain ⟨old, hold, -⟩ := Option.map_eq_some_iff.mp he
      exact ⟨old, hold⟩
    · exact ⟨e, he⟩

private theorem Sound.alone_gc (h : Sound base s) (target : Nat) :
    DoesChange sha256Hex base s (.gc target) := by
  have hitems : ∀ item ∈ s.leastRecent, IsDigest item.1 := by
    intro item hin
    have hlist : item ∈ s.index.toList := List.mem_mergeSort.mp hin
    exact h.digests item.1 item.2 (Std.ExtTreeMap.mem_toList_iff_getElem?_eq_some.mp hlist)
  have halone : (Op.gc target).alone sha256Hex base s = {
      files := (gcVictims target s.index).foldl
        (fun files digest ↦ files.removeFile (blobPlace base digest)) s.files
      index := (Op.gc target).change sha256Hex s.index } := by
    simp only [Op.alone, Store.gcToTarget, collect_digests_eq hitems, Option.bind_eq_bind,
      Option.bind_some, Op.change]
    rfl
  obtain ⟨hshape, hsame⟩ := h.shape.foldl_removeFile (gcVictims target s.index)
  have hkeys (digest : String) (entry : IndexEntry)
      (hentry : ((Op.gc target).change sha256Hex s.index)[digest]? = some entry) :
      digest ∉ gcVictims target s.index ∧ s.index[digest]? = some entry := by
    simp only [change_getElem?] at hentry
    split at hentry
    · cases hentry
    · next hout => exact ⟨hout, hentry⟩
  unfold DoesChange
  rw [halone]
  refine ⟨⟨hshape, ?_, ?_⟩, rfl⟩
  · intro digest entry hentry
    exact h.digests digest entry (hkeys digest entry hentry).2
  · intro digest entry hentry hnone
    obtain ⟨hout, hold⟩ := hkeys digest entry hentry
    exact h.blobs digest entry hold ((hsame digest hout).symm.trans hnone)

/-- A call on a sound store does to the index what it makes of it, and leaves a sound store. -/
theorem Sound.alone (hsha : ∀ bytes, IsDigest (sha256Hex bytes)) (h : Sound base s) (op : Op) :
    Sound base (op.alone sha256Hex base s) ∧
      (op.alone sha256Hex base s).index = op.change sha256Hex s.index := by
  cases op with
  | put bytes now => exact h.alone_put hsha bytes now
  | get digest now => exact h.alone_get digest now
  | pin digest value => exact h.alone_pin digest value
  | gc target => exact h.alone_gc target

/-- Calls, one after the other, do to the index what they make of it. -/
theorem Sound.sequential (hsha : ∀ bytes, IsDigest (sha256Hex bytes)) (h : Sound base s)
    (ops : List Op) : Sound base (sequential sha256Hex base s ops) ∧
      (sequential sha256Hex base s ops).index =
        ops.foldl (fun index op ↦ op.change sha256Hex index) s.index := by
  induction ops generalizing s with
  | nil => exact ⟨h, rfl⟩
  | cons op rest ih =>
    obtain ⟨hsound, hindex⟩ := h.alone hsha op
    obtain ⟨hend, hfold⟩ := ih hsound
    refine ⟨hend, ?_⟩
    rw [List.foldl_cons, ← hindex]
    exact hfold

/-- A store that was just opened in an empty directory is sound. -/
theorem sound_of_empty (hempty : EmptyStore base s) (hclear : Clear base s.files) :
    Sound base (s.opened base) where
  shape := by
    have hagrees : Agrees (fun _ ↦ "") base [] s := agrees_of_empty hempty
    exact hagrees.opened.shape (clear_opened hclear)
  digests digest entry hentry := by
    have hindex : (s.opened base).index = ∅ := hempty.1
    rw [hindex] at hentry
    simp at hentry
  blobs digest entry hentry := by
    have hindex : (s.opened base).index = ∅ := hempty.1
    rw [hindex] at hentry
    simp at hentry

end Alone

/-! ### One step -/

section Moves

variable {sha256Hex : Bytes → String} {base : String} {s : Store}

/-- What a step of a call does to a store in shape. -/
inductive Moves (sha256Hex : Bytes → String) (base : String) (s : Store) :
    Op → Pc → Store → Pc → Prop where
  /-- The blob is there or was written. -/
  | write {op : Op} {files : Files} (hop : ∀ target, op ≠ .gc target) (shape : Shape base files)
      (kept : ∀ place : List String, s.files[place]? ≠ none →
        files[place]? = s.files[place]?) : Moves sha256Hex base s op .start { s with files } .blob
  | load {op : Op} {pc : Pc} (hpc : pc = .start ∨ pc = .blob)
      (listed : ∀ digest value, op = .pin digest value → s.index[digest]? ≠ none) :
      Moves sha256Hex base s op pc s (.loaded s.index)
  /-- The call returns, as the index lacks its digest. -/
  | absent {op : Op} {pc : Pc} {outcome : Outcome} (hpc : pc = .start ∨ pc = .blob)
      (same : op.change sha256Hex s.index = s.index) (fails : outcome ≠ .unit (.ok ())) :
      Moves sha256Hex base s op pc s (.done outcome)
  /-- The call returns, as there is no blob. -/
  | missing {digest : String} {now : Nat} {outcome : Outcome}
      (blob : s.files[blobPlace base digest]? = none) :
      Moves sha256Hex base s (.get digest now) .start s (.done outcome)
  | save {op : Op} {index : Index} {outcome : Outcome} :
      Moves sha256Hex base s op (.loaded index) { s with index := op.change sha256Hex index }
        (.done outcome)
  | choose {target : Nat} :
      Moves sha256Hex base s (.gc target) .start s (.removing s.index (gcVictims target s.index))
  | remove {target : Nat} {index : Index} {digest : String} {left : List String} :
      Moves sha256Hex base s (.gc target) (.removing index (digest :: left))
        { s with files := s.files.removeFile (blobPlace base digest) } (.removing index left)
  | finish {target : Nat} {index : Index} {outcome : Outcome} :
      Moves sha256Hex base s (.gc target) (.removing index [])
        { s with index := (Op.gc target).change sha256Hex index } (.done outcome)

/-- A step of a call is one of these. -/
theorem moves_of_advance (hsha : ∀ bytes, IsDigest (sha256Hex bytes)) (hshape : Shape base s.files)
    (hdigests : ∀ digest entry, s.index[digest]? = some entry → IsDigest digest) {op : Op}
    {pc next : Pc} {t : Store}
    (hleft : ∀ index left, pc = .removing index left → ∀ digest ∈ left, IsDigest digest)
    (h : op.advance sha256Hex base s pc = some (t, next)) : Moves sha256Hex base s op pc t next := by
  cases op with
  | put bytes now =>
    cases pc with
    | start =>
      obtain ⟨path, hpath, hplace, hparent⟩ := pathForDigest_eq_blob base (hsha bytes)
      obtain ⟨files, hwrite, hfiles, -, hkept⟩ := hshape.writes hplace hparent bytes 0
      simp only [Op.advance, hpath, hwrite] at h
      cases h
      exact .write nofun hfiles hkept
    | blob =>
      cases h
      exact .load (.inr rfl) nofun
    | loaded index =>
      cases h
      exact .save
    | removing index left => cases h
    | done outcome => cases h
  | get digest now =>
    cases pc with
    | start =>
      simp only [Op.advance] at h
      cases hentry : s.index[digest]? with
      | none =>
        split at h
        · cases h
          exact .absent (.inl rfl) (change_get_of_none hentry) nofun
        · split at h
          · cases h
            exact .write nofun hshape fun _ _ ↦ rfl
          · cases h
            exact .absent (.inl rfl) (change_get_of_none hentry) nofun
      | some entry =>
        obtain ⟨path, hpath, hplace, -⟩ := pathForDigest_eq_blob base (hdigests digest entry hentry)
        simp only [hpath] at h
        split at h
        · cases h
          exact .write nofun hshape fun _ _ ↦ rfl
        · next hout =>
          cases h
          apply Moves.missing
          rw [lookupDigest_of_isDigest s.files (hdigests digest entry hentry) hpath, hplace] at hout
          simpa using hout
    | blob =>
      simp only [Op.advance] at h
      split at h
      · next hentry =>
        cases h
        exact .absent (.inr rfl) (change_get_of_none hentry) nofun
      · cases h
        exact .load (.inr rfl) nofun
    | loaded index =>
      cases h
      exact .save
    | removing index left => cases h
    | done outcome => cases h
  | pin digest value =>
    cases pc with
    | start =>
      simp only [Op.advance] at h
      split at h
      · next hentry =>
        cases h
        exact .absent (.inl rfl) (change_pin_of_none hentry) nofun
      · next entry hentry =>
        cases h
        refine .load (.inl rfl) ?_
        rintro d v heq
        cases heq
        simp [hentry]
    | blob => cases h
    | loaded index =>
      cases h
      exact .save
    | removing index left => cases h
    | done outcome => cases h
  | gc target =>
    cases pc with
    | start =>
      cases h
      exact .choose
    | blob => cases h
    | loaded index => cases h
    | removing index left =>
      cases left with
      | nil =>
        cases h
        exact .finish
      | cons digest left =>
        obtain ⟨path, hpath, hplace, -⟩ :=
          pathForDigest_eq_blob base (hleft index _ rfl digest List.mem_cons_self)
        simp only [Op.advance, hpath, hplace] at h
        cases h
        exact .remove
    | done outcome => cases h

end Moves

/-! ### The order of the calls -/

section Order

variable (sha256Hex : Bytes → String) (base : String) (start : Index)

/-- The index after some calls, one after the other. -/
def after (order : List (Nat × Op)) : Index :=
  order.foldl (fun index call ↦ call.2.change sha256Hex index) start

/-- A collection in progress removes the digest. -/
def Removing (s : Shared) (digest : String) : Prop :=
  ∃ (i : Nat) (target : Nat) (index : Index) (left : List String),
    s.calls[i]? = some (.gc target, .removing index left) ∧ digest ∈ gcVictims target index

/-- At some point of the order the index lacks the digest. -/
def Placed (order : List (Nat × Op)) (digest : String) : Prop :=
  ∃ front back, order = front ++ back ∧ (after sha256Hex start front)[digest]? = none

/-- A lookup of the digest that found no blob has its point in the order, or will have it when a
collection has saved the index. -/
def Excused (s : Shared) (order : List (Nat × Op)) (digest : String) : Prop :=
  Removing s digest ∨ Placed sha256Hex start order digest

/-- The index lists digests, what is left to remove is among what was chosen, and a digest is
pinned where it is listed. -/
structure Tidy (s : Shared) : Prop where
  shape : Shape base s.store.files
  digests : ∀ digest entry, s.store.index[digest]? = some entry → IsDigest digest
  left : ∀ (k : Nat) (op : Op) (index : Index) (left : List String),
    s.calls[k]? = some (op, .removing index left) → ∃ target, op = .gc target ∧
      ∀ digest ∈ left, digest ∈ gcVictims target index ∧ IsDigest digest
  pins : ∀ (k : Nat) (digest : String) (value : Bool) (index : Index),
    s.calls[k]? = some (.pin digest value, .loaded index) → index[digest]? ≠ none

/-- Calls that have returned, in the order in which they took effect. -/
structure Ordered (s : Shared) (order : List (Nat × Op)) : Prop where
  nodup : order.Nodup
  returned : ∀ k op, (k, op) ∈ order → ∃ outcome, s.calls[k]? = some (op, .done outcome)
  covers : ∀ (k : Nat) (op : Op) (outcome : Outcome), s.calls[k]? = some (op, .done outcome) →
    (k, op) ∈ order ∨
      ∃ digest now, op = .get digest now ∧ Excused sha256Hex start s order digest
  index : s.store.index = after sha256Hex start order
  missing : ∀ digest, s.store.files[blobPlace base digest]? = none →
    Excused sha256Hex start s order digest

end Order

section Steps

variable {sha256Hex : Bytes → String} {base : String} {start : Index} {s t : Shared}
  {order : List (Nat × Op)} {k : Nat} {op : Op} {pc next : Pc} {store : Store}

private theorem call_of_step (h : step sha256Hex base s (.advance k) = some t) :
    ∃ (op : Op) (pc next : Pc) (store : Store), s.calls[k]? = some (op, pc) ∧
      op.advance sha256Hex base s.store pc = some (store, next) ∧
      t = { store, calls := s.calls.set k (op, next) } := by
  simp only [step] at h
  split at h
  · cases h
  · next op pc hk =>
    obtain ⟨⟨store, next⟩, hadvance, heq⟩ := Option.map_eq_some_iff.mp h
    exact ⟨op, pc, next, store, hk, hadvance, heq.symm⟩

private theorem getElem?_set_call (hk : s.calls[k]? = some (op, pc)) (call : Op × Pc) (j : Nat) :
    (s.calls.set k call)[j]? = if k = j then some call else s.calls[j]? := by
  rw [List.getElem?_set, if_pos (List.getElem?_eq_some_iff.mp hk).1]

/-- A digest that is placed stays so. -/
theorem Placed.append {digest : String} (h : Placed sha256Hex start order digest)
    (more : List (Nat × Op)) : Placed sha256Hex start (order ++ more) digest := by
  obtain ⟨front, back, rfl, hnone⟩ := h
  exact ⟨front, back ++ more, List.append_assoc front back more, hnone⟩

private theorem placed_of_none {digest : String}
    (h : (after sha256Hex start order)[digest]? = none) :
    Placed sha256Hex start order digest :=
  ⟨order, [], (List.append_nil order).symm, h⟩

private theorem Removing.set {digest : String} (h : Removing s digest)
    (hk : s.calls[k]? = some (op, pc))
    (hpc : ∀ index left, pc = .removing index left → ∃ rest, next = .removing index rest) :
    Removing { store, calls := s.calls.set k (op, next) } digest := by
  obtain ⟨i, target, index, left, hi, hin⟩ := h
  by_cases hik : k = i
  · subst hik
    rw [hk] at hi
    cases hi
    obtain ⟨rest, rfl⟩ := hpc index left rfl
    refine ⟨k, target, index, rest, ?_, hin⟩
    rw [getElem?_set_call hk, if_pos rfl]
  · refine ⟨i, target, index, left, ?_, hin⟩
    rw [getElem?_set_call hk, if_neg hik, hi]

private theorem Tidy.moves (hsha : ∀ bytes, IsDigest (sha256Hex bytes)) (h : Tidy base s)
    (hund : Undisturbed s (.advance k)) (hk : s.calls[k]? = some (op, pc))
    (hmoves : Moves sha256Hex base s.store op pc store next) :
    Tidy base { store, calls := s.calls.set k (op, next) } where
  shape := by
    cases hmoves with
    | write hop shape kept => exact shape
    | remove => exact h.shape.removeFile _
    | load | absent | missing | save | choose | finish => exact h.shape
  digests := by
    cases hmoves with
    | save =>
      cases hund.1 _ _ hk
      exact digests_change hsha op h.digests
    | finish =>
      cases hund.2 _ _ hk
      exact digests_change hsha _ h.digests
    | write | remove | load | absent | missing | choose => exact h.digests
  left j other index left hj := by
    simp only [getElem?_set_call hk] at hj
    split at hj
    · cases hmoves with
      | choose =>
        cases hj
        refine ⟨_, rfl, fun digest hin ↦ ⟨hin, ?_⟩⟩
        obtain ⟨entry, hentry, -⟩ := entry_of_mem_gcVictims hin
        exact h.digests digest entry hentry
      | remove =>
        cases hj
        obtain ⟨target, htarget, hleft⟩ := h.left _ _ _ _ hk
        exact ⟨target, htarget, fun digest hin ↦ hleft digest (List.mem_cons_of_mem _ hin)⟩
      | write | load | absent | missing | save | finish => cases hj
    · exact h.left j other index left hj
  pins j digest value index hj := by
    simp only [getElem?_set_call hk] at hj
    split at hj
    · cases hmoves with
      | load hpc listed =>
        cases hj
        exact listed digest value rfl
      | write | choose | remove | absent | missing | save | finish => cases hj
    · exact h.pins j digest value index hj

private theorem Ordered.going (h : Ordered sha256Hex base start s order)
    (hk : s.calls[k]? = some (op, pc)) (hpc : ∀ outcome, pc ≠ .done outcome)
    (hnext : ∀ outcome, next ≠ .done outcome) (hindex : store.index = s.store.index)
    (hremoving : ∀ digest, Removing s digest →
      Removing { store, calls := s.calls.set k (op, next) } digest)
    (hfiles : ∀ digest, store.files[blobPlace base digest]? = none →
      s.store.files[blobPlace base digest]? = none ∨
        Removing { store, calls := s.calls.set k (op, next) } digest) :
    Ordered sha256Hex base start { store, calls := s.calls.set k (op, next) } order where
  nodup := h.nodup
  returned j other hin := by
    obtain ⟨outcome, hj⟩ := h.returned j other hin
    have hne : k ≠ j := by
      rintro rfl
      rw [hk] at hj
      cases hj
      exact hpc outcome rfl
    exact ⟨outcome, by simpa only [getElem?_set_call hk, if_neg hne] using hj⟩
  covers j other outcome hj := by
    simp only [getElem?_set_call hk] at hj
    split at hj
    · cases hj
      exact absurd rfl (hnext outcome)
    · rcases h.covers j other outcome hj with hin | ⟨digest, now, hop, hexcused⟩
      · exact .inl hin
      · exact .inr ⟨digest, now, hop, hexcused.imp_left (hremoving digest)⟩
  index := hindex.trans h.index
  missing digest hnone := by
    rcases hfiles digest hnone with hnone | hnow
    · exact (h.missing digest hnone).imp_left (hremoving digest)
    · exact .inl hnow

private theorem Ordered.returns (h : Ordered sha256Hex base start s order)
    (hk : s.calls[k]? = some (op, pc)) (hpc : ∀ outcome, pc ≠ .done outcome) {outcome : Outcome}
    (hfiles : store.files = s.store.files)
    (hindex : store.index = op.change sha256Hex s.store.index)
    (hremoving : ∀ digest, Removing s digest →
      Removing { store, calls := s.calls.set k (op, .done outcome) } digest ∨
        store.index[digest]? = none) :
    Ordered sha256Hex base start { store, calls := s.calls.set k (op, .done outcome) }
      (order ++ [(k, op)]) := by
  have hafter : store.index = after sha256Hex start (order ++ [(k, op)]) := by
    rw [hindex, h.index, after, after, List.foldl_append]
    rfl
  have hexcused {digest : String} (hold : Excused sha256Hex start s order digest) :
      Excused sha256Hex start { store, calls := s.calls.set k (op, .done outcome) }
        (order ++ [(k, op)]) digest := by
    rcases hold with hold | hplaced
    · rcases hremoving digest hold with hnow | hnone
      · exact .inl hnow
      · exact .inr (placed_of_none (hafter ▸ hnone))
    · exact .inr (hplaced.append _)
  constructor
  case nodup =>
    rw [List.nodup_append]
    refine ⟨h.nodup, by simp, ?_⟩
    rintro call hin _ hlast rfl
    obtain rfl := List.mem_singleton.mp hlast
    obtain ⟨found, hfound⟩ := h.returned k op hin
    rw [hk] at hfound
    cases hfound
    exact hpc found rfl
  case returned =>
    intro j other hin
    simp only [getElem?_set_call hk]
    rcases List.mem_append.mp hin with hin | hlast
    · obtain ⟨found, hj⟩ := h.returned j other hin
      have hne : k ≠ j := by
        rintro rfl
        rw [hk] at hj
        cases hj
        exact hpc found rfl
      exact ⟨found, by rw [if_neg hne, hj]⟩
    · cases List.mem_singleton.mp hlast
      exact ⟨outcome, if_pos rfl⟩
  case covers =>
    intro j other found hj
    simp only [getElem?_set_call hk] at hj
    split at hj
    · next heq =>
      subst heq
      cases hj
      exact .inl (List.mem_append_right _ List.mem_cons_self)
    · rcases h.covers j other found hj with hin | ⟨digest, now, hop, hold⟩
      · exact .inl (List.mem_append_left _ hin)
      · exact .inr ⟨digest, now, hop, hexcused hold⟩
  case index => exact hafter
  case missing =>
    intro digest hnone
    simp only [hfiles] at hnone
    exact hexcused (h.missing digest hnone)

private theorem Ordered.excuses (h : Ordered sha256Hex base start s order) {digest : String}
    {now : Nat} {outcome : Outcome} (hk : s.calls[k]? = some (.get digest now, .start))
    (hblob : s.store.files[blobPlace base digest]? = none) :
    Ordered sha256Hex base start
      { s with calls := s.calls.set k (.get digest now, .done outcome) } order := by
  have hexcused {d : String} (hold : Excused sha256Hex start s order d) :
      Excused sha256Hex start { s with calls := s.calls.set k (.get digest now, .done outcome) }
        order d := by
    apply hold.imp_left
    intro hremoving
    exact hremoving.set hk fun index left he ↦ nomatch he
  constructor
  case nodup => exact h.nodup
  case returned =>
    intro j other hin
    obtain ⟨found, hj⟩ := h.returned j other hin
    have hne : k ≠ j := by
      rintro rfl
      rw [hk] at hj
      cases hj
    exact ⟨found, by simpa only [getElem?_set_call hk, if_neg hne] using hj⟩
  case covers =>
    intro j other found hj
    simp only [getElem?_set_call hk] at hj
    split at hj
    · cases hj
      exact .inr ⟨digest, now, rfl, hexcused (h.missing digest hblob)⟩
    · rcases h.covers j other found hj with hin | ⟨d, n, hop, hold⟩
      · exact .inl hin
      · exact .inr ⟨d, n, hop, hexcused hold⟩
  case index => exact h.index
  case missing => exact fun d hnone ↦ hexcused (h.missing d hnone)

private theorem Ordered.moves (htidy : Tidy base s) (h : Ordered sha256Hex base start s order)
    (hund : Undisturbed s (.advance k)) (hk : s.calls[k]? = some (op, pc))
    (hmoves : Moves sha256Hex base s.store op pc store next) :
    ∃ longer, Ordered sha256Hex base start { store, calls := s.calls.set k (op, next) } longer := by
  cases hmoves with
  | write hop shape kept =>
    refine ⟨order, h.going hk nofun nofun rfl ?_ ?_⟩
    · exact fun digest hold ↦ hold.set hk nofun
    · intro digest hnone
      refine .inl (Classical.byContradiction fun hsome ↦ ?_)
      exact hsome ((kept _ hsome).symm.trans hnone)
  | load hpc listed =>
    have hquiet : ∀ outcome, pc ≠ .done outcome := by
      rcases hpc with rfl | rfl <;> exact nofun
    refine ⟨order, h.going hk hquiet nofun rfl ?_ fun digest hnone ↦ .inl hnone⟩
    intro digest hold
    exact hold.set hk (by rcases hpc with rfl | rfl <;> exact nofun)
  | absent hpc same fails =>
    have hquiet : ∀ outcome, pc ≠ .done outcome := by
      rcases hpc with rfl | rfl <;> exact nofun
    refine ⟨_, h.returns hk hquiet rfl same.symm fun digest hold ↦ .inl (hold.set hk ?_)⟩
    rcases hpc with rfl | rfl <;> exact nofun
  | missing blob => exact ⟨order, h.excuses hk blob⟩
  | save =>
    cases hund.1 _ _ hk
    exact ⟨_, h.returns hk nofun rfl rfl fun digest hold ↦ .inl (hold.set hk nofun)⟩
  | choose =>
    refine ⟨order, h.going hk nofun nofun rfl ?_ fun digest hnone ↦ .inl hnone⟩
    exact fun digest hold ↦ hold.set hk nofun
  | @remove target index digest left =>
    refine ⟨order, h.going hk nofun nofun rfl ?_ ?_⟩
    · intro d hold
      apply hold.set hk
      intro found rest heq
      cases heq
      exact ⟨left, rfl⟩
    · intro d hnone
      rw [htidy.shape.removeFile_getElem?] at hnone
      split at hnone
      · next heq =>
        -- the blob that this step removes
        obtain ⟨target', htarget, hleft⟩ := htidy.left _ _ _ _ hk
        cases htarget
        rw [← blobPlace_inj heq]
        refine .inr ⟨k, target, index, left, ?_, (hleft digest List.mem_cons_self).1⟩
        rw [getElem?_set_call hk, if_pos rfl]
      · exact .inl hnone
  | @finish target index outcome =>
    cases hund.2 _ _ hk
    refine ⟨_, h.returns hk nofun rfl rfl ?_⟩
    intro d hold
    obtain ⟨i, other, index, left, hi, hin⟩ := hold
    by_cases hik : k = i
    · subst hik
      rw [hk] at hi
      cases hi
      refine .inr ?_
      simp only [change_getElem?, hin, if_true]
    · refine .inl ⟨i, other, index, left, ?_, hin⟩
      rw [getElem?_set_call hk, if_neg hik, hi]

end Steps

section Runs

variable {sha256Hex : Bytes → String} {base : String} {start : Index} {s t : Shared}
  {order : List (Nat × Op)}

-- The store stays tidy and its calls stay in order.
private def Steady (sha256Hex : Bytes → String) (base : String) (start : Index) (s : Shared) :
    Prop :=
  Tidy base s ∧ ∃ order, Ordered sha256Hex base start s order

private theorem steady_start {store : Store} (h : Sound base store) :
    Steady sha256Hex base store.index { store } := by
  refine ⟨⟨h.shape, h.digests, fun k op index left hk ↦ ?_, fun k digest value index hk ↦ ?_⟩,
    [], ?_⟩
  · simp at hk
  · simp at hk
  · constructor
    case nodup => exact List.nodup_nil
    case returned => exact fun k op hin ↦ nomatch hin
    case covers =>
      intro k op outcome hk
      simp at hk
    case index => rfl
    case missing =>
      intro digest hnone
      refine .inr (placed_of_none ?_)
      cases hentry : store.index[digest]? with
      | none => exact hentry
      | some entry => exact absurd hnone (h.blobs digest entry hentry)

private theorem call_of_begin {op : Op} {k : Nat} {call : Op × Pc}
    (hk : (s.calls ++ [(op, Pc.start)])[k]? = some call) :
    s.calls[k]? = some call ∨ call = (op, .start) := by
  rw [List.getElem?_append] at hk
  split at hk
  · exact .inl hk
  · exact .inr (List.mem_singleton.mp (List.mem_of_getElem? hk))

private theorem Tidy.begin (h : Tidy base s) (op : Op) :
    Tidy base { s with calls := s.calls ++ [(op, .start)] } where
  shape := h.shape
  digests := h.digests
  left k other index left hk := by
    rcases call_of_begin hk with hk | heq
    · exact h.left k other index left hk
    · cases heq
  pins k digest value index hk := by
    rcases call_of_begin hk with hk | heq
    · exact h.pins k digest value index hk
    · cases heq

private theorem Ordered.begin (h : Ordered sha256Hex base start s order) (op : Op) :
    Ordered sha256Hex base start { s with calls := s.calls ++ [(op, .start)] } order := by
  have hold {k : Nat} {call : Op × Pc} (hk : s.calls[k]? = some call) :
      (s.calls ++ [(op, Pc.start)])[k]? = some call := by
    rw [List.getElem?_append_left (List.getElem?_eq_some_iff.mp hk).1, hk]
  have hremoving {digest : String} (hr : Removing s digest) :
      Removing { s with calls := s.calls ++ [(op, .start)] } digest := by
    obtain ⟨i, target, index, left, hi, hin⟩ := hr
    exact ⟨i, target, index, left, hold hi, hin⟩
  constructor
  case nodup => exact h.nodup
  case returned =>
    intro k other hin
    obtain ⟨outcome, hk⟩ := h.returned k other hin
    exact ⟨outcome, hold hk⟩
  case covers =>
    intro k other outcome hk
    rcases call_of_begin hk with hk | heq
    · rcases h.covers k other outcome hk with hin | ⟨digest, now, hop, hexcused⟩
      · exact .inl hin
      · exact .inr ⟨digest, now, hop, hexcused.imp_left hremoving⟩
    · cases heq
  case index => exact h.index
  case missing => exact fun digest hnone ↦ (h.missing digest hnone).imp_left hremoving

private theorem moves_of_step (hsha : ∀ bytes, IsDigest (sha256Hex bytes)) (h : Tidy base s)
    {k : Nat} (hstep : step sha256Hex base s (.advance k) = some t) :
    ∃ (op : Op) (pc next : Pc) (store : Store), s.calls[k]? = some (op, pc) ∧
      Moves sha256Hex base s.store op pc store next ∧
      t = { store, calls := s.calls.set k (op, next) } := by
  obtain ⟨op, pc, next, store, hk, hadvance, rfl⟩ := call_of_step hstep
  refine ⟨op, pc, next, store, hk, ?_, rfl⟩
  apply moves_of_advance hsha h.shape h.digests _ hadvance
  rintro index left rfl digest hin
  obtain ⟨target, -, hleft⟩ := h.left k op index left hk
  exact (hleft digest hin).2

private theorem Tidy.step (hsha : ∀ bytes, IsDigest (sha256Hex bytes)) {act : Act}
    (h : Tidy base s) (hund : Undisturbed s act) (hstep : step sha256Hex base s act = some t) :
    Tidy base t := by
  cases act with
  | begin op =>
    cases hstep
    exact h.begin op
  | advance k =>
    obtain ⟨op, pc, next, store, hk, hmoves, rfl⟩ := moves_of_step hsha h hstep
    exact h.moves hsha hund hk hmoves

private theorem Steady.step (hsha : ∀ bytes, IsDigest (sha256Hex bytes)) {act : Act}
    (h : Steady sha256Hex base start s) (hund : Undisturbed s act)
    (hstep : step sha256Hex base s act = some t) : Steady sha256Hex base start t := by
  obtain ⟨htidy, order, horder⟩ := h
  refine ⟨htidy.step hsha hund hstep, ?_⟩
  cases act with
  | begin op =>
    cases hstep
    exact ⟨order, horder.begin op⟩
  | advance k =>
    obtain ⟨op, pc, next, store, hk, hmoves, rfl⟩ := moves_of_step hsha htidy hstep
    exact horder.moves htidy hund hk hmoves

/-! ### Placing the lookups that found no blob -/

private theorem after_insert {front back : List (Nat × Op)} {call : Nat × Op}
    (h : call.2.change sha256Hex (after sha256Hex start front) = after sha256Hex start front) :
    after sha256Hex start (front ++ call :: back) = after sha256Hex start (front ++ back) := by
  unfold after at h ⊢
  rw [List.foldl_append, List.foldl_append, List.foldl_cons, h]

private theorem Placed.insert {front back : List (Nat × Op)} {call : Nat × Op} {digest : String}
    (h : call.2.change sha256Hex (after sha256Hex start front) = after sha256Hex start front)
    (hplaced : Placed sha256Hex start (front ++ back) digest) :
    Placed sha256Hex start (front ++ call :: back) digest := by
  obtain ⟨before, rest, heq, hnone⟩ := hplaced
  rcases List.append_eq_append_iff.mp heq with ⟨more, rfl, rfl⟩ | ⟨more, rfl, rfl⟩
  · refine ⟨front ++ call :: more, rest, by simp, ?_⟩
    rwa [after_insert h]
  · exact ⟨before, more ++ call :: back, by simp, hnone⟩

-- Lookups that have their points in an order can be put there.
private theorem exists_filled (pending : List (Nat × Op))
    (h : ∀ call ∈ pending, ∃ digest now, call.2 = .get digest now ∧
      Placed sha256Hex start order digest) :
    ∃ full, full.Perm (pending ++ order) ∧
      after sha256Hex start full = after sha256Hex start order := by
  induction pending generalizing order with
  | nil => exact ⟨order, List.Perm.refl _, rfl⟩
  | cons call rest ih =>
    obtain ⟨digest, now, hop, front, back, rfl, hnone⟩ := h call List.mem_cons_self
    have hsame : call.2.change sha256Hex (after sha256Hex start front) =
        after sha256Hex start front := by
      rw [hop]
      exact change_get_of_none hnone
    have hrest : ∀ other ∈ rest, ∃ digest now, other.2 = .get digest now ∧
        Placed sha256Hex start (front ++ call :: back) digest := by
      intro other hin
      obtain ⟨d, n, hother, hplaced⟩ := h other (List.mem_cons_of_mem _ hin)
      exact ⟨d, n, hother, hplaced.insert hsame⟩
    obtain ⟨full, hperm, hafter⟩ := ih hrest
    refine ⟨full, hperm.trans ?_, hafter.trans (after_insert hsame)⟩
    rw [← List.append_assoc, List.cons_append, ← List.append_assoc]
    exact List.perm_middle

-- All calls with their numbers.
private def numbered (s : Shared) : List (Nat × Op) :=
  s.calls.zipIdx.map fun (call, k) ↦ (k, call.1)

private theorem mem_numbered {k : Nat} {op : Op} :
    (k, op) ∈ numbered s ↔ ∃ pc, s.calls[k]? = some (op, pc) := by
  simp only [numbered, List.mem_map, Prod.mk.injEq, Prod.exists, List.mem_zipIdx_iff_getElem?]
  constructor
  · rintro ⟨other, pc, j, hj, rfl, rfl⟩
    exact ⟨pc, hj⟩
  · rintro ⟨pc, hk⟩
    exact ⟨op, pc, k, hk, rfl, rfl⟩

private theorem nodup_numbered (s : Shared) : (numbered s).Nodup := by
  have hkeys : (numbered s).map Prod.fst = List.range' 0 s.calls.length := by
    rw [numbered, List.map_map, ← List.zipIdx_map_snd 0 s.calls]
    rfl
  have hnodup : ((numbered s).map Prod.fst).Nodup := hkeys ▸ List.nodup_range'
  exact List.Pairwise.of_map Prod.fst (fun x y hne he ↦ hne (congrArg Prod.fst he)) hnodup

private theorem map_snd_numbered (s : Shared) :
    (numbered s).map Prod.snd = s.calls.map Prod.fst := by
  conv => rhs; rw [← List.zipIdx_map_fst 0 s.calls]
  rw [numbered, List.map_map, List.map_map]
  rfl

-- When all calls have returned, the index is that of some order of them.
private theorem Ordered.serial (hsha : ∀ bytes, IsDigest (sha256Hex bytes)) {store : Store}
    (hstore : Sound base store) (h : Ordered sha256Hex base store.index s order)
    (hfinished : Finished s) : Serial sha256Hex base store s := by
  let pending := (numbered s).filter (· ∉ order)
  have hpending : ∀ call ∈ pending, ∃ digest now, call.2 = .get digest now ∧
      Placed sha256Hex store.index order digest := by
    rintro ⟨k, op⟩ hin
    obtain ⟨hcall, hout⟩ := List.mem_filter.mp hin
    obtain ⟨pc, hk⟩ := mem_numbered.mp hcall
    obtain ⟨outcome, rfl⟩ : ∃ outcome, pc = .done outcome := hfinished _ (List.mem_of_getElem? hk)
    rcases h.covers k op outcome hk with hordered | ⟨digest, now, hop, hremoving | hplaced⟩
    · exact absurd hordered (by simpa using hout)
    · -- no collection is in progress any more
      obtain ⟨i, target, index, left, hi, -⟩ := hremoving
      obtain ⟨found, hfound⟩ := hfinished _ (List.mem_of_getElem? hi)
      cases hfound
    · exact ⟨digest, now, hop, hplaced⟩
  obtain ⟨full, hperm, hafter⟩ := exists_filled pending hpending
  have hall : (pending ++ order).Perm (numbered s) := by
    rw [List.perm_ext_iff_of_nodup _ (nodup_numbered s)]
    · rintro ⟨k, op⟩
      have hreturned : (k, op) ∈ order → (k, op) ∈ numbered s := by
        intro hin
        obtain ⟨outcome, hk⟩ := h.returned k op hin
        exact mem_numbered.mpr ⟨_, hk⟩
      by_cases hin : (k, op) ∈ order
      · simp [pending, hin, hreturned hin]
      · simp [pending, hin]
    · rw [List.nodup_append]
      refine ⟨(nodup_numbered s).filter _, h.nodup, ?_⟩
      rintro call hin _ hother rfl
      simpa [hother] using (List.mem_filter.mp hin).2
  refine ⟨full.map Prod.snd, ?_, ?_⟩
  · rw [← map_snd_numbered]
    exact (hperm.trans hall).map Prod.snd
  · rw [(hstore.sequential hsha _).2, List.foldl_map, h.index, ← hafter, after]

/-! ### Pins -/

private theorem pinned_step (hsha : ∀ bytes, IsDigest (sha256Hex bytes)) (htidy : Tidy base s)
    {act : Act} {digest : String} (hund : Undisturbed s act) (hunpin : NoUnpin digest s)
    (hpinned : Pinned digest s.store) (hstep : step sha256Hex base s act = some t) :
    Pinned digest t.store := by
  cases act with
  | begin op =>
    cases hstep
    exact hpinned
  | advance k =>
    obtain ⟨op, pc, next, store, hk, hmoves, rfl⟩ := moves_of_step hsha htidy hstep
    obtain ⟨entry, hentry, hpin⟩ := hpinned
    cases hmoves with
    | save =>
      cases hund.1 _ _ hk
      apply pinned_change _ hentry hpin
      rintro rfl
      obtain ⟨outcome, hdone⟩ := hunpin _ (List.mem_of_getElem? hk)
      cases hdone
    | finish =>
      cases hund.2 _ _ hk
      exact pinned_change nofun hentry hpin
    | write | remove | load | absent | missing | choose => exact ⟨entry, hentry, hpin⟩

private theorem noUnpin_step (hsha : ∀ bytes, IsDigest (sha256Hex bytes)) (htidy : Tidy base s)
    {act : Act} {digest : String} (hact : act ≠ .begin (.pin digest false))
    (h : NoUnpin digest s) (hstep : step sha256Hex base s act = some t) : NoUnpin digest t := by
  cases act with
  | begin op =>
    cases hstep
    intro pc hin
    rcases List.mem_append.mp hin with hold | hnew
    · exact h pc hold
    · cases List.mem_singleton.mp hnew
      exact absurd rfl hact
  | advance k =>
    obtain ⟨op, pc, next, store, hk, hmoves, rfl⟩ := moves_of_step hsha htidy hstep
    intro found hin
    rcases List.mem_or_eq_of_mem_set hin with hold | heq
    · exact h found hold
    · cases heq
      obtain ⟨outcome, rfl⟩ := h pc (List.mem_of_getElem? hk)
      cases hmoves with
      | load hpc | absent hpc => rcases hpc with hpc | hpc <;> cases hpc

-- The collections that begin later have not chosen the digest.
private def Spared (digest : String) (first : Nat) (s : Shared) : Prop :=
  ∀ (k : Nat) (target : Nat) (index : Index) (left : List String), first ≤ k →
    s.calls[k]? = some (.gc target, .removing index left) → digest ∉ left

private theorem spared_step (hsha : ∀ bytes, IsDigest (sha256Hex bytes)) (htidy : Tidy base s)
    {act : Act} {digest : String} {first : Nat} (hpinned : Pinned digest s.store)
    (h : Spared digest first s) (hstep : step sha256Hex base s act = some t) :
    Spared digest first t := by
  cases act with
  | begin op =>
    cases hstep
    intro k target index left hfirst hk
    simp only [List.getElem?_append] at hk
    split at hk
    · exact h k target index left hfirst hk
    · cases List.mem_singleton.mp (List.mem_of_getElem? hk)
  | advance j =>
    obtain ⟨op, pc, next, store, hj, hmoves, rfl⟩ := moves_of_step hsha htidy hstep
    intro k target index left hfirst hk
    simp only [getElem?_set_call hj] at hk
    split at hk
    · next heq =>
      subst heq
      cases hmoves with
      | choose =>
        cases hk
        obtain ⟨entry, hentry, hpin⟩ := hpinned
        exact notMem_gcVictims hentry hpin
      | remove =>
        cases hk
        exact fun hin ↦ h j _ _ _ hfirst hj (List.mem_cons_of_mem _ hin)
      | write | load | absent | missing | save | finish => cases hk
    · exact h k target index left hfirst hk

private theorem pinned_of_pinsAt (hsha : ∀ bytes, IsDigest (sha256Hex bytes)) (htidy : Tidy base s)
    {act : Act} {digest : String} (hund : Undisturbed s act) (hpins : PinsAt digest s t)
    (hstep : step sha256Hex base s act = some t) : Pinned digest t.store := by
  obtain ⟨j, pc, hj, hquiet, hreturned⟩ := hpins
  cases act with
  | begin op =>
    cases hstep
    rw [List.getElem?_append_left (List.getElem?_eq_some_iff.mp hj).1, hj] at hreturned
    cases hreturned
    exact absurd rfl (hquiet _)
  | advance k =>
    obtain ⟨op, old, next, store, hk, hmoves, rfl⟩ := moves_of_step hsha htidy hstep
    simp only [getElem?_set_call hk] at hreturned
    split at hreturned
    · next heq =>
      subst heq
      cases hreturned
      cases hmoves with
      | absent hpc same fails => exact absurd rfl fails
      | save =>
        rename_i index
        obtain ⟨entry, hentry⟩ := Option.ne_none_iff_exists'.mp (htidy.pins _ _ _ _ hk)
        refine ⟨{ entry with pinned := true }, ?_, rfl⟩
        simp only [change_getElem?, if_true, hentry, Option.map_some]
    · rw [hj] at hreturned
      cases hreturned
      exact absurd rfl (hquiet _)

private theorem blob_kept (hsha : ∀ bytes, IsDigest (sha256Hex bytes)) (htidy : Tidy base s)
    {k first target : Nat} {pc : Pc} {digest : String} (hk : s.calls[k]? = some (.gc target, pc))
    (hfirst : first ≤ k) (hspared : Spared digest first s)
    (hstep : step sha256Hex base s (.advance k) = some t) :
    t.store.files[blobPlace base digest]? = s.store.files[blobPlace base digest]? := by
  obtain ⟨op, old, next, store, hk', hmoves, rfl⟩ := moves_of_step hsha htidy hstep
  rw [hk] at hk'
  cases hk'
  cases hmoves with
  | write hop => exact absurd rfl (hop target)
  | @remove target index other left =>
    have hne : blobPlace base other ≠ blobPlace base digest := by
      intro heq
      exact hspared k _ _ _ hfirst hk (blobPlace_inj heq ▸ List.mem_cons_self)
    exact (htidy.shape.removeFile_getElem? other _).trans (if_neg hne)
  | load | absent | save | choose | finish => rfl

-- A digest that stays pinned, and what a collection that begins later has not chosen.
private structure Watched (base digest : String) (first : Nat) (s : Shared) : Prop where
  tidy : Tidy base s
  unpin : NoUnpin digest s
  pinned : Pinned digest s.store
  spared : Spared digest first s

private theorem spared_start (digest : String) (s : Shared) : Spared digest s.calls.length s := by
  intro k target index left hfirst hk
  rw [List.getElem?_eq_none hfirst] at hk
  cases hk

private theorem watched_run (hsha : ∀ bytes, IsDigest (sha256Hex bytes)) {digest : String}
    {first : Nat} (h : Watched base digest first s) {acts : List Act}
    (hund : StepsMeet (step sha256Hex base) Undisturbed s acts)
    (hacts : ∀ act ∈ acts, act ≠ .begin (.pin digest false))
    (hrun : run (step sha256Hex base) s acts = some t) : Watched base digest first t := by
  have hboth : StepsMeet (step sha256Hex base)
      (fun s act ↦ Undisturbed s act ∧ act ≠ .begin (.pin digest false)) s acts :=
    (stepsMeet_and s acts).mpr ⟨hund, stepsMeet_of_forall hacts s⟩
  apply run_invariant _ h hboth hrun
  rintro s act t ⟨htidy, hunpin, hpinned, hspared⟩ ⟨hund, hact⟩ hstep
  exact {
    tidy := htidy.step hsha hund hstep
    unpin := noUnpin_step hsha htidy hact hunpin hstep
    pinned := pinned_step hsha htidy hund hunpin hpinned hstep
    spared := spared_step hsha htidy hpinned hspared hstep }

end Runs

/-- As long as every call that saves the index finds it as it loaded it, the calls have the
effect of some order of them on the index, and no collection that begins later takes what is
pinned. -/
theorem undisturbed_serial {sha256Hex : Bytes → String} {base : String}
    (hsha : ∀ bytes, IsDigest (sha256Hex bytes)) {start : Store} (hstart : Sound base start)
    {acts : List Act}
    (h : StepsMeet (step sha256Hex base) Undisturbed { store := start } acts) :
    (∀ s, run (step sha256Hex base) { store := start } acts = some s → Finished s →
      Serial sha256Hex base start s) ∧ PinsHold sha256Hex base { store := start } acts := by
  have hsteady {before rest : List Act} {s : Shared} (hacts : acts = before ++ rest)
      (hrun : run (step sha256Hex base) { store := start } before = some s) :
      Steady sha256Hex base start.index s := by
    rw [hacts, stepsMeet_append] at h
    exact run_invariant (fun s act t hs hund ↦ Steady.step hsha hs hund) (steady_start hstart) h.1
      hrun
  constructor
  · intro s hrun hfinished
    obtain ⟨-, order, horder⟩ := hsteady (List.append_nil acts).symm hrun
    exact horder.serial hsha hstart hfinished
  · rintro before act later k rest digest s t u v target pc hacts hs ht hpins hunpin hlater hu hk
      hfirst hv
    have hsound : Steady sha256Hex base start.index s := hsteady hacts hs
    rw [hacts, stepsMeet_append] at h
    obtain ⟨hund, htail⟩ := h.2 s hs
    have hrest := (stepsMeet_append t later _).mp (htail t ht)
    obtain ⟨htidyu, hunpinu, hpinnedu, hspared⟩ := watched_run hsha
      ⟨(hsound.step hsha hund ht).1, hunpin, pinned_of_pinsAt hsha hsound.1 hund hpins ht,
        spared_start digest t⟩ hrest.1 hlater hu
    have hundu : Undisturbed u (.advance k) := (hrest.2 u hu).1
    exact ⟨pinned_step hsha htidyu hundu hunpinu hpinnedu hv,
      blob_kept hsha htidyu hk hfirst hspared hv⟩

/-! ### A pin that is lost -/

private def abcDigest : String :=
  "ba7816bf8f01cfea414140de5dae2223b00361a396177a9cb410ff61f20015ad"

private def abcSha256 : Bytes → String := fun _ ↦ abcDigest

private def blobBase : String := "/data/artifacts/blobs/sha256"

private theorem isDigest_abcSha256 (bytes : Bytes) : IsDigest (abcSha256 bytes) := by
  change IsDigest abcDigest
  decide

-- A store that holds one blob.
private def abcStore : Store :=
  sequential abcSha256 blobBase (({} : Store).opened blobBase) [.put (asBytes "abc") 1]

private theorem sound_abcStore : Sound blobBase abcStore := by
  have hclear : Clear blobBase ({} : Store).files := by
    intro place _ bytes
    simp
  have hempty : EmptyStore blobBase {} := ⟨rfl, by simp⟩
  exact ((sound_of_empty hempty hclear).sequential isDigest_abcSha256 _).1

-- The test whether a call that saves the index finds it as it loaded it.
private def isUndisturbed (s : Shared) : Act → Bool
  | .begin _ => true
  | .advance k =>
    match s.calls[k]? with
    | some (_, .loaded index) | some (_, .removing index []) => decide (s.store.index = index)
    | _ => true

private theorem undisturbed_of_test (s : Shared) (act : Act) (h : isUndisturbed s act = true) :
    Undisturbed s act := by
  cases act with
  | begin op => trivial
  | advance k =>
    constructor
    · intro op index hk
      simpa [isUndisturbed, hk] using h
    · intro op index hk
      simpa [isUndisturbed, hk] using h

/-- A lookup, a pin and a collection, one after the other. -/
theorem undisturbed_serial_abc :
    let acts := [.begin (.get abcDigest 2), .advance 0, .advance 0, .advance 0,
      .begin (.pin abcDigest true), .advance 1, .advance 1, .begin (.gc 0), .advance 2, .advance 2]
    (∀ s, run (step abcSha256 blobBase) { store := abcStore } acts = some s → Finished s →
      Serial abcSha256 blobBase abcStore s) ∧
        PinsHold abcSha256 blobBase { store := abcStore } acts := by
  apply undisturbed_serial isDigest_abcSha256 sound_abcStore
  exact stepsMeet_of_checkSteps undisturbed_of_test (by decide +kernel)

private def lookup : Op := .get abcDigest 2

private def pinning : Op := .pin abcDigest true

-- The index that a lookup saves which loaded it before the pin.
private def staleIndex : Index := lookup.change abcSha256 abcStore.index

private def bothLoaded : Shared where
  store := abcStore
  calls := [(lookup, .loaded abcStore.index), (pinning, .loaded abcStore.index)]

private def pinSaved : Shared where
  store := { abcStore with index := pinning.change abcSha256 abcStore.index }
  calls := [(lookup, .loaded abcStore.index), (pinning, .done (.unit (.ok ())))]

private def pinOverwritten (pc : Pc) : Shared where
  store := { abcStore with index := staleIndex }
  calls := [(lookup, .done (.path (pathForDigest blobBase abcDigest))),
    (pinning, .done (.unit (.ok ()))), (.gc 0, pc)]

/-- A lookup that saves the index that it loaded before a pin takes the pin away, and a collection
that begins later finds the entry unpinned. -/
theorem pin_lost :
    ¬ ∀ (sha256Hex : Bytes → String) (base : String) (start : Store),
      (∀ bytes, IsDigest (sha256Hex bytes)) → Sound base start → ∀ acts : List Act,
        (∀ s, run (step sha256Hex base) { store := start } acts = some s → Finished s →
          Serial sha256Hex base start s) ∧ PinsHold sha256Hex base { store := start } acts := by
  intro hall
  let before : List Act := [.begin lookup, .advance 0, .advance 0, .begin pinning, .advance 1]
  have hholds := (hall abcSha256 blobBase abcStore isDigest_abcSha256 sound_abcStore
    (before ++ .advance 1 :: ([.advance 0, .begin (.gc 0)] ++ [.advance 2]))).2
  have hs : run (step abcSha256 blobBase) { store := abcStore } before = some bothLoaded := rfl
  have ht : step abcSha256 blobBase bothLoaded (.advance 1) = some pinSaved := rfl
  have hu : run (step abcSha256 blobBase) pinSaved [.advance 0, .begin (.gc 0)] =
      some (pinOverwritten .start) := rfl
  have hv : step abcSha256 blobBase (pinOverwritten .start) (.advance 2) =
      some (pinOverwritten (.removing staleIndex (gcVictims 0 staleIndex))) := rfl
  have hpins : PinsAt abcDigest bothLoaded pinSaved := ⟨1, _, rfl, nofun, rfl⟩
  have hunpin : NoUnpin abcDigest pinSaved := by
    intro pc hin
    simp [pinSaved, lookup, pinning] at hin
  obtain ⟨⟨entry, hentry, hpin⟩, -⟩ := hholds _ _ _ 2 [] abcDigest _ _ _ _ 0 .start rfl hs ht
    hpins hunpin (by simp) hu rfl (by decide) hv
  have hstale : staleIndex[abcDigest]? =
      some { sizeBytes := 3, lastAccessedUnix := 2, pinned := false } := by
    decide
  have hindex (pc : Pc) : (pinOverwritten pc).store.index = staleIndex := rfl
  rw [hindex, hstale] at hentry
  cases hentry
  cases hpin

end PeerDeploy.Storage
