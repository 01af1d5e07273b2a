import PeerDeploy.Base.Pretty
import PeerDeploy.Common.Wire

/-!
# JSON files

The files that an agent writes with `serde_json` and reads after a restart. A write that fails
or a process that dies leaves the first bytes of the text; the reader takes no such beginning.
-/

namespace PeerDeploy.Common

open PeerDeploy.Base

/-- What `serde_json::to_string_pretty` or `to_vec_pretty` leaves in a file. -/
def prettyFile (value : Json) : Bytes := asBytes (String.ofList value.pretty)

private theorem asBytes_of_fromUTF8 {bytes : Bytes} {text : String}
    (h : String.fromUTF8? ⟨bytes.toArray⟩ = some text) : asBytes text = bytes := by
  unfold String.fromUTF8? at h
  split at h
  · cases h
    rfl
  · cases h

private theorem prefix_of_asBytes {front whole : String} {more : Bytes}
    (h : asBytes front ++ more = asBytes whole) : front.toList <+: whole.toList := by
  apply List.isPrefix_of_utf8Encode_append_eq_utf8Encode ⟨more.toArray⟩
  rw [String.utf8Encode_toList, String.utf8Encode_toList]
  apply ByteArray.ext
  apply Array.toList_inj.mp
  rw [ByteArray.data_append, Array.toList_append]
  exact h

-- What a text file holds after part of its text was written is refused by a reader that takes no
-- beginning of the text.
private theorem deserializeMessage_cut {text : List Char}
    (hcut : ∀ front more, text = front ++ more → more ≠ [] → Json.parse front = none)
    {written : Nat} (h : written < (asBytes (String.ofList text)).length) :
    deserializeMessage ((asBytes (String.ofList text)).take written) = none := by
  rw [deserializeMessage]
  cases hread : String.fromUTF8? ⟨((asBytes (String.ofList text)).take written).toArray⟩ with
  | none => rfl
  | some front =>
    have hbytes := asBytes_of_fromUTF8 hread
    have hsplit : asBytes front ++ (asBytes (String.ofList text)).drop written =
        asBytes (String.ofList text) := by
      rw [hbytes, List.take_append_drop]
    obtain ⟨more, hmore⟩ := prefix_of_asBytes hsplit
    rw [String.toList_ofList] at hmore
    apply hcut front.toList more hmore.symm
    rintro rfl
    rw [List.append_nil] at hmore
    rw [← hmore, String.ofList_toList] at hsplit h
    have hrest := List.drop_eq_nil_iff.mp (List.append_right_eq_self.mp hsplit)
    omega

/-- A file is read back as the object or the array that was written, unless the write was cut
off; then it is refused. -/
theorem deserializeMessage_prettyFile {value : Json} (hvalue : value.Enclosed) (written : Nat) :
    deserializeMessage ((prettyFile value).take written) =
      if (prettyFile value).length ≤ written then some value else none := by
  split
  · next hall =>
    rw [List.take_of_length_le hall, deserializeMessage, prettyFile, fromUTF8_asBytes,
      Option.bind_some, String.toList_ofList, Json.parse_pretty]
  · next hcut =>
    exact deserializeMessage_cut (fun front more h hmore ↦ Json.parse_cut_pretty hvalue h hmore)
      (not_le.mp hcut)

/-- The same for a list in a file of `serde_json::to_vec`. -/
theorem deserializeMessage_serializeMessage_take (items : List Json) (written : Nat) :
    deserializeMessage ((serializeMessage (.arr items)).take written) =
      if (serializeMessage (.arr items)).length ≤ written then some (.arr items) else none := by
  split
  · next hall =>
    rw [List.take_of_length_le hall, deserializeMessage_serializeMessage]
  · next hcut =>
    exact deserializeMessage_cut (fun front more h hmore ↦ Json.parse_cut_print h hmore)
      (not_le.mp hcut)

/-- How far the write of a file comes. -/
inductive FileWrite where
  | done
  /-- It ends after so many bytes. -/
  | cut (written : Nat)
  /-- The file cannot be opened. -/
  | refused

/-- The file after a write. -/
def FileWrite.leave (bytes : Bytes) (file : Option Bytes) : FileWrite → Option Bytes
  | .done => some bytes
  | .cut written => some (bytes.take written)
  | .refused => file

section Leave

variable {bytes : Bytes} {value : Json}
  (hread : ∀ written, deserializeMessage (bytes.take written) =
    if bytes.length ≤ written then some value else none)

include hread

/-- What was written is read back. -/
theorem read_leave_done (file : Option Bytes) :
    (FileWrite.done.leave bytes file).bind deserializeMessage = some value := by
  have hall := hread bytes.length
  rw [List.take_length, if_pos le_rfl] at hall
  exact hall

/-- After a write that may have failed, what was written is read, or nothing, or what was read
before. -/
theorem read_leave (file : Option Bytes) (write : FileWrite) :
    (write.leave bytes file).bind deserializeMessage = some value ∨
      (write.leave bytes file).bind deserializeMessage = none ∨
      (write.leave bytes file).bind deserializeMessage = file.bind deserializeMessage := by
  cases write with
  | done => exact .inl (read_leave_done hread file)
  | cut written =>
    rw [FileWrite.leave, Option.bind_some, hread]
    split
    · exact .inl rfl
    · exact .inr (.inl rfl)
  | refused => exact .inr (.inr rfl)

end Leave

end PeerDeploy.Common
