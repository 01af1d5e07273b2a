import PeerDeploy.Base.Json
import PeerDeploy.Base.Table

/-!
# Derived readers

General support: how the readers that `serde` derives take a struct, an `Option`, an
enumeration or a map out of a JSON value. A struct is read from an object by the names of its
fields, skipping unknown ones, or from an array by their positions.
-/

namespace PeerDeploy.Base.Serde

/-- What the fields of a struct are read from: members, or items in the order of the keys. -/
inductive Source where
  | named (members : List (String × Json))
  | positional (keys : List String) (items : List Json)

/-- The value of a field, if there is one; `none` when the field repeats. -/
def Source.find : Source → String → Option (Option Json)
  | .named members, key => Json.member members key
  | .positional keys items, key => some items[keys.idxOf key]?

/-- Only the members of an object may leave an `Option` field out. -/
def Source.omits : Source → Bool
  | .named _ => true
  | .positional _ _ => false

section Fields

universe u

variable {α : Type u}

/-- An `Option`. -/
def asOption (decode : Json → Option α) : Json → Option (Option α)
  | .null => some none
  | value => (decode value).map some

/-- A field that has to be there. -/
def required (decode : Json → Option α) (source : Source) (key : String) : Option α :=
  match source.find key with
  | some (some value) => decode value
  | _ => none

/-- A field of an `Option` type. -/
def optional (decode : Json → Option α) (source : Source) (key : String) : Option (Option α) :=
  match source.find key with
  | some (some value) => asOption decode value
  | some none => if source.omits then some none else none
  | none => none

/-- A field with a default. -/
def defaulted (decode : Json → Option α) (fallback : α) (source : Source) (key : String) :
    Option α :=
  match source.find key with
  | some (some value) => decode value
  | some none => some fallback
  | none => none

/-- A struct with these fields, in the order of their declaration. -/
def record (keys : List String) (read : Source → Option α) : Json → Option α
  | .obj members => read (.named members)
  | .arr items => if items.length ≤ keys.length then read (.positional keys items) else none
  | _ => none

/-- The name and the payload of an externally tagged variant; a variant without data is its
name, or has the payload `null`. -/
def variant : Json → Option (String × Json)
  | .str name => some (name, .null)
  | .obj [(name, payload)] => some (name, payload)
  | _ => none

/-- The name and the fields of an internally tagged variant. -/
def tagged (tag : String) : Json → Option (String × Json)
  | .obj members =>
    match Json.member members tag with
    | some (some (.str name)) => some (name, .obj (members.filter (·.1 != tag)))
    | _ => none
  | .arr (.str name :: items) => some (name, .arr items)
  | _ => none

/-- A map with text keys, as its entries in the order of the keys; the last entry of a key
counts. -/
def asMap (decode : Json → Option α) : Json → Option (List (String × α))
  | .obj members => do
    let entries ← members.mapM fun entry ↦ (decode entry.2).map (entry.1, ·)
    return (entries.foldl (Table.put fun _ value ↦ some value)
      (∅ : Std.ExtTreeMap String α)).toList
  | _ => none

/-- A map with text keys; the last entry of a key counts. -/
def asTable (decode : Json → Option α) : Json → Option (Std.ExtTreeMap String α)
  | .obj members => do
    let entries ← members.mapM fun entry ↦ (decode entry.2).map (entry.1, ·)
    return entries.foldl (Table.put fun _ value ↦ some value) ∅
  | _ => none

/-- The text of a map. -/
def map (encode : α → Json) (entries : List (String × α)) : Json :=
  .obj (entries.map fun entry ↦ (entry.1, encode entry.2))

/-- These are the entries of a map. -/
def IsMap (entries : List (String × α)) : Prop :=
  ∃ table : Std.ExtTreeMap String α, entries = table.toList

variable {decode : Json → Option α} {encode : α → Json} {source : Source} {key : String}

/-- A field that is there is read. -/
theorem required_eq {value : Json} (h : source.find key = some (some value)) :
    required decode source key = decode value := by
  simp [required, h]

/-- An `Option` field that is there is read. -/
theorem optional_eq {value : Json} (h : source.find key = some (some value)) :
    optional decode source key = asOption decode value := by
  simp [optional, h]

/-- A field with a default that is there is read. -/
theorem defaulted_eq {fallback : α} {value : Json} (h : source.find key = some (some value)) :
    defaulted decode fallback source key = decode value := by
  simp [defaulted, h]

/-- An `Option` is read back, as no value in it is written as `null`. -/
theorem asOption_nullable {o : Option α} (hnull : ∀ a, encode a ≠ .null)
    (h : ∀ a ∈ o, decode (encode a) = some a) : asOption decode (Json.nullable encode o) = some o := by
  cases o with
  | none => rfl
  | some a =>
    unfold asOption Json.nullable
    split
    · next hvalue => exact absurd hvalue (hnull a)
    · rw [h a rfl]
      rfl

private theorem mapM_entries {entries : List (String × α)}
    (h : ∀ entry ∈ entries, decode (encode entry.2) = some entry.2) :
    (entries.map fun entry ↦ (entry.1, encode entry.2)).mapM
      (fun entry ↦ (decode entry.2).map (entry.1, ·)) = some entries := by
  induction entries with
  | nil => rfl
  | cons entry entries ih =>
    have hrest := ih fun other hother ↦ h other (List.mem_cons_of_mem entry hother)
    simp [List.mapM_cons, h entry List.mem_cons_self, hrest]

/-- A map is read back. -/
theorem asMap_map {entries : List (String × α)} (hmap : IsMap entries)
    (h : ∀ entry ∈ entries, decode (encode entry.2) = some entry.2) :
    asMap decode (map encode entries) = some entries := by
  obtain ⟨table, rfl⟩ := hmap
  simp [asMap, map, mapM_entries h, Table.foldl_put_of_perm (.refl table.toList)]

/-- A table is read back, whatever the order in which its entries were written. -/
theorem asTable_map {entries : List (String × α)} {table : Std.ExtTreeMap String α}
    (hperm : entries.Perm table.toList)
    (h : ∀ entry ∈ entries, decode (encode entry.2) = some entry.2) :
    asTable decode (map encode entries) = some table := by
  simp [asTable, map, mapM_entries h, Table.foldl_put_of_perm hperm]

/-- The fields that are written are found under their names. -/
theorem find_named {members : List (String × Json)} (hkeys : (members.map Prod.fst).Nodup) :
    ∀ entry ∈ members, (Source.named members).find entry.1 = some (some entry.2) := by
  intro entry hentry
  exact Json.member_eq_some hkeys hentry

/-- A field that was written is read back. -/
theorem required_member {members : List (String × Json)} (hkeys : (members.map Prod.fst).Nodup)
    {value : Json} (hmem : (key, value) ∈ members) {a : α} (h : decode value = some a) :
    required decode (.named members) key = some a := by
  rw [required_eq (find_named hkeys _ hmem), h]

/-- So is a field of an `Option` type. -/
theorem optional_member {members : List (String × Json)} (hkeys : (members.map Prod.fst).Nodup)
    {o : Option α} (hmem : (key, Json.nullable encode o) ∈ members)
    (hnull : ∀ a, encode a ≠ .null) (h : ∀ a ∈ o, decode (encode a) = some a) :
    optional decode (.named members) key = some o := by
  rw [optional_eq (find_named hkeys _ hmem), asOption_nullable hnull h]

/-- And a field with a default. -/
theorem defaulted_member {members : List (String × Json)} (hkeys : (members.map Prod.fst).Nodup)
    {fallback : α} {value : Json} (hmem : (key, value) ∈ members) {a : α}
    (h : decode value = some a) : defaulted decode fallback (.named members) key = some a := by
  rw [defaulted_eq (find_named hkeys _ hmem), h]

/-- A field that is missing from an object is not read. -/
theorem required_missing {members : List (String × Json)} (h : key ∉ members.map Prod.fst) :
    required decode (.named members) key = none := by
  have hnone : members.filter (·.1 == key) = [] := by
    rw [List.filter_eq_nil_iff]
    intro entry hentry heq
    exact h (beq_iff_eq.mp heq ▸ List.mem_map_of_mem hentry)
  simp [required, Source.find, Json.member, hnone]

end Fields

/-! ### Fields of the usual types -/

section Usual

universe u

variable {α : Type u} {decode : Json → Option α} {members : List (String × Json)}
variable (hkeys : (members.map Prod.fst).Nodup)
include hkeys

/-- A list. -/
theorem required_list (key : String) (encode : α → Json) (items : List α)
    (h : ∀ a ∈ items, decode (encode a) = some a) (hmem : (key, Json.list encode items) ∈ members) :
    required (Json.asList decode) (.named members) key = some items :=
  required_member hkeys hmem (Json.asList_list h)

/-- A list with a default. -/
theorem defaulted_list (key : String) (fallback : List α) (encode : α → Json) (items : List α)
    (h : ∀ a ∈ items, decode (encode a) = some a) (hmem : (key, Json.list encode items) ∈ members) :
    defaulted (Json.asList decode) fallback (.named members) key = some items :=
  defaulted_member hkeys hmem (Json.asList_list h)

/-- A list that may be missing, with a default. -/
theorem defaulted_maybeList (key : String) (encode : α → Json) (o : Option (List α))
    (h : ∀ items ∈ o, ∀ a ∈ items, decode (encode a) = some a)
    (hmem : (key, Json.nullable (Json.list encode) o) ∈ members) :
    defaulted (asOption (Json.asList decode)) none (.named members) key = some o :=
  defaulted_member hkeys hmem
    (asOption_nullable (by simp [Json.list]) fun items hitems ↦ Json.asList_list (h items hitems))

/-- A text. -/
theorem required_text (key text : String) (hmem : (key, .str text) ∈ members) :
    required Json.asText (.named members) key = some text :=
  required_member hkeys hmem rfl

/-- A list of texts. -/
theorem required_texts (key : String) (texts : List String)
    (hmem : (key, Json.list .str texts) ∈ members) :
    required (Json.asList Json.asText) (.named members) key = some texts :=
  required_list hkeys key .str texts (fun _ _ ↦ rfl) hmem

/-- A number. -/
theorem required_number {width n : Nat} (key : String) (hn : n < 2 ^ width)
    (hmem : (key, .num n) ∈ members) :
    required (Json.asUnsigned width) (.named members) key = some n :=
  required_member hkeys hmem (Json.asUnsigned_num hn)

/-- A text with a default. -/
theorem defaulted_text (key text fallback : String) (hmem : (key, .str text) ∈ members) :
    defaulted Json.asText fallback (.named members) key = some text :=
  defaulted_member hkeys hmem rfl

/-- A list of texts with a default. -/
theorem defaulted_texts (key : String) (texts fallback : List String)
    (hmem : (key, Json.list .str texts) ∈ members) :
    defaulted (Json.asList Json.asText) fallback (.named members) key = some texts :=
  defaulted_list hkeys key fallback .str texts (fun _ _ ↦ rfl) hmem

/-- A map of texts with a default. -/
theorem defaulted_textMap (key : String) {entries : List (String × String)}
    (hmap : IsMap entries) (hmem : (key, map .str entries) ∈ members) :
    defaulted (asMap Json.asText) [] (.named members) key = some entries :=
  defaulted_member hkeys hmem (asMap_map hmap fun _ _ ↦ rfl)

/-- A number with a default. -/
theorem defaulted_number {width n : Nat} (key : String) (fallback : Nat) (hn : n < 2 ^ width)
    (hmem : (key, .num n) ∈ members) :
    defaulted (Json.asUnsigned width) fallback (.named members) key = some n :=
  defaulted_member hkeys hmem (Json.asUnsigned_num hn)

/-- A text that may be missing, with a default. -/
theorem defaulted_maybeText (key : String) (o : Option String)
    (hmem : (key, Json.nullable .str o) ∈ members) :
    defaulted (asOption Json.asText) none (.named members) key = some o :=
  defaulted_member hkeys hmem (asOption_nullable (by simp) fun _ _ ↦ rfl)

/-- A number that may be missing, with a default. -/
theorem defaulted_maybeNumber {width : Nat} (key : String) {o : Option Nat}
    (ho : ∀ n ∈ o, n < 2 ^ width) (hmem : (key, Json.nullable .num o) ∈ members) :
    defaulted (asOption (Json.asUnsigned width)) none (.named members) key = some o :=
  defaulted_member hkeys hmem
    (asOption_nullable (by simp) fun n hn ↦ Json.asUnsigned_num (ho n hn))

/-- A text that may be missing. -/
theorem optional_text (key : String) (o : Option String)
    (hmem : (key, Json.nullable .str o) ∈ members) :
    optional Json.asText (.named members) key = some o :=
  optional_member hkeys hmem (by simp) fun _ _ ↦ rfl

/-- A number that may be missing. -/
theorem optional_number {width : Nat} (key : String) {o : Option Nat}
    (ho : ∀ n ∈ o, n < 2 ^ width) (hmem : (key, Json.nullable .num o) ∈ members) :
    optional (Json.asUnsigned width) (.named members) key = some o :=
  optional_member hkeys hmem (by simp) fun n hn ↦ Json.asUnsigned_num (ho n hn)

end Usual

end PeerDeploy.Base.Serde
