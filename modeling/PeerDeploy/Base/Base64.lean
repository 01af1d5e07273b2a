/-!
# Base64 texts

General support: the text of a byte string in the standard alphabet, with padding, what an
encoder of such texts guarantees about their size and their characters, and its inverse.
-/

namespace PeerDeploy.Base.Base64

/-- The characters of the sixty-four digits. -/
def alphabet : List Char :=
  "ABCDEFGHIJKLMNOPQRSTUVWXYZabcdefghijklmnopqrstuvwxyz0123456789+/".toList

/-- The character of six bits. -/
def digit (n : Nat) : Char := alphabet.getD n '='

/-- Three bytes make four characters; what is missing of the last three is padded. -/
def encodeChars : List UInt8 → List Char
  | [] => []
  | [a] => [digit (a.toNat / 4), digit (a.toNat % 4 * 16), '=', '=']
  | [a, b] =>
    [digit (a.toNat / 4), digit (a.toNat % 4 * 16 + b.toNat / 16), digit (b.toNat % 16 * 4), '=']
  | a :: b :: c :: rest =>
    digit (a.toNat / 4) :: digit (a.toNat % 4 * 16 + b.toNat / 16) ::
      digit (b.toNat % 16 * 4 + c.toNat / 64) :: digit (c.toNat % 64) :: encodeChars rest

/-- The text of a byte string. -/
def encode (bytes : List UInt8) : String := String.ofList (encodeChars bytes)

/-- An encoder that pads to a multiple of four characters of the alphabet. -/
structure Standard (encode : List UInt8 → String) : Prop where
  length : ∀ bytes, (encode bytes).toList.length = 4 * ((bytes.length + 2) / 3)
  chars : ∀ bytes, ∀ c ∈ (encode bytes).toList, c ∈ alphabet ∨ c = '='

private theorem digit_mem (n : Nat) : digit n ∈ alphabet ∨ digit n = '=' := by
  rw [digit, List.getD_eq_getElem?_getD]
  cases h : alphabet[n]? with
  | none => exact .inr rfl
  | some c => exact .inl (List.mem_of_getElem? h)

/-- The modelled encoding is the standard one. -/
theorem standard_encode : Standard encode where
  length bytes := by
    rw [encode, String.toList_ofList]
    fun_induction encodeChars bytes with
    | case1 => rfl
    | case2 a => simp
    | case3 a b => simp
    | case4 a b c rest ih =>
      simp only [List.length_cons, ih]
      omega
  chars bytes := by
    rw [encode, String.toList_ofList]
    fun_induction encodeChars bytes with
    | case1 => simp
    | case2 a => simp [digit_mem]
    | case3 a b => simp [digit_mem]
    | case4 a b c rest ih =>
      simp only [List.mem_cons, forall_eq_or_imp]
      exact ⟨digit_mem _, digit_mem _, digit_mem _, digit_mem _, ih⟩

example : encode [104, 105] = "aGk=" := by decide

/-! ### Decoding -/

/-- The six bits of a character. -/
def digitValue (c : Char) : Option Nat := alphabet.findIdx? (· == c)

/-- Four characters make three bytes; padding stands at the end only, in front of it no bits are
set that are not used. -/
def decodeChars : List Char → Option (List UInt8)
  | [] => some []
  | [a, b, '=', '='] => do
    let x ← digitValue a
    let y ← digitValue b
    if y % 16 = 0 then some [UInt8.ofNat (x * 4 + y / 16)] else none
  | [a, b, c, '='] => do
    let x ← digitValue a
    let y ← digitValue b
    let z ← digitValue c
    if z % 4 = 0 then some [UInt8.ofNat (x * 4 + y / 16), UInt8.ofNat (y % 16 * 16 + z / 4)]
    else none
  | a :: b :: c :: d :: rest => do
    let x ← digitValue a
    let y ← digitValue b
    let z ← digitValue c
    let w ← digitValue d
    let bytes ← decodeChars rest
    return UInt8.ofNat (x * 4 + y / 16) :: UInt8.ofNat (y % 16 * 16 + z / 4) ::
      UInt8.ofNat (z % 4 * 64 + w) :: bytes
  | _ => none

/-- The bytes of a text. -/
def decode (text : String) : Option (List UInt8) := decodeChars text.toList

private theorem digitValue_digit {n : Nat} (h : n < 64) : digitValue (digit n) = some n := by
  have hall : ((List.range 64).all fun n ↦ digitValue (digit n) == some n) = true := by
    decide
  exact beq_iff_eq.mp (List.all_eq_true.mp hall n (List.mem_range.mpr h))

private theorem digit_ne {n : Nat} (h : n < 64) : digit n ≠ '=' := by
  intro he
  have hvalue := digitValue_digit h
  rw [he] at hvalue
  have hnone : digitValue '=' = none := by decide
  rw [hnone] at hvalue
  cases hvalue

private theorem byte_eq {n : Nat} {b : UInt8} (h : n = b.toNat) : UInt8.ofNat n = b := by
  rw [h, UInt8.ofNat_toNat]

/-- The text of a byte string is decoded to it. -/
theorem decode_encode (bytes : List UInt8) : decode (encode bytes) = some bytes := by
  rw [decode, encode, String.toList_ofList]
  fun_induction encodeChars bytes with
  | case1 => rfl
  | case2 a =>
    have ha := a.toNat_lt
    rw [decodeChars, digitValue_digit (by omega), digitValue_digit (by omega)]
    simp only [Option.bind_eq_bind, Option.bind_some]
    rw [if_pos (by omega), byte_eq (b := a) (by omega)]
  | case3 a b =>
    have ha := a.toNat_lt
    have hb := b.toNat_lt
    rw [decodeChars, digitValue_digit (by omega), digitValue_digit (by omega),
      digitValue_digit (by omega)]
    · simp only [Option.bind_eq_bind, Option.bind_some]
      rw [if_pos (by omega), byte_eq (b := a) (by omega), byte_eq (b := b) (by omega)]
    · intro h
      exact absurd h (digit_ne (by omega))
  | case4 a b c rest ih =>
    have ha := a.toNat_lt
    have hb := b.toNat_lt
    have hc := c.toNat_lt
    rw [decodeChars, digitValue_digit (by omega), digitValue_digit (by omega),
      digitValue_digit (by omega), digitValue_digit (by omega), ih]
    · simp only [Option.bind_eq_bind, Option.bind_some]
      rw [byte_eq (b := a) (by omega), byte_eq (b := b) (by omega), byte_eq (b := c) (by omega)]
      rfl
    · intro _ h
      exact absurd h (digit_ne (by omega))
    · intro h
      exact absurd h (digit_ne (by omega))

end PeerDeploy.Base.Base64
