import Mathlib.Algebra.Ring.Int.Defs
import Mathlib.Algebra.Ring.Nat

/-!
# JSON texts

General support: the compact text that `serde_json` writes for a value, and a reader that
skips white space and takes every escape. Members keep their order and may repeat. A number
with a fraction or an exponent is a float, and so is `-0`. The reader is stricter than
`serde_json` in a member that no type takes: half a surrogate pair is refused there as well.
-/

namespace PeerDeploy.Base

/-- A JSON value. -/
inductive Json where
  | null
  | bool (value : Bool)
  | num (value : Nat)
  /-- The number `-(value + 1)`. -/
  | neg (value : Nat)
  /-- The number `mantissa * 10 ^ exponent`, or its negative. -/
  | float (negative : Bool) (mantissa : Nat) (exponent : Int)
  | str (value : String)
  | arr (items : List Json)
  | obj (members : List (String × Json))

namespace Json

/-! ### Writing -/

/-- A hexadecimal digit, in lower case. -/
def hexDigit (n : Nat) : Char := "0123456789abcdef".toList.getD n '0'

/-- A character inside a string literal. -/
def escape (c : Char) : List Char :=
  if c = '"' then ['\\', '"']
  else if c = '\\' then ['\\', '\\']
  else if c.toNat = 0x08 then ['\\', 'b']
  else if c.toNat = 0x0C then ['\\', 'f']
  else if c = '\n' then ['\\', 'n']
  else if c = '\r' then ['\\', 'r']
  else if c = '\t' then ['\\', 't']
  else if c.toNat < 0x20 then
    ['\\', 'u', '0', '0', hexDigit (c.toNat / 16), hexDigit (c.toNat % 16)]
  else [c]

/-- The digits of an integer, after a sign if it is negative. -/
def signed : Int → List Char
  | .ofNat n => Nat.toDigits 10 n
  | .negSucc n => '-' :: Nat.toDigits 10 (n + 1)

/-- A number with an exponent. -/
def scientific (mantissa : Nat) (exponent : Int) : List Char :=
  Nat.toDigits 10 mantissa ++ 'e' :: signed exponent

/-- A string literal. -/
def quote (text : String) : List Char := '"' :: (text.toList.flatMap escape ++ ['"'])

mutual

/-- The compact text of a value. -/
def print : Json → List Char
  | .null => ['n', 'u', 'l', 'l']
  | .bool true => ['t', 'r', 'u', 'e']
  | .bool false => ['f', 'a', 'l', 's', 'e']
  | .num n => Nat.toDigits 10 n
  | .neg n => '-' :: Nat.toDigits 10 (n + 1)
  | .float false mantissa exponent => scientific mantissa exponent
  | .float true mantissa exponent => '-' :: scientific mantissa exponent
  | .str text => quote text
  | .arr [] => ['[', ']']
  | .arr (item :: items) => '[' :: (print item ++ printItems items)
  | .obj [] => ['{', '}']
  | .obj ((key, value) :: members) =>
    '{' :: (quote key ++ ':' :: (print value ++ printMembers members))

/-- The items after the first one, and the closing bracket. -/
def printItems : List Json → List Char
  | [] => [']']
  | item :: items => ',' :: (print item ++ printItems items)

/-- The members after the first one, and the closing brace. -/
def printMembers : List (String × Json) → List Char
  | [] => ['}']
  | (key, value) :: members => ',' :: (quote key ++ ':' :: (print value ++ printMembers members))

end

/-! ### Reading -/

/-- Drop the white space of JSON. -/
def skipSpace : List Char → List Char :=
  List.dropWhile fun c ↦ c == ' ' || c == '\n' || c == '\t' || c == '\r'

/-- The value of a hexadecimal digit. -/
def hexValue (c : Char) : Option Nat :=
  if '0' ≤ c ∧ c ≤ '9' then some (c.toNat - '0'.toNat)
  else if 'a' ≤ c ∧ c ≤ 'f' then some (c.toNat - 'a'.toNat + 10)
  else if 'A' ≤ c ∧ c ≤ 'F' then some (c.toNat - 'A'.toNat + 10)
  else none

/-- The code of a four-digit escape. -/
def hexCode (a b c d : Char) : Option Nat := do
  return (((← hexValue a) * 16 + (← hexValue b)) * 16 + (← hexValue c)) * 16 + (← hexValue d)

/-- The character of a two-character escape. -/
def unescape : Char → Option Char
  | '"' => some '"'
  | '\\' => some '\\'
  | '/' => some '/'
  | 'b' => some (Char.ofNat 0x08)
  | 'f' => some (Char.ofNat 0x0C)
  | 'n' => some '\n'
  | 'r' => some '\r'
  | 't' => some '\t'
  | _ => none

/-- The rest of a string literal after its opening quote. -/
def string : List Char → Option (List Char × List Char)
  | [] => none
  | '"' :: rest => some ([], rest)
  | '\\' :: 'u' :: a :: b :: c :: d :: rest =>
    match hexCode a b c d with
    | none => none
    | some code =>
      if 0xDC00 ≤ code ∧ code ≤ 0xDFFF then none
      else if 0xD800 ≤ code ∧ code ≤ 0xDBFF then
        -- a leading surrogate needs its second half
        match rest with
        | '\\' :: 'u' :: e :: f :: g :: h :: rest =>
          match hexCode e f g h with
          | none => none
          | some low =>
            if 0xDC00 ≤ low ∧ low ≤ 0xDFFF then
              (string rest).map fun (text, rest) ↦
                (Char.ofNat (0x10000 + (code - 0xD800) * 0x400 + (low - 0xDC00)) :: text, rest)
            else none
        | _ => none
      else (string rest).map fun (text, rest) ↦ (Char.ofNat code :: text, rest)
  | '\\' :: c :: rest =>
    match unescape c with
    | none => none
    | some c => (string rest).map fun (text, rest) ↦ (c :: text, rest)
  | c :: rest =>
    if c.toNat < 0x20 ∨ c = '\\' then none
    else (string rest).map fun (text, rest) ↦ (c :: text, rest)

/-- The literal goes on with these characters. -/
def expect (literal : List Char) (value : Json) (text : List Char) : Option (Json × List Char) :=
  if literal.isPrefixOf text then some (value, text.drop literal.length) else none

/-- The decimals of a number, if there are any. -/
def decimals : List Char → Option (List Char × List Char)
  | [] => some ([], [])
  | c :: rest =>
    if c = '.' then
      if rest.takeWhile Char.isDigit = [] then none
      else some (rest.takeWhile Char.isDigit, rest.dropWhile Char.isDigit)
    else some ([], c :: rest)

/-- Whether a minus leads the digits, and the text behind the sign. -/
def sign : List Char → Bool × List Char
  | [] => (false, [])
  | c :: rest => if c = '-' then (true, rest) else (false, if c = '+' then rest else c :: rest)

/-- The power of ten in an exponent, behind its sign. -/
def power (negative : Bool) (text : List Char) : Option (Int × List Char) :=
  let digits := text.takeWhile Char.isDigit
  let size : Int := Nat.ofDigitChars 10 digits 0
  if digits = [] then none
  else some (if negative then -size else size, text.dropWhile Char.isDigit)

/-- The exponent of a number, if there is one. -/
def exponent : List Char → Option (Option Int × List Char)
  | [] => some (none, [])
  | c :: rest =>
    if c = 'e' ∨ c = 'E' then
      (power (sign rest).1 (sign rest).2).map fun (size, rest) ↦ (some size, rest)
    else some (none, c :: rest)

/-- The number with these digits, decimals and exponent. -/
def numeral (negative : Bool) (digits fraction : List Char) (size : Option Int) : Json :=
  match negative, fraction, size, Nat.ofDigitChars 10 digits 0 with
  | false, [], none, n => .num n
  | true, [], none, n + 1 => .neg n
  | _, _, _, _ =>
    .float negative (Nat.ofDigitChars 10 (digits ++ fraction) 0) (size.getD 0 - fraction.length)

/-- A number, from its first digit on; no leading zeros. -/
def number (negative : Bool) (text : List Char) : Option (Json × List Char) :=
  let digits := text.takeWhile Char.isDigit
  if digits = [] ∨ digits.head? = some '0' ∧ digits.length ≠ 1 then none
  else
    match decimals (text.dropWhile Char.isDigit) with
    | none => none
    | some (fraction, rest) =>
      (exponent rest).map fun (size, rest) ↦ (numeral negative digits fraction size, rest)

mutual

/-- A value; the fuel bounds the number of nested calls. -/
def value : Nat → List Char → Option (Json × List Char)
  | 0, _ => none
  | fuel + 1, text =>
    match skipSpace text with
    | 'n' :: rest => expect ['u', 'l', 'l'] .null rest
    | 't' :: rest => expect ['r', 'u', 'e'] (.bool true) rest
    | 'f' :: rest => expect ['a', 'l', 's', 'e'] (.bool false) rest
    | '-' :: rest => number true rest
    | '"' :: rest => (string rest).map fun (text, rest) ↦ (.str (String.ofList text), rest)
    | '[' :: rest =>
      match skipSpace rest with
      | ']' :: rest => some (.arr [], rest)
      | rest => (items fuel rest).map fun (items, rest) ↦ (.arr items, rest)
    | '{' :: rest =>
      match skipSpace rest with
      | '}' :: rest => some (.obj [], rest)
      | rest => (members fuel rest).map fun (members, rest) ↦ (.obj members, rest)
    | c :: rest => if c.isDigit then number false (c :: rest) else none
    | [] => none

/-- The items of an array, at least one. -/
def items : Nat → List Char → Option (List Json × List Char)
  | 0, _ => none
  | fuel + 1, text =>
    match value fuel text with
    | none => none
    | some (item, rest) =>
      match skipSpace rest with
      | ',' :: rest => (items fuel rest).map fun (items, rest) ↦ (item :: items, rest)
      | ']' :: rest => some ([item], rest)
      | _ => none

/-- The members of an object, at least one. -/
def members : Nat → List Char → Option (List (String × Json) × List Char)
  | 0, _ => none
  | fuel + 1, text =>
    match skipSpace text with
    | '"' :: rest =>
      match string rest with
      | none => none
      | some (key, rest) =>
        match skipSpace rest with
        | ':' :: rest =>
          match value fuel rest with
          | none => none
          | some (item, rest) =>
            match skipSpace rest with
            | ',' :: rest =>
              (members fuel rest).map fun (members, rest) ↦
                ((String.ofList key, item) :: members, rest)
            | '}' :: rest => some ([(String.ofList key, item)], rest)
            | _ => none
        | _ => none
    | _ => none

end

/-- The value of a text, with nothing but white space after it. -/
def parse (text : List Char) : Option Json :=
  match value (text.length + 1) text with
  | some (result, rest) => if skipSpace rest = [] then some result else none
  | none => none

/-! ### Reading what was written -/

private theorem string_escape (c : Char) (tail : List Char) :
    string (escape c ++ tail) = (string tail).map fun (text, rest) ↦ (c :: text, rest) := by
  unfold escape
  split
  · next h =>
    rw [h]
    rfl
  split
  · next h =>
    rw [h]
    rfl
  split
  · next h =>
    rw [← Char.ofNat_toNat c, h]
    rfl
  split
  · next h =>
    rw [← Char.ofNat_toNat c, h]
    rfl
  split
  · next h =>
    rw [h]
    rfl
  split
  · next h =>
    rw [h]
    rfl
  split
  · next h =>
    rw [h]
    rfl
  split
  · next h =>
    have hcode : ∀ n < 0x20, hexCode '0' '0' (hexDigit (n / 16)) (hexDigit (n % 16)) = some n := by
      decide
    simp only [List.cons_append, List.nil_append, string, hcode c.toNat h]
    rw [if_neg (by omega), if_neg (by omega), Char.ofNat_toNat]
  · next hquote hslash _ _ _ _ _ hctl =>
    rw [List.singleton_append, string]
    · simp [hctl, hslash]
    · exact hquote
    · intro a b d e rest he
      exact absurd he hslash
    · intro a rest he
      exact absurd he hslash

/-- A quoted text is read up to its closing quote. -/
theorem string_quote (text : List Char) (rest : List Char) :
    string (text.flatMap escape ++ '"' :: rest) = some (text, rest) := by
  induction text with
  | nil => rfl
  | cons c text ih =>
    rw [List.flatMap_cons, List.append_assoc, string_escape, ih]
    rfl

/-- What may follow a number. -/
def Ends (rest : List Char) : Prop :=
  ∀ c ∈ rest.head?, c.isDigit = false ∧ c ≠ '.' ∧ c ≠ 'e' ∧ c ≠ 'E'

private theorem head?_toDigits {n : Nat} (h : 0 < n) : (Nat.toDigits 10 n).head? ≠ some '0' := by
  induction n using Nat.strongRecOn with
  | _ n ih =>
    by_cases hlt : n < 10
    · have hall : ∀ k < 10, 0 < k → Nat.digitChar k ≠ '0' := by decide
      rw [Nat.toDigits_of_lt_base hlt]
      simpa using hall n hlt h
    · have hdiv : 0 < n / 10 := by omega
      have hfirst := ih (n / 10) (by omega) hdiv
      obtain ⟨c, rest, hcs⟩ := List.exists_cons_of_ne_nil
        (Nat.toDigits_ne_nil : Nat.toDigits 10 (n / 10) ≠ [])
      rw [hcs] at hfirst
      rw [Nat.toDigits_of_base_le (by omega) (by omega), hcs]
      exact hfirst

private theorem takeWhile_toDigits (n : Nat) {rest : List Char}
    (h : ∀ c ∈ rest.head?, c.isDigit = false) :
    (Nat.toDigits 10 n ++ rest).takeWhile Char.isDigit = Nat.toDigits 10 n ∧
      (Nat.toDigits 10 n ++ rest).dropWhile Char.isDigit = rest := by
  have hdigits : ∀ c ∈ Nat.toDigits 10 n, c.isDigit = true := fun c hc ↦
    Nat.isDigit_of_mem_toDigits (by decide) (by decide) hc
  have hstop : rest.takeWhile Char.isDigit = [] ∧ rest.dropWhile Char.isDigit = rest := by
    cases rest with
    | nil => exact ⟨rfl, rfl⟩
    | cons c rest =>
      have hc : ¬ c.isDigit = true := by
        rw [h c rfl]
        decide
      exact ⟨List.takeWhile_cons_of_neg hc, List.dropWhile_cons_of_neg hc⟩
  constructor
  · rw [List.takeWhile_append_of_pos hdigits, hstop.1, List.append_nil]
  · rw [List.dropWhile_append_of_pos hdigits, hstop.2]

private theorem number_eq (negative : Bool) (n : Nat) {rest : List Char}
    (h : ∀ c ∈ rest.head?, c.isDigit = false) :
    number negative (Nat.toDigits 10 n ++ rest) =
      match decimals rest with
      | none => none
      | some (fraction, rest) => (exponent rest).map fun (size, rest) ↦
          (numeral negative (Nat.toDigits 10 n) fraction size, rest) := by
  obtain ⟨htake, hdrop⟩ := takeWhile_toDigits n h
  have hzero : ¬ (Nat.toDigits 10 n = [] ∨
      (Nat.toDigits 10 n).head? = some '0' ∧ (Nat.toDigits 10 n).length ≠ 1) := by
    rintro (hnone | ⟨hhead, hlen⟩)
    · exact Nat.toDigits_ne_nil hnone
    · by_cases hn : n = 0
      · subst hn
        exact hlen rfl
      · exact head?_toDigits (by omega) hhead
  simp only [number, htake, hdrop, if_neg hzero]

private theorem decimals_none {rest : List Char} (h : rest.head? ≠ some '.') :
    decimals rest = some ([], rest) := by
  cases rest with
  | nil => rfl
  | cons c rest => rw [decimals, if_neg fun hc ↦ h (congrArg some hc)]

private theorem exponent_none {rest : List Char}
    (h : ∀ c ∈ rest.head?, c ≠ 'e' ∧ c ≠ 'E') : exponent rest = some (none, rest) := by
  cases rest with
  | nil => rfl
  | cons c rest =>
    obtain ⟨hlower, hupper⟩ := h c rfl
    rw [exponent, if_neg (by simp [hlower, hupper])]

private theorem number_toDigits (negative : Bool) (n : Nat) {rest : List Char} (h : Ends rest) :
    number negative (Nat.toDigits 10 n ++ rest) =
      some (numeral negative (Nat.toDigits 10 n) [] none, rest) := by
  rw [number_eq negative n fun c hc ↦ (h c hc).1]
  rw [decimals_none fun hc ↦ (h '.' hc).2.1 rfl]
  simp only [exponent_none fun c hc ↦ (h c hc).2.2, Option.map_some]

private theorem toDigits_eq_cons (n : Nat) :
    ∃ c rest, Nat.toDigits 10 n = c :: rest ∧ c.isDigit = true := by
  obtain ⟨c, rest, hcs⟩ := List.exists_cons_of_ne_nil
    (Nat.toDigits_ne_nil : Nat.toDigits 10 n ≠ [])
  refine ⟨c, rest, hcs, ?_⟩
  apply Nat.isDigit_of_mem_toDigits (by decide : 0 < 10) (by decide : 10 ≤ 10)
  rw [hcs]
  exact List.mem_cons_self

private theorem sign_toDigits (n : Nat) (rest : List Char) :
    sign (Nat.toDigits 10 n ++ rest) = (false, Nat.toDigits 10 n ++ rest) := by
  obtain ⟨c, digits, hcs, hc⟩ := toDigits_eq_cons n
  have hminus : c ≠ '-' := by
    rintro rfl
    cases hc
  have hplus : c ≠ '+' := by
    rintro rfl
    cases hc
  rw [hcs, List.cons_append, sign, if_neg hminus, if_neg hplus]

private theorem sign_signed (e : Int) (rest : List Char) :
    sign (signed e ++ rest) = (decide (e < 0), Nat.toDigits 10 e.natAbs ++ rest) := by
  cases e with
  | ofNat n =>
    rw [signed, sign_toDigits, decide_eq_false (by simp)]
    rfl
  | negSucc n =>
    rw [decide_eq_true (Int.negSucc_lt_zero n)]
    rfl

private theorem exponent_signed (e : Int) {rest : List Char} (h : Ends rest) :
    exponent ('e' :: (signed e ++ rest)) = some (some e, rest) := by
  obtain ⟨htake, hdrop⟩ := takeWhile_toDigits e.natAbs fun c hc ↦ (h c hc).1
  have hvalue : (if decide (e < 0) then -(e.natAbs : Int) else e.natAbs) = e := by
    simp only [decide_eq_true_eq]
    omega
  rw [exponent, if_pos (.inl rfl), sign_signed]
  simp only [power, htake, hdrop, if_neg Nat.toDigits_ne_nil, Nat.ofDigitChars_ten_toDigits,
    hvalue, Option.map_some]

private theorem number_scientific (negative : Bool) (mantissa : Nat) (e : Int) {rest : List Char}
    (h : Ends rest) :
    number negative (scientific mantissa e ++ rest) =
      some (.float negative mantissa e, rest) := by
  have hpoint : ('e' :: (signed e ++ rest)).head? ≠ some '.' := by simp
  have hletter : ∀ c ∈ ('e' :: (signed e ++ rest)).head?, c.isDigit = false := by
    rintro _ ⟨⟩
    rfl
  have hnumeral : numeral negative (Nat.toDigits 10 mantissa) [] (some e) =
      .float negative mantissa e := by
    simp [numeral]
  rw [scientific, List.append_assoc, List.cons_append, number_eq negative mantissa hletter,
    decimals_none hpoint]
  simp only [exponent_signed e h, Option.map_some, hnumeral]

/-- A character that starts a value: no white space and no closing bracket. -/
def Starts (text : List Char) : Prop :=
  skipSpace text = text ∧ text.head? ≠ some ']' ∧ text.head? ≠ some '}'

private theorem isDigit_cases {c : Char} (h : c.isDigit = true) :
    c = '0' ∨ c = '1' ∨ c = '2' ∨ c = '3' ∨ c = '4' ∨ c = '5' ∨ c = '6' ∨ c = '7' ∨ c = '8' ∨
      c = '9' := by
  obtain ⟨hlo, hhi⟩ : 48 ≤ c.toNat ∧ c.toNat ≤ 57 := by
    simpa [Char.isDigit, UInt32.le_iff_toNat_le] using h
  have hall : ∀ n ≤ 57, 48 ≤ n → Char.ofNat n = '0' ∨ Char.ofNat n = '1' ∨ Char.ofNat n = '2' ∨
      Char.ofNat n = '3' ∨ Char.ofNat n = '4' ∨ Char.ofNat n = '5' ∨ Char.ofNat n = '6' ∨
      Char.ofNat n = '7' ∨ Char.ofNat n = '8' ∨ Char.ofNat n = '9' := by decide
  have hc := hall c.toNat hhi hlo
  rwa [Char.ofNat_toNat] at hc

private theorem starts_digit {c : Char} (h : c.isDigit = true) (tail : List Char) :
    Starts (c :: tail) := by
  rcases isDigit_cases h with rfl | rfl | rfl | rfl | rfl | rfl | rfl | rfl | rfl | rfl <;>
    exact ⟨rfl, by simp, by simp⟩

/-- A digit starts a number. -/
theorem value_digit (fuel : Nat) {c : Char} (h : c.isDigit = true) (tail : List Char) :
    value (fuel + 1) (c :: tail) = number false (c :: tail) := by
  rcases isDigit_cases h with rfl | rfl | rfl | rfl | rfl | rfl | rfl | rfl | rfl | rfl <;> rfl

/-- The text of a value starts with no white space and no closing bracket. -/
theorem starts_print (v : Json) (tail : List Char) : Starts (print v ++ tail) := by
  cases v with
  | null => exact ⟨rfl, by simp [print], by simp [print]⟩
  | bool b => cases b <;> exact ⟨rfl, by simp [print], by simp [print]⟩
  | num n =>
    obtain ⟨c, rest, hcs, hc⟩ := toDigits_eq_cons n
    rw [print, hcs]
    exact starts_digit hc (rest ++ tail)
  | neg n => exact ⟨rfl, by simp [print], by simp [print]⟩
  | float negative mantissa exponent =>
    cases negative with
    | false =>
      obtain ⟨c, rest, hcs, hc⟩ := toDigits_eq_cons mantissa
      rw [print, scientific, hcs]
      exact starts_digit hc _
    | true => exact ⟨rfl, by simp [print], by simp [print]⟩
  | str s => exact ⟨rfl, by simp [print, quote], by simp [print, quote]⟩
  | arr items =>
    cases items <;> exact ⟨rfl, by simp [print], by simp [print]⟩
  | obj members =>
    cases members <;> exact ⟨rfl, by simp [print], by simp [print]⟩

/-- With fuel for its text, the reader takes the value and stops behind it. -/
def Reads (v : Json) : Prop :=
  ∀ fuel rest, (print v).length ≤ fuel → Ends rest → value fuel (print v ++ rest) = some (v, rest)

/-- No value is written as the empty text. -/
theorem length_print_pos (v : Json) : 0 < (print v).length := by
  cases hv : print v with
  | nil =>
    have hstarts := starts_print v [']']
    rw [hv] at hstarts
    exact absurd rfl hstarts.2.1
  | cons c rest => simp

private theorem ends_items (items : List Json) (rest : List Char) :
    Ends (printItems items ++ rest) := by
  cases items with
  | nil => simp [printItems, Ends]
  | cons item items => simp [printItems, Ends]

private theorem ends_members (members : List (String × Json)) (rest : List Char) :
    Ends (printMembers members ++ rest) := by
  cases members with
  | nil => simp [printMembers, Ends]
  | cons member members => simp [printMembers, Ends]

-- The same for the items of an array, which it reads up to the closing bracket.
private def ReadsItems (item : Json) (items : List Json) : Prop :=
  ∀ fuel rest, (print item ++ printItems items).length ≤ fuel →
    Json.items fuel (print item ++ (printItems items ++ rest)) = some (item :: items, rest)

-- The same for the members of an object.
private def ReadsMembers (key : String) (item : Json) (members : List (String × Json)) : Prop :=
  ∀ fuel rest, (quote key ++ ':' :: (print item ++ printMembers members)).length ≤ fuel →
    Json.members fuel (quote key ++ ':' :: (print item ++ (printMembers members ++ rest))) =
      some ((key, item) :: members, rest)

private theorem value_number {fuel : Nat} {text rest : List Char} {v : Json} {c : Char}
    {tail : List Char} (htext : text = c :: tail) (hc : c.isDigit = true)
    (hread : number false (text ++ rest) = some (v, rest)) (hfuel : text.length ≤ fuel) :
    value fuel (text ++ rest) = some (v, rest) := by
  rw [htext] at hfuel hread ⊢
  cases fuel with
  | zero => simp at hfuel
  | succ fuel =>
    rw [List.cons_append] at hread ⊢
    rw [value_digit fuel hc, hread]

private theorem value_minus {fuel : Nat} {text rest : List Char} {v : Json}
    (hread : number true (text ++ rest) = some (v, rest)) (hfuel : ('-' :: text).length ≤ fuel) :
    value fuel ('-' :: text ++ rest) = some (v, rest) := by
  cases fuel with
  | zero => simp at hfuel
  | succ fuel =>
    have hskip : skipSpace ('-' :: text ++ rest) = '-' :: (text ++ rest) := rfl
    rw [value, hskip]
    exact hread

private theorem reads_num (n : Nat) : Reads (.num n) := by
  intro fuel rest hfuel hrest
  obtain ⟨c, digits, hcs, hc⟩ := toDigits_eq_cons n
  have hread := number_toDigits false n hrest
  simp only [numeral, Nat.ofDigitChars_ten_toDigits] at hread
  exact value_number hcs hc hread hfuel

private theorem reads_neg (n : Nat) : Reads (.neg n) := by
  intro fuel rest hfuel hrest
  have hread := number_toDigits true (n + 1) hrest
  simp only [numeral, Nat.ofDigitChars_ten_toDigits] at hread
  exact value_minus hread hfuel

private theorem reads_float (negative : Bool) (mantissa : Nat) (exponent : Int) :
    Reads (.float negative mantissa exponent) := by
  intro fuel rest hfuel hrest
  have hread := number_scientific negative mantissa exponent hrest
  cases negative with
  | false =>
    obtain ⟨c, digits, hcs, hc⟩ := toDigits_eq_cons mantissa
    have htext : scientific mantissa exponent = c :: (digits ++ 'e' :: signed exponent) := by
      rw [scientific, hcs, List.cons_append]
    exact value_number htext hc hread hfuel
  | true => exact value_minus hread hfuel

private theorem reads_str (text : String) : Reads (.str text) := by
  intro fuel rest hfuel _
  cases fuel with
  | zero => simp [print, quote] at hfuel
  | succ fuel =>
    have hread := string_quote text.toList rest
    have hskip : skipSpace (print (.str text) ++ rest) =
        '"' :: (text.toList.flatMap escape ++ '"' :: rest) := by
      simp [print, quote, skipSpace]
    rw [value, hskip]
    simp [hread]

private theorem reads_arr {item : Json} {items : List Json} (h : ReadsItems item items) :
    Reads (.arr (item :: items)) := by
  intro fuel rest hfuel _
  cases fuel with
  | zero => simp [print] at hfuel
  | succ fuel =>
    have hread := h fuel rest (by simpa [print] using hfuel)
    have hstarts := starts_print item (printItems items ++ rest)
    have hskip : skipSpace (print (.arr (item :: items)) ++ rest) =
        '[' :: (print item ++ (printItems items ++ rest)) := by
      simp [print, skipSpace]
    rw [value, hskip]
    simp only [hstarts.1]
    split
    · next hclose =>
      rw [hclose] at hstarts
      exact absurd rfl hstarts.2.1
    · rw [hread]
      rfl

private theorem reads_obj {key : String} {item : Json} {members : List (String × Json)}
    (h : ReadsMembers key item members) : Reads (.obj ((key, item) :: members)) := by
  intro fuel rest hfuel _
  cases fuel with
  | zero => simp [print] at hfuel
  | succ fuel =>
    have hread := h fuel rest (by simpa [print] using hfuel)
    have hskip : skipSpace (print (.obj ((key, item) :: members)) ++ rest) =
        '{' :: (quote key ++ ':' :: (print item ++ (printMembers members ++ rest))) := by
      simp [print, skipSpace]
    have hquote (tail : List Char) : skipSpace (quote key ++ tail) = quote key ++ tail := by
      simp [quote, skipSpace]
    rw [value, hskip]
    simp only [hquote]
    split
    · next hclose => simp [quote] at hclose
    · rw [hread]
      rfl

private theorem readsItems_of_reads {item : Json} {items : List Json} (hitem : Reads item)
    (hrest : ∀ next later, items = next :: later → ReadsItems next later) :
    ReadsItems item items := by
  intro fuel rest hfuel
  have hpos := length_print_pos item
  have hlen : 0 < (printItems items).length := by
    cases items <;> simp [printItems]
  rw [List.length_append] at hfuel
  cases fuel with
  | zero => omega
  | succ fuel =>
    rw [Json.items, hitem fuel _ (by omega) (ends_items items rest)]
    cases items with
    | nil => rfl
    | cons next later =>
      have hnext := hrest next later rfl fuel rest (by simp [printItems] at hfuel ⊢; omega)
      have hskip : skipSpace (printItems (next :: later) ++ rest) =
          ',' :: (print next ++ (printItems later ++ rest)) := by
        simp [printItems, skipSpace]
      simp only [hskip, hnext, Option.map_some]

private theorem readsMembers_of_reads {key : String} {item : Json}
    {members : List (String × Json)} (hitem : Reads item)
    (hrest : ∀ other next later, members = (other, next) :: later → ReadsMembers other next later) :
    ReadsMembers key item members := by
  intro fuel rest hfuel
  have hpos := length_print_pos item
  have hlen : 0 < (printMembers members).length := by
    cases members <;> simp [printMembers]
  simp only [List.length_append, List.length_cons] at hfuel
  cases fuel with
  | zero => omega
  | succ fuel =>
    have hskip (tail : List Char) :
        skipSpace (quote key ++ tail) = '"' :: (key.toList.flatMap escape ++ '"' :: tail) := by
      simp [quote, skipSpace]
    have hcolon (tail : List Char) : skipSpace (':' :: tail) = ':' :: tail := rfl
    rw [Json.members, hskip]
    simp only [string_quote, hcolon]
    rw [hitem fuel _ (by omega) (ends_members members rest)]
    cases members with
    | nil => simp [printMembers, skipSpace]
    | cons member later =>
      obtain ⟨other, next⟩ := member
      have hnext := hrest other next later rfl fuel rest
        (by simp [printMembers] at hfuel ⊢; omega)
      have hcomma : skipSpace (printMembers ((other, next) :: later) ++ rest) =
          ',' :: (quote other ++ ':' :: (print next ++ (printMembers later ++ rest))) := by
        simp [printMembers, skipSpace]
      simp only [hcomma, hnext, Option.map_some, String.ofList_toList]

mutual

/-- The compact text of a value is read, with any text behind it that ends a number. -/
theorem reads_print : ∀ v : Json, Reads v
  | .null => fun
    | 0, _, hfuel, _ => nomatch hfuel
    | _ + 1, _, _, _ => rfl
  | .bool true => fun
    | 0, _, hfuel, _ => nomatch hfuel
    | _ + 1, _, _, _ => rfl
  | .bool false => fun
    | 0, _, hfuel, _ => nomatch hfuel
    | _ + 1, _, _, _ => rfl
  | .num n => reads_num n
  | .neg n => reads_neg n
  | .float negative mantissa exponent => reads_float negative mantissa exponent
  | .str text => reads_str text
  | .arr [] => fun
    | 0, _, hfuel, _ => nomatch hfuel
    | _ + 1, _, _, _ => rfl
  | .arr (item :: items) => reads_arr (reads_items item (reads_print item) items)
  | .obj [] => fun
    | 0, _, hfuel, _ => nomatch hfuel
    | _ + 1, _, _, _ => rfl
  | .obj ((key, item) :: members) =>
    reads_obj (reads_members key item (reads_print item) members)

private theorem reads_items (item : Json) (hitem : Reads item) :
    ∀ items : List Json, ReadsItems item items
  | [] => readsItems_of_reads hitem (by simp)
  | next :: later =>
    readsItems_of_reads hitem (by
      rintro _ _ ⟨⟩
      exact reads_items next (reads_print next) later)

private theorem reads_members (key : String) (item : Json) (hitem : Reads item) :
    ∀ members : List (String × Json), ReadsMembers key item members
  | [] => readsMembers_of_reads hitem (by simp)
  | (other, next) :: later =>
    readsMembers_of_reads hitem (by
      rintro _ _ _ ⟨⟩
      exact reads_members other next (reads_print next) later)

end

/-- Reading the text of a value gives the value back. -/
theorem parse_print (v : Json) : parse (print v) = some v := by
  have hread := reads_print v ((print v).length + 1) [] (by omega) (by simp [Ends])
  rw [List.append_nil] at hread
  simp [parse, hread, skipSpace]

/-! ### Pretty texts -/

/-- The items after the first one in the pretty text of a list of strings. -/
def prettyItems : List String → List Char
  | [] => ['\n', ']']
  | text :: texts => [',', '\n', ' ', ' '] ++ (quote text ++ prettyItems texts)

/-- The pretty text of a list of strings, with two spaces in front of each. -/
def prettyTexts : List String → List Char
  | [] => ['[', ']']
  | text :: texts => ['[', '\n', ' ', ' '] ++ (quote text ++ prettyItems texts)

private theorem value_space (fuel : Nat) (text : List Char) :
    value fuel ('\n' :: ' ' :: ' ' :: text) = value fuel text := by
  cases fuel with
  | zero => rfl
  | succ fuel =>
    have hskip : skipSpace ('\n' :: ' ' :: ' ' :: text) = skipSpace text := rfl
    rw [value, value, hskip]

private theorem value_quote (fuel : Nat) (text : String) (rest : List Char) :
    value (fuel + 1) (quote text ++ rest) = some (.str text, rest) := by
  have hread := string_quote text.toList rest
  have hskip : skipSpace (quote text ++ rest) =
      '"' :: (text.toList.flatMap escape ++ '"' :: rest) := by
    simp [quote, skipSpace]
  rw [value, hskip]
  simp [hread]

private theorem items_pretty (text : String) (texts : List String) {fuel : Nat}
    (hfuel : texts.length + 2 ≤ fuel) (rest : List Char) :
    items fuel (quote text ++ (prettyItems texts ++ rest)) =
        some ((text :: texts).map .str, rest) ∧
      items fuel ('\n' :: ' ' :: ' ' :: (quote text ++ (prettyItems texts ++ rest))) =
        some ((text :: texts).map .str, rest) := by
  induction texts generalizing text fuel with
  | nil =>
    obtain ⟨fuel, rfl⟩ : ∃ k, fuel = k + 2 := ⟨fuel - 2, by omega⟩
    have hclose : skipSpace (prettyItems [] ++ rest) = ']' :: rest := rfl
    constructor
    · rw [items, value_quote]
      simp only [hclose]
      rfl
    · rw [items, value_space, value_quote]
      simp only [hclose]
      rfl
  | cons next texts ih =>
    rw [List.length_cons] at hfuel
    obtain ⟨fuel, rfl⟩ : ∃ k, fuel = k + 2 := ⟨fuel - 2, by omega⟩
    have hcomma : skipSpace (prettyItems (next :: texts) ++ rest) =
        ',' :: '\n' :: ' ' :: ' ' :: (quote next ++ (prettyItems texts ++ rest)) := by
      simp [prettyItems, skipSpace]
    have hroom : texts.length + 2 ≤ fuel + 1 := by omega
    have hnext := (ih next hroom).2
    constructor
    · rw [items, value_quote]
      simp only [hcomma, hnext]
      rfl
    · rw [items, value_space, value_quote]
      simp only [hcomma, hnext]
      rfl

private theorem length_prettyItems (texts : List String) :
    texts.length + 2 ≤ (prettyItems texts).length := by
  induction texts with
  | nil => simp [prettyItems]
  | cons text texts ih =>
    simp only [prettyItems, List.length_append, List.length_cons]
    omega

/-- Reading a pretty text gives the list of strings back. -/
theorem parse_prettyTexts (texts : List String) : parse (prettyTexts texts) =
    some (.arr (texts.map .str)) := by
  cases texts with
  | nil => rfl
  | cons text texts =>
    have hlen := length_prettyItems texts
    have hfuel : texts.length + 2 ≤ (prettyTexts (text :: texts)).length := by
      simp only [prettyTexts, List.length_append]
      omega
    have hread := (items_pretty text texts hfuel []).1
    rw [List.append_nil] at hread
    have hopen : skipSpace (prettyTexts (text :: texts)) =
        '[' :: '\n' :: ' ' :: ' ' :: (quote text ++ prettyItems texts) := by
      simp [prettyTexts, skipSpace]
    have hfirst : skipSpace ('\n' :: ' ' :: ' ' :: (quote text ++ prettyItems texts)) =
        quote text ++ prettyItems texts := by
      simp [quote, skipSpace]
    have hvalue : value ((prettyTexts (text :: texts)).length + 1) (prettyTexts (text :: texts)) =
        some (.arr ((text :: texts).map .str), []) := by
      rw [value, hopen]
      simp only [hfirst]
      split
      · next hclose => cases hclose
      · rw [hread]
        rfl
    simp only [parse, hvalue]
    rfl

/-! ### Records

How a struct with named fields is written and read: unknown members are skipped, a repeated
one is an error. -/

section Records

universe u

variable {α : Type u}

/-- The member of a key, if there is one; `none` when the key repeats. -/
def member (members : List (String × Json)) (key : String) : Option (Option Json) :=
  match members.filter (·.1 == key) with
  | [] => some none
  | [(_, value)] => some (some value)
  | _ => none

/-- A field that has to be there. -/
def required (decode : Json → Option α) (members : List (String × Json)) (key : String) :
    Option α :=
  (member members key).bind fun found ↦ found.bind decode

/-- An `Option` field: missing and `null` are the same. -/
def optional (decode : Json → Option α) (members : List (String × Json)) (key : String) :
    Option (Option α) :=
  match member members key with
  | none => none
  | some none | some (some .null) => some none
  | some (some value) => (decode value).map some

/-- A field with a default. -/
def defaulted (decode : Json → Option α) (fallback : α) (members : List (String × Json))
    (key : String) : Option α :=
  match member members key with
  | none => none
  | some none => some fallback
  | some (some value) => decode value

/-- The text of an `Option`. -/
def nullable (encode : α → Json) : Option α → Json
  | none => .null
  | some a => encode a

/-- The text of a list. -/
def list (encode : α → Json) (items : List α) : Json := .arr (items.map encode)

/-- A list. -/
def asList (decode : Json → Option α) : Json → Option (List α)
  | .arr items => items.mapM decode
  | _ => none

/-- A string. -/
def asText : Json → Option String
  | .str text => some text
  | _ => none

/-- A truth value. -/
def asBool : Json → Option Bool
  | .bool b => some b
  | _ => none

/-- The number of an integer. -/
def int : Int → Json
  | .ofNat n => .num n
  | .negSucc n => .neg n

/-- A signed integer of the given width. -/
def asSigned (width : Nat) : Json → Option Int
  | .num n => if n < 2 ^ (width - 1) then some n else none
  | .neg n => if n < 2 ^ (width - 1) then some (.negSucc n) else none
  | _ => none

/-- An unsigned integer of the given width. -/
def asUnsigned (width : Nat) : Json → Option Nat
  | .num n => if n < 2 ^ width then some n else none
  | _ => none

variable {decode : Json → Option α} {encode : α → Json} {members : List (String × Json)}
  {key : String} {value : Json}

/-- A member is found under its key. -/
theorem member_eq_some (hkeys : (members.map Prod.fst).Nodup)
    (hmem : (key, value) ∈ members) : member members key = some (some value) := by
  obtain ⟨front, back, rfl⟩ := List.append_of_mem hmem
  rw [List.map_append, List.map_cons, List.nodup_append, List.nodup_cons] at hkeys
  obtain ⟨-, ⟨hback, -⟩, hfront⟩ := hkeys
  have hbefore : front.filter (·.1 == key) = [] := by
    rw [List.filter_eq_nil_iff]
    intro entry hentry he
    exact hfront entry.1 (List.mem_map_of_mem hentry) key List.mem_cons_self (beq_iff_eq.mp he)
  have hafter : back.filter (·.1 == key) = [] := by
    rw [List.filter_eq_nil_iff]
    intro entry hentry he
    have hin : entry.1 ∈ back.map Prod.fst := List.mem_map_of_mem hentry
    rw [beq_iff_eq.mp he] at hin
    exact hback hin
  simp [member, List.filter_append, hbefore, hafter]

/-- A required field is read back. -/
theorem required_eq_some {a : α} (value : Json) (hkeys : (members.map Prod.fst).Nodup)
    (hmem : (key, value) ∈ members) (h : decode value = some a) :
    required decode members key = some a := by
  simp [required, member_eq_some hkeys hmem, h]

/-- A field with a default is read back. -/
theorem defaulted_eq_some {a fallback : α} (value : Json)
    (hkeys : (members.map Prod.fst).Nodup) (hmem : (key, value) ∈ members)
    (h : decode value = some a) :
    defaulted decode fallback members key = some a := by
  simp [defaulted, member_eq_some hkeys hmem, h]

/-- An `Option` field is read back, as no value in it is written as `null`. -/
theorem optional_eq_some {o : Option α} (encode : α → Json)
    (hkeys : (members.map Prod.fst).Nodup) (hmem : (key, nullable encode o) ∈ members)
    (hnull : ∀ a, encode a ≠ .null) (h : ∀ a ∈ o, decode (encode a) = some a) :
    optional decode members key = some o := by
  cases o with
  | none => simp only [optional, member_eq_some hkeys hmem, nullable]
  | some a =>
    simp only [optional, member_eq_some hkeys hmem, nullable]
    split
    · next he => cases he
    · next he => cases he
    · next he => exact absurd (Option.some.inj (Option.some.inj he)) (hnull a)
    · next he =>
      cases he
      rw [h a rfl]
      rfl

/-- A list is read back. -/
theorem asList_list {items : List α} (h : ∀ a ∈ items, decode (encode a) = some a) :
    asList decode (list encode items) = some items := by
  rw [list, asList]
  induction items with
  | nil => rfl
  | cons a items ih =>
    have hrest := ih fun b hb ↦ h b (List.mem_cons_of_mem a hb)
    simp [List.mapM_cons, h a List.mem_cons_self, hrest]

/-- A list of strings is read back. -/
theorem asList_texts (texts : List String) : asList asText (list .str texts) = some texts :=
  asList_list fun _ _ ↦ rfl

/-- An integer of the width is read back. -/
theorem asSigned_int {width : Nat} {i : Int} (hlo : -2 ^ (width - 1) ≤ i)
    (hhi : i < 2 ^ (width - 1)) : asSigned width (int i) = some i := by
  have hcast : ((2 ^ (width - 1) : Nat) : Int) = 2 ^ (width - 1) := by norm_cast
  cases i with
  | ofNat n =>
    have hn : n < 2 ^ (width - 1) := by
      rw [← hcast] at hhi
      exact Int.ofNat_lt.mp hhi
    simp [int, asSigned, hn]
  | negSucc n =>
    have hn : n < 2 ^ (width - 1) := by
      rw [← hcast] at hlo
      omega
    simp [int, asSigned, hn]

/-- A number of the width is read back. -/
theorem asUnsigned_num {width n : Nat} (h : n < 2 ^ width) :
    asUnsigned width (.num n) = some n := by
  simp [asUnsigned, h]

end Records

end Json

end PeerDeploy.Base
