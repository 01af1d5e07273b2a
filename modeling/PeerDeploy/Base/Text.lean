import Mathlib.Algebra.Ring.Nat
import Mathlib.Data.List.DropRight

/-!
# Rust string slices

General support: the `str` operations of the Rust standard library that the program uses,
on the list of Unicode scalar values. Offsets are byte offsets of the UTF-8 encoding, and
an offset inside a character or past the end has no slice (Rust panics there).
-/

namespace PeerDeploy.Base.Text

/-- `str::strip_prefix`: the rest of the text after a leading pattern. -/
def stripPrefix (pattern text : String) : Option String :=
  if pattern.toList.isPrefixOf text.toList then
    some (String.ofList (text.toList.drop pattern.toList.length))
  else none

/-- `str::starts_with` for a literal pattern. -/
def startsWith (pattern text : String) : Bool := pattern.toList.isPrefixOf text.toList

/-- Split at a byte offset; `none` when the offset is not on a character boundary. -/
def splitAtByte : List Char → Nat → Option (List Char × List Char)
  | cs, 0 => some ([], cs)
  | [], _ + 1 => none
  | c :: cs, n + 1 =>
    if c.utf8Size ≤ n + 1 then
      (splitAtByte cs (n + 1 - c.utf8Size)).map fun (front, back) ↦ (c :: front, back)
    else none

/-- `str::is_char_boundary`: the offset is at the start or the end of a character. -/
def IsCharBoundary (text : String) (offset : Nat) : Prop := (String.Pos.Raw.mk offset).IsValid text

/-- Character boundaries are decidable. -/
instance (text : String) (offset : Nat) : Decidable (IsCharBoundary text offset) :=
  inferInstanceAs (Decidable ((String.Pos.Raw.mk offset).IsValid text))

/-- `&text[start..stop]`, or `none` where Rust panics. -/
def slice (text : String) (start stop : Nat) : Option String :=
  if start ≤ stop then do
    let (_, back) ← splitAtByte text.toList start
    let (middle, _) ← splitAtByte back (stop - start)
    return String.ofList middle
  else none

/-- `char::is_whitespace`: the Unicode `White_Space` property. -/
def isWhitespace (c : Char) : Bool :=
  let n := c.toNat
  (9 ≤ n && n ≤ 13) || n == 0x20 || n == 0x85 || n == 0xA0 || n == 0x1680 ||
    (0x2000 ≤ n && n ≤ 0x200A) || n == 0x2028 || n == 0x2029 || n == 0x202F ||
    n == 0x205F || n == 0x3000

/-- `str::trim`: drop white space at both ends. -/
def trim (text : String) : String :=
  String.ofList (((text.toList.dropWhile isWhitespace).reverse.dropWhile isWhitespace).reverse)

/-- What stands before and after the first occurrence of a pattern. -/
def splitOnceChars (pattern : List Char) : List Char → Option (List Char × List Char)
  | [] => if pattern.isEmpty then some ([], []) else none
  | c :: rest =>
    if pattern.isPrefixOf (c :: rest) then some ([], (c :: rest).drop pattern.length)
    else (splitOnceChars pattern rest).map fun (front, back) ↦ (c :: front, back)

/-- `str::split_once` for a literal pattern. -/
def splitOnce (pattern text : String) : Option (String × String) :=
  (splitOnceChars pattern.toList text.toList).map fun (front, back) ↦
    (String.ofList front, String.ofList back)

/-- `str::parse` for an unsigned integer of the given width: a sign may lead the digits. -/
def parseUnsigned (width : Nat) (text : String) : Option Nat :=
  let digits := match text.toList with
    | '+' :: rest => rest
    | cs => cs
  let n := Nat.ofDigitChars 10 digits 0
  if !digits.isEmpty && digits.all Char.isDigit && n < 2 ^ width then some n else none

/-- The pieces of `str::split` for a single character, first piece apart. -/
def splitCharChars (sep : Char) : List Char → List Char × List (List Char)
  | [] => ([], [])
  | c :: rest =>
    let (piece, pieces) := splitCharChars sep rest
    if c = sep then ([], piece :: pieces) else (c :: piece, pieces)

/-- `str::split` for a single character. -/
def splitChar (sep : Char) (text : String) : List String :=
  let (piece, pieces) := splitCharChars sep text.toList
  (piece :: pieces).map String.ofList

/-- A line without the carriage return in front of its line feed. -/
def stripCarriageReturn (line : String) : String :=
  if line.toList.getLast? = some '\r' then String.ofList line.toList.dropLast else line

/-- `str::lines`: what follows the last line feed is a line if there is anything. -/
def lines (text : String) : List String :=
  let pieces := splitChar '\n' text
  pieces.dropLast.map stripCarriageReturn ++ pieces.getLast?.toList.filter (· ≠ "")

/-- `text.split_whitespace().next()`. -/
def firstWord (text : String) : Option String :=
  match (text.toList.dropWhile isWhitespace).takeWhile (!isWhitespace ·) with
  | [] => none
  | word => some (String.ofList word)

/-- `str::to_ascii_lowercase`. -/
def toAsciiLowercase (text : String) : String := String.ofList (text.toList.map Char.toLower)

/-- `str::eq_ignore_ascii_case`. -/
def eqIgnoreAsciiCase (a b : String) : Bool := toAsciiLowercase a == toAsciiLowercase b

/-- `str::to_lowercase`, for texts whose letters are ASCII. -/
def toLowercase (text : String) : String := String.ofList (text.toList.map Char.toLower)

/-- A digit is no white space. -/
theorem isWhitespace_of_isDigit {c : Char} (h : c.isDigit = true) : isWhitespace c = false := by
  obtain ⟨hlo, hhi⟩ : 48 ≤ c.toNat ∧ c.toNat ≤ 57 := by
    simpa [Char.isDigit, UInt32.le_iff_toNat_le] using h
  simp only [isWhitespace, Bool.or_eq_false_iff, Bool.and_eq_false_iff, decide_eq_false_iff_not,
    beq_eq_false_iff_ne]
  omega

private theorem dropWhile_eq_self {l : List Char} (h : ∀ c ∈ l.head?, isWhitespace c = false) :
    l.dropWhile isWhitespace = l := by
  cases l with
  | nil => rfl
  | cons c rest => rw [List.dropWhile_cons_of_neg (by rw [h c rfl]; decide)]

private theorem head?_dropWhile (l : List Char) :
    ∀ c ∈ (l.dropWhile isWhitespace).head?, isWhitespace c = false := by
  intro c hc
  have hne : l.dropWhile isWhitespace ≠ [] := by
    intro hnil
    rw [hnil] at hc
    cases hc
  have hhead := List.head_dropWhile_not isWhitespace hne
  rw [List.head?_eq_some_head hne, Option.mem_some_iff] at hc
  rw [← hc]
  simpa using hhead

/-- Trimming twice is trimming once. -/
theorem trim_trim (text : String) : trim (trim text) = trim text := by
  unfold trim
  rw [String.toList_ofList]
  have hback := head?_dropWhile (text.toList.dropWhile isWhitespace).reverse
  have hfront := head?_dropWhile text.toList
  generalize hf : text.toList.dropWhile isWhitespace = front at hback hfront ⊢
  generalize hb : front.reverse.dropWhile isWhitespace = back at hback ⊢
  -- what the second pass leaves is a final part of the reversed text, so it keeps its last
  have hsuffix : back <:+ front.reverse := by
    rw [← hb]
    exact List.dropWhile_suffix _
  have hlead : ∀ c ∈ back.reverse.head?, isWhitespace c = false := by
    intro c hc
    apply hfront c
    obtain ⟨cut, hcut⟩ := hsuffix
    have hsplit : front = back.reverse ++ cut.reverse := by
      rw [← List.reverse_append, hcut, List.reverse_reverse]
    rw [hsplit]
    cases hr : back.reverse with
    | nil =>
      rw [hr] at hc
      cases hc
    | cons a rest =>
      rw [hr] at hc
      exact hc
  rw [dropWhile_eq_self hlead, List.reverse_reverse, dropWhile_eq_self hback]

/-- A text without white space stays as it is. -/
theorem trim_eq_self {text : String} (h : ∀ c ∈ text.toList, isWhitespace c = false) :
    trim text = text := by
  unfold trim
  have hback : ∀ c ∈ text.toList.reverse.head?, isWhitespace c = false := by
    intro c hc
    exact h c (List.mem_reverse.mp (List.mem_of_mem_head? hc))
  rw [dropWhile_eq_self fun c hc ↦ h c (List.mem_of_mem_head? hc), dropWhile_eq_self hback,
    List.reverse_reverse, String.ofList_toList]

/-- A space in front of a text is trimmed. -/
theorem trim_space_append (text : String) : trim (" " ++ text) = trim text := by
  have hspace : isWhitespace ' ' = true := by decide
  rw [trim, trim, String.toList_append]
  exact congrArg (fun cs : List Char ↦ String.ofList (cs.reverse.dropWhile isWhitespace).reverse)
    (List.dropWhile_cons_of_pos hspace)

/-- So is a space behind it. -/
theorem trim_append_space (text : String) : trim (text ++ " ") = trim text := by
  have hspace : isWhitespace ' ' = true := by decide
  rw [trim, trim, String.toList_append, List.dropWhile_append]
  split
  · next hnil =>
    rw [List.isEmpty_iff.mp hnil]
    simp [hspace]
  · simp [hspace]

/-- A text with a character other than white space is not trimmed to nothing. -/
theorem trim_ne_empty {text : String} {c : Char} (hc : c ∈ text.toList)
    (h : isWhitespace c = false) : trim text ≠ "" := by
  intro hempty
  rw [trim, String.ofList_eq_empty_iff, List.reverse_eq_nil_iff, List.dropWhile_eq_nil_iff]
    at hempty
  have hall : text.toList.dropWhile isWhitespace = [] := by
    by_contra hne
    obtain ⟨first, rest, hdrop⟩ := List.exists_cons_of_ne_nil hne
    have hfirst := hempty first (by rw [hdrop]; simp)
    have hhead := List.head?_dropWhile_not isWhitespace text.toList
    rw [hdrop] at hhead
    simp [hfirst] at hhead
  have hspace := List.dropWhile_eq_nil_iff.mp hall c hc
  rw [h] at hspace
  cases hspace

/-- A text is split behind a part that does not hold the first character of the pattern. -/
theorem splitOnce_append {front pattern : String} {c : Char} (hc : pattern.toList.head? = some c)
    (h : c ∉ front.toList) (back : String) :
    splitOnce pattern (front ++ pattern ++ back) = some (front, back) := by
  obtain ⟨rest, hpattern⟩ : ∃ rest, pattern.toList = c :: rest := List.head?_eq_some_iff.mp hc
  have hchars (cs : List Char) (hcs : c ∉ cs) : splitOnceChars pattern.toList
      (cs ++ (pattern.toList ++ back.toList)) = some (cs, back.toList) := by
    induction cs with
    | nil =>
      have hleads : (c :: rest).isPrefixOf (c :: (rest ++ back.toList)) = true := by simp
      rw [List.nil_append, hpattern, List.cons_append, splitOnceChars, if_pos hleads]
      simp
    | cons d cs ih =>
      rw [List.mem_cons, not_or] at hcs
      have hother : ¬ (c :: rest).isPrefixOf (d :: (cs ++ (c :: rest ++ back.toList))) = true := by
        simp [hcs.1]
      rw [hpattern] at ih ⊢
      rw [List.cons_append, splitOnceChars, if_neg hother, ih hcs.2]
      rfl
  rw [splitOnce, String.toList_append, String.toList_append, List.append_assoc, hchars _ h]
  simp

/-- A text starts with its front part. -/
theorem startsWith_append (front back : String) : startsWith front (front ++ back) = true := by
  rw [startsWith, String.toList_append, List.isPrefixOf_iff_prefix]
  exact List.prefix_append _ _

/-- The front part of a text is stripped. -/
theorem stripPrefix_append (pattern text : String) :
    stripPrefix pattern (pattern ++ text) = some text := by
  simp [stripPrefix, String.toList_append]

/-- A text is cut at the first separator. -/
theorem splitChar_append {sep : Char} {front : String} (h : sep ∉ front.toList) (back : String) :
    splitChar sep (front ++ String.singleton sep ++ back) = front :: splitChar sep back := by
  have hchars (cs : List Char) (hcs : sep ∉ cs) :
      splitCharChars sep (cs ++ sep :: back.toList) =
        (cs, (splitCharChars sep back.toList).1 :: (splitCharChars sep back.toList).2) := by
    induction cs with
    | nil => simp [splitCharChars]
    | cons c cs ih =>
      rw [List.mem_cons, not_or] at hcs
      simp [splitCharChars, ih hcs.2, Ne.symm hcs.1]
  simp [splitChar, hchars _ h]

/-- The first line ends at the first line feed. -/
theorem lines_append {line : String} (hfeed : '\n' ∉ line.toList)
    (hreturn : '\r' ∉ line.toList) (rest : String) :
    lines (line ++ "\n" ++ rest) = line :: lines rest := by
  have hpieces : splitChar '\n' (line ++ "\n" ++ rest) = line :: splitChar '\n' rest :=
    splitChar_append hfeed rest
  have hstrip : stripCarriageReturn line = line :=
    if_neg fun hlast ↦ hreturn (List.mem_of_getLast? hlast)
  obtain ⟨piece, pieces, hrest⟩ : ∃ piece pieces, splitChar '\n' rest = piece :: pieces :=
    ⟨_, _, rfl⟩
  rw [lines, lines, hpieces, hrest, List.dropLast_cons_cons, List.map_cons, hstrip,
    List.getLast?_cons_cons]
  rfl

private theorem trim_eq (text : String) :
    trim text = String.ofList ((text.toList.dropWhile isWhitespace).rdropWhile isWhitespace) := rfl

-- The pieces of a split, as lists.
private def pieces (sep : Char) (cs : List Char) : List (List Char) :=
  (splitCharChars sep cs).1 :: (splitCharChars sep cs).2

private def trimChars (cs : List Char) : List Char :=
  (cs.dropWhile isWhitespace).rdropWhile isWhitespace

private theorem rdropWhile_cons (c : Char) (cs : List Char) :
    (c :: cs).rdropWhile isWhitespace =
      if cs.rdropWhile isWhitespace = [] ∧ isWhitespace c = true then []
      else c :: cs.rdropWhile isWhitespace := by
  induction cs using List.reverseRecOn with
  | nil =>
    rw [List.rdropWhile_singleton, List.rdropWhile_nil]
    by_cases hc : isWhitespace c = true
    · simp [hc]
    · simp [hc]
  | append_singleton cs last ih =>
    rw [← List.cons_append, List.rdropWhile_concat, List.rdropWhile_concat]
    by_cases hlast : isWhitespace last = true
    · simp only [hlast, if_true, ih]
    · simp [hlast]

private theorem trimChars_eq (cs : List Char) :
    trimChars cs = (cs.rdropWhile isWhitespace).dropWhile isWhitespace := by
  unfold trimChars
  induction cs with
  | nil => rfl
  | cons c cs ih =>
    rw [rdropWhile_cons]
    by_cases hc : isWhitespace c = true
    · rw [List.dropWhile_cons_of_pos hc, ih]
      by_cases hnil : cs.rdropWhile isWhitespace = []
      · simp [hnil, hc]
      · rw [if_neg (by simp [hnil]), List.dropWhile_cons_of_pos hc]
    · rw [List.dropWhile_cons_of_neg hc, rdropWhile_cons, if_neg (by simp [hc]),
        List.dropWhile_cons_of_neg hc]

private theorem pieces_concat {sep c : Char} (hc : isWhitespace c = true) (hne : c ≠ sep)
    (cs : List Char) : (pieces sep (cs ++ [c])).map (·.rdropWhile isWhitespace) =
      (pieces sep cs).map (·.rdropWhile isWhitespace) := by
  induction cs with
  | nil => simp [pieces, splitCharChars, hne, List.rdropWhile_singleton, hc]
  | cons a cs ih =>
    simp only [pieces, List.map_cons, List.cons.injEq] at ih
    obtain ⟨hfirst, hrest⟩ := ih
    by_cases ha : a = sep
    · simp [pieces, splitCharChars, ha, hfirst, hrest]
    · simp [pieces, splitCharChars, ha, hrest, rdropWhile_cons, hfirst]

private theorem map_trimChars_rdropWhile {sep : Char} (hsep : isWhitespace sep = false)
    (cs : List Char) : (pieces sep (cs.rdropWhile isWhitespace)).map trimChars =
      (pieces sep cs).map trimChars := by
  have hends : (pieces sep (cs.rdropWhile isWhitespace)).map (·.rdropWhile isWhitespace) =
      (pieces sep cs).map (·.rdropWhile isWhitespace) := by
    induction cs using List.reverseRecOn with
    | nil => rfl
    | append_singleton cs c ih =>
      rw [List.rdropWhile_concat]
      by_cases hc : isWhitespace c = true
      · have hne : c ≠ sep := by
          rintro rfl
          rw [hc] at hsep
          cases hsep
        rw [if_pos hc, ih, pieces_concat hc hne]
      · rw [if_neg hc]
  have htrim : trimChars = (·.dropWhile isWhitespace) ∘ (·.rdropWhile isWhitespace) := by
    funext cs
    exact trimChars_eq cs
  rw [htrim, ← List.map_map, hends, List.map_map]

private theorem map_trimChars_dropWhile {sep : Char} (hsep : isWhitespace sep = false)
    (cs : List Char) : (pieces sep (cs.dropWhile isWhitespace)).map trimChars =
      (pieces sep cs).map trimChars := by
  induction cs with
  | nil => rfl
  | cons c cs ih =>
    by_cases hc : isWhitespace c = true
    · have hne : c ≠ sep := by
        rintro rfl
        rw [hc] at hsep
        cases hsep
      rw [List.dropWhile_cons_of_pos hc, ih]
      simp [pieces, splitCharChars, hne, trimChars, hc]
    · rw [List.dropWhile_cons_of_neg hc]

/-- White space around a text is also around its first and last pieces. -/
theorem map_trim_splitChar_trim {sep : Char} (hsep : isWhitespace sep = false) (text : String) :
    (splitChar sep (trim text)).map trim = (splitChar sep text).map trim := by
  have hpieces (s : String) :
      (splitChar sep s).map trim = ((pieces sep s.toList).map trimChars).map String.ofList := by
    simp [splitChar, pieces, trim_eq, trimChars, Function.comp_def]
  rw [hpieces, hpieces, trim_eq, String.toList_ofList, map_trimChars_rdropWhile hsep,
    map_trimChars_dropWhile hsep]

/-- A word is read up to the white space that ends it. -/
theorem firstWord_append {word back : String} (hne : word ≠ "")
    (hword : ∀ c ∈ word.toList, isWhitespace c = false)
    (hback : ∀ c ∈ back.toList.head?, isWhitespace c = true) :
    firstWord (word ++ back) = some word := by
  have hlead : (word ++ back).toList.dropWhile isWhitespace = word.toList ++ back.toList := by
    rw [String.toList_append]
    apply dropWhile_eq_self
    intro c hc
    have hnil : word.toList ≠ [] := by simpa using hne
    rw [List.head?_append, List.head?_eq_some_head hnil, Option.some_or, Option.mem_some_iff] at hc
    exact hword c (hc ▸ List.head_mem hnil)
  have hends : back.toList.takeWhile (!isWhitespace ·) = [] := by
    cases hb : back.toList with
    | nil => rfl
    | cons c rest => simp [hback c (by rw [hb]; rfl)]
  have htake : (word.toList ++ back.toList).takeWhile (!isWhitespace ·) = word.toList := by
    rw [List.takeWhile_append_of_pos (fun c hc ↦ by simp [hword c hc]), hends, List.append_nil]
  rw [firstWord, hlead, htake]
  split
  · next hnil => exact absurd (by simpa using hnil) hne
  · rw [String.ofList_toList]

/-- A number is written with digits only. -/
theorem isDigit_of_mem_repr {n : Nat} {c : Char} (h : c ∈ n.repr.toList) : c.isDigit = true := by
  rw [Nat.toList_repr] at h
  exact Nat.isDigit_of_mem_toDigits (by decide) (by decide) h

/-- The decimal digits of a number are read back. -/
theorem parseUnsigned_repr {width n : Nat} (h : n < 2 ^ width) :
    parseUnsigned width (Nat.repr n) = some n := by
  have hdigits : ∀ c ∈ Nat.toDigits 10 n, c.isDigit = true := fun c hc ↦
    Nat.isDigit_of_mem_toDigits (by decide) (by decide) hc
  have hne : Nat.toDigits 10 n ≠ [] := Nat.toDigits_ne_nil
  have hall : (Nat.toDigits 10 n).all Char.isDigit = true := List.all_eq_true.mpr hdigits
  have hplain : (match (Nat.repr n).toList with
      | '+' :: rest => rest
      | cs => cs) = Nat.toDigits 10 n := by
    rw [Nat.toList_repr]
    split
    · next rest hplus =>
      have hsign : '+'.isDigit = true := hdigits '+' (by rw [hplus]; exact List.mem_cons_self)
      exact absurd hsign (by decide)
    · rfl
  rw [parseUnsigned, hplain]
  simp [hne, hall, h, Nat.ofDigitChars_ten_toDigits]

/-- A text that is read as a number has no white space around it. -/
theorem trim_of_parseUnsigned {width n : Nat} {text : String}
    (h : parseUnsigned width text = some n) : trim text = text := by
  apply trim_eq_self
  have hall : ∀ cs : List Char, (!cs.isEmpty && cs.all Char.isDigit &&
      decide (Nat.ofDigitChars 10 cs 0 < 2 ^ width)) = true →
      ∀ c ∈ cs, isWhitespace c = false := by
    intro cs hcs c hc
    simp only [Bool.and_eq_true, List.all_eq_true] at hcs
    exact isWhitespace_of_isDigit (hcs.1.2 c hc)
  by_cases hplus : ∃ rest, text.toList = '+' :: rest
  · obtain ⟨rest, hrest⟩ := hplus
    rw [parseUnsigned] at h
    simp only [hrest] at h
    rw [hrest]
    intro c hc
    rcases List.mem_cons.mp hc with rfl | hc
    · decide
    · split at h
      · next hread => exact hall rest hread c hc
      · cases h
  · have hplain : (match text.toList with
        | '+' :: rest => rest
        | cs => cs) = text.toList := by
      split
      · next rest hrest => exact absurd ⟨rest, hrest⟩ hplus
      · rfl
    rw [parseUnsigned, hplain] at h
    split at h
    · next hread => exact hall text.toList hread
    · cases h

private theorem splitAtByte_eq_some {cs : List Char} (h : ∀ c ∈ cs, c.utf8Size = 1) {n : Nat}
    (hn : n ≤ cs.length) : splitAtByte cs n = some (cs.take n, cs.drop n) := by
  induction cs generalizing n with
  | nil =>
    have hzero : n = 0 := by simpa using hn
    subst hzero
    rfl
  | cons c rest ih =>
    cases n with
    | zero => rfl
    | succ n =>
      have hrest := ih (fun a ha ↦ h a (List.mem_cons_of_mem c ha)) (n := n) (by simpa using hn)
      simp [splitAtByte, h c List.mem_cons_self, hrest]

/-- A text of one-byte characters is sliced like a list. -/
theorem slice_eq_some {text : String} (h : ∀ c ∈ text.toList, c.utf8Size = 1) {start stop : Nat}
    (hle : start ≤ stop) (hstop : stop ≤ text.toList.length) :
    slice text start stop =
      some (String.ofList ((text.toList.drop start).take (stop - start))) := by
  have hfront : splitAtByte text.toList start =
      some (text.toList.take start, text.toList.drop start) :=
    splitAtByte_eq_some h (by omega)
  have hmiddle : splitAtByte (text.toList.drop start) (stop - start) =
      some ((text.toList.drop start).take (stop - start),
        (text.toList.drop start).drop (stop - start)) := by
    apply splitAtByte_eq_some
    · intro c hc
      exact h c (List.mem_of_mem_drop hc)
    · rw [List.length_drop]
      omega
  simp [slice, hle, hfront, hmiddle]

private theorem utf8ByteSize_ofList_cons (c : Char) (cs : List Char) :
    (String.ofList (c :: cs)).utf8ByteSize = c.utf8Size + (String.ofList cs).utf8ByteSize := by
  rw [← List.singleton_append, String.ofList_append, String.utf8ByteSize_append]
  simp

/-- The front part takes as many bytes as the offset says. -/
theorem splitAtByte_eq_some_iff {cs front back : List Char} {n : Nat} :
    splitAtByte cs n = some (front, back) ↔
      cs = front ++ back ∧ (String.ofList front).utf8ByteSize = n := by
  fun_induction splitAtByte cs n generalizing front with
  | case1 cs =>
    constructor
    · intro h
      cases h
      exact ⟨rfl, rfl⟩
    · rintro ⟨rfl, hsize⟩
      have hfront : String.ofList front = "" := String.utf8ByteSize_eq_zero_iff.mp hsize
      obtain rfl : front = [] := by simpa using hfront
      rfl
  | case2 n =>
    constructor
    · intro h
      cases h
    · rintro ⟨hnil, hsize⟩
      obtain ⟨rfl, -⟩ := List.append_eq_nil_iff.mp hnil.symm
      cases hsize
  | case3 c cs n hle ih =>
    constructor
    · intro h
      obtain ⟨⟨tail, rest⟩, hsplit, heq⟩ := Option.map_eq_some_iff.mp h
      cases heq
      obtain ⟨rfl, hsize⟩ := ih.mp hsplit
      refine ⟨rfl, ?_⟩
      rw [utf8ByteSize_ofList_cons, hsize]
      omega
    · rintro ⟨happend, hsize⟩
      cases front with
      | nil => cases hsize
      | cons d tail =>
        obtain ⟨rfl, rfl⟩ : c = d ∧ cs = tail ++ back := by simpa using happend
        rw [utf8ByteSize_ofList_cons] at hsize
        have htail : splitAtByte (tail ++ back) (n + 1 - c.utf8Size) = some (tail, back) :=
          ih.mpr ⟨rfl, by omega⟩
        rw [htail]
        rfl
  | case4 c cs n hlt =>
    constructor
    · intro h
      cases h
    · rintro ⟨happend, hsize⟩
      cases front with
      | nil => cases hsize
      | cons d tail =>
        obtain ⟨rfl, -⟩ : c = d ∧ cs = tail ++ back := by simpa using happend
        rw [utf8ByteSize_ofList_cons] at hsize
        omega

/-- A text is split at the character boundaries. -/
theorem splitAtByte_isSome_iff (text : String) (n : Nat) :
    (splitAtByte text.toList n).isSome = true ↔ IsCharBoundary text n := by
  rw [IsCharBoundary, String.Pos.Raw.isValid_iff_exists_append, Option.isSome_iff_exists]
  constructor
  · rintro ⟨⟨front, back⟩, hsplit⟩
    obtain ⟨happend, hsize⟩ := splitAtByte_eq_some_iff.mp hsplit
    refine ⟨String.ofList front, String.ofList back, ?_, ?_⟩
    · rw [← String.ofList_append, ← happend, String.ofList_toList]
    · rw [String.Pos.Raw.ext_iff, String.byteIdx_rawEndPos, hsize]
  · rintro ⟨front, back, rfl, hpos⟩
    refine ⟨(front.toList, back.toList), splitAtByte_eq_some_iff.mpr ⟨String.toList_append, ?_⟩⟩
    rw [String.ofList_toList]
    exact (congrArg String.Pos.Raw.byteIdx hpos).symm

/-- A slice exists exactly when both its ends are character boundaries. -/
theorem slice_isSome_iff (text : String) {start stop : Nat} (hle : start ≤ stop) :
    (slice text start stop).isSome = true ↔
      IsCharBoundary text start ∧ IsCharBoundary text stop := by
  rw [← splitAtByte_isSome_iff, ← splitAtByte_isSome_iff, slice, if_pos hle]
  cases hfront : splitAtByte text.toList start with
  | none => simp
  | some parts =>
    obtain ⟨front, back⟩ := parts
    obtain ⟨htext, hsize⟩ := splitAtByte_eq_some_iff.mp hfront
    simp only [Option.bind_eq_bind, Option.bind_some, Option.isSome_bind, Option.isSome_some,
      true_and]
    constructor
    · intro h
      obtain ⟨⟨middle, rest⟩, hmiddle⟩ := Option.isSome_iff_exists.mp (by simpa using h)
      obtain ⟨rfl, hmiddlesize⟩ := splitAtByte_eq_some_iff.mp hmiddle
      have hwhole : splitAtByte text.toList stop = some (front ++ middle, rest) := by
        rw [splitAtByte_eq_some_iff, htext, String.ofList_append, String.utf8ByteSize_append]
        exact ⟨(List.append_assoc _ _ _).symm, by omega⟩
      rw [hwhole]
      rfl
    · intro h
      obtain ⟨⟨whole, rest⟩, hwhole⟩ := Option.isSome_iff_exists.mp h
      obtain ⟨happend, hwholesize⟩ := splitAtByte_eq_some_iff.mp hwhole
      rw [htext] at happend
      -- of two front parts of one text the one with fewer bytes is a front part of the other
      have hmiddle : ∃ middle, back = middle ++ rest ∧
          (String.ofList middle).utf8ByteSize = stop - start := by
        rcases List.append_eq_append_iff.mp happend with ⟨middle, rfl, hback⟩ | ⟨excess, rfl, hrest⟩
        · rw [String.ofList_append, String.utf8ByteSize_append] at hwholesize
          exact ⟨middle, hback, by omega⟩
        · rw [String.ofList_append, String.utf8ByteSize_append] at hsize
          have hexcess : String.ofList excess = "" := String.utf8ByteSize_eq_zero_iff.mp (by omega)
          obtain rfl : excess = [] := by simpa using hexcess
          have hstop : stop - start = 0 := by
            simp only [String.ofList_nil, String.utf8ByteSize_empty] at hsize
            omega
          exact ⟨[], hrest.symm, by rw [hstop]; rfl⟩
      obtain ⟨middle, hback, hmiddlesize⟩ := hmiddle
      rw [splitAtByte_eq_some_iff.mpr ⟨hback, hmiddlesize⟩]
      rfl

end PeerDeploy.Base.Text
