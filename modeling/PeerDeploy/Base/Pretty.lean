import PeerDeploy.Base.Json
import Mathlib.Data.List.TakeWhile

/-!
# Pretty JSON texts

General support: the text of `serde_json::to_string_pretty`, two spaces for each level, is read
back; and the beginning of the text of an array or an object is no text, whatever its layout.
-/

namespace PeerDeploy.Base.Json

/-! ### Writing -/

/-- A new line, with two spaces for each level. -/
def line (depth : Nat) : List Char := '\n' :: List.replicate (2 * depth) ' '

mutual

/-- The pretty text of a value at a level. -/
def prettyAt (depth : Nat) : Json → List Char
  | .null => print .null
  | .bool b => print (.bool b)
  | .num n => print (.num n)
  | .neg n => print (.neg n)
  | .float negative mantissa exponent => print (.float negative mantissa exponent)
  | .str text => print (.str text)
  | .arr [] => ['[', ']']
  | .arr (item :: items) =>
    '[' :: (line (depth + 1) ++ (prettyAt (depth + 1) item ++ prettyItemsAt depth items))
  | .obj [] => ['{', '}']
  | .obj ((key, value) :: members) =>
    '{' :: (line (depth + 1) ++ (quote key ++
      ':' :: ' ' :: (prettyAt (depth + 1) value ++ prettyMembersAt depth members)))

/-- The items after the first one, and the closing bracket on its own line. -/
def prettyItemsAt (depth : Nat) : List Json → List Char
  | [] => line depth ++ [']']
  | item :: items =>
    ',' :: (line (depth + 1) ++ (prettyAt (depth + 1) item ++ prettyItemsAt depth items))

/-- The members after the first one, and the closing brace on its own line. -/
def prettyMembersAt (depth : Nat) : List (String × Json) → List Char
  | [] => line depth ++ ['}']
  | (key, value) :: members =>
    ',' :: (line (depth + 1) ++ (quote key ++
      ':' :: ' ' :: (prettyAt (depth + 1) value ++ prettyMembersAt depth members)))

end

/-- The pretty text of a value. -/
def pretty (v : Json) : List Char := prettyAt 0 v

/-! ### White space -/

/-- White space only. -/
def Blank (text : List Char) : Prop := ∀ c ∈ text, c = ' ' ∨ c = '\n' ∨ c = '\t' ∨ c = '\r'

/-- A new line is white space. -/
theorem blank_line (depth : Nat) : Blank (line depth) := by
  intro c hc
  rcases List.mem_cons.mp hc with rfl | hc
  · exact .inr (.inl rfl)
  · exact .inl (List.eq_of_mem_replicate hc)

/-- White space is dropped in front of a text. -/
theorem skipSpace_blank {blank : List Char} (h : Blank blank) (text : List Char) :
    skipSpace (blank ++ text) = skipSpace text := by
  apply List.dropWhile_append_of_pos
  intro c hc
  rcases h c hc with rfl | rfl | rfl | rfl <;> rfl

/-- A value is read behind white space. -/
theorem value_blank {blank : List Char} (h : Blank blank) (fuel : Nat) (text : List Char) :
    value fuel (blank ++ text) = value fuel text := by
  cases fuel with
  | zero => rfl
  | succ fuel => rw [value, value, skipSpace_blank h]

/-- White space in front of a value is skipped. -/
theorem value_skipSpace (fuel : Nat) (text : List Char) :
    value fuel (skipSpace text) = value fuel text := by
  have hblank : Blank (text.takeWhile fun c ↦ c == ' ' || c == '\n' || c == '\t' || c == '\r') := by
    intro c hc
    simpa [or_assoc] using List.mem_takeWhile_imp hc
  rw [← value_blank hblank fuel (skipSpace text), skipSpace, List.takeWhile_append_dropWhile]

/-- So are the items of an array. -/
theorem items_blank {blank : List Char} (h : Blank blank) (fuel : Nat) (text : List Char) :
    items fuel (blank ++ text) = items fuel text := by
  cases fuel with
  | zero => rfl
  | succ fuel => rw [items, items, value_blank h]

/-- So are the members of an object. -/
theorem members_blank {blank : List Char} (h : Blank blank) (fuel : Nat) (text : List Char) :
    members fuel (blank ++ text) = members fuel text := by
  cases fuel with
  | zero => rfl
  | succ fuel => rw [members, members, skipSpace_blank h]

/-- White space ends a number. -/
theorem ends_blank {blank rest : List Char} (h : Blank blank) (hrest : Ends rest) :
    Ends (blank ++ rest) := by
  cases blank with
  | nil => exact hrest
  | cons c blank =>
    rintro _ ⟨rfl⟩
    rcases h c List.mem_cons_self with rfl | rfl | rfl | rfl <;> decide

/-! ### Reading -/

-- With fuel for its text, the reader takes the value and stops behind it.
private def ReadsAt (depth : Nat) (v : Json) : Prop :=
  ∀ fuel rest, (prettyAt depth v).length ≤ fuel → Ends rest →
    value fuel (prettyAt depth v ++ rest) = some (v, rest)

private def ReadsItemsAt (depth : Nat) (item : Json) (items : List Json) : Prop :=
  ∀ fuel rest, (prettyAt (depth + 1) item ++ prettyItemsAt depth items).length ≤ fuel →
    Json.items fuel (prettyAt (depth + 1) item ++ (prettyItemsAt depth items ++ rest)) =
      some (item :: items, rest)

private def ReadsMembersAt (depth : Nat) (key : String) (item : Json)
    (members : List (String × Json)) : Prop :=
  ∀ fuel rest, (quote key ++
      ':' :: ' ' :: (prettyAt (depth + 1) item ++ prettyMembersAt depth members)).length ≤ fuel →
    Json.members fuel (quote key ++
        ':' :: ' ' :: (prettyAt (depth + 1) item ++ (prettyMembersAt depth members ++ rest))) =
      some ((key, item) :: members, rest)

private theorem starts_prettyAt (depth : Nat) (v : Json) (tail : List Char) :
    Starts (prettyAt depth v ++ tail) := by
  cases v with
  | arr items => cases items <;> exact ⟨rfl, by simp [prettyAt], by simp [prettyAt]⟩
  | obj members => cases members <;> exact ⟨rfl, by simp [prettyAt], by simp [prettyAt]⟩
  | null | bool | num | neg | float | str => exact starts_print _ tail

private theorem length_prettyAt_pos (depth : Nat) (v : Json) : 0 < (prettyAt depth v).length := by
  cases hv : prettyAt depth v with
  | nil =>
    have hstarts := starts_prettyAt depth v [']']
    rw [hv] at hstarts
    exact absurd rfl hstarts.2.1
  | cons c rest => simp

private theorem ends_prettyItemsAt (depth : Nat) (items : List Json) (rest : List Char) :
    Ends (prettyItemsAt depth items ++ rest) := by
  cases items with
  | nil =>
    rw [prettyItemsAt, List.append_assoc]
    exact ends_blank (blank_line depth) (by simp [Ends])
  | cons item items => simp [prettyItemsAt, Ends]

private theorem ends_prettyMembersAt (depth : Nat) (members : List (String × Json))
    (rest : List Char) : Ends (prettyMembersAt depth members ++ rest) := by
  cases members with
  | nil =>
    rw [prettyMembersAt, List.append_assoc]
    exact ends_blank (blank_line depth) (by simp [Ends])
  | cons member members => simp [prettyMembersAt, Ends]

private theorem readsAt_arr {depth : Nat} {item : Json} {items : List Json}
    (h : ReadsItemsAt depth item items) : ReadsAt depth (.arr (item :: items)) := by
  intro fuel rest hfuel _
  cases fuel with
  | zero => simp [prettyAt] at hfuel
  | succ fuel =>
    have hread := h fuel rest (by
      simp only [prettyAt, List.length_cons, List.length_append] at hfuel ⊢
      omega)
    have hopen : skipSpace (prettyAt depth (.arr (item :: items)) ++ rest) =
        '[' :: (line (depth + 1) ++
          (prettyAt (depth + 1) item ++ (prettyItemsAt depth items ++ rest))) := by
      simp [prettyAt, skipSpace]
    have hstarts := starts_prettyAt (depth + 1) item (prettyItemsAt depth items ++ rest)
    rw [value, hopen]
    simp only [skipSpace_blank (blank_line _), hstarts.1]
    split
    · next hclose =>
      rw [hclose] at hstarts
      exact absurd rfl hstarts.2.1
    · rw [hread]
      rfl

private theorem readsAt_obj {depth : Nat} {key : String} {item : Json}
    {members : List (String × Json)} (h : ReadsMembersAt depth key item members) :
    ReadsAt depth (.obj ((key, item) :: members)) := by
  intro fuel rest hfuel _
  cases fuel with
  | zero => simp [prettyAt] at hfuel
  | succ fuel =>
    have hread := h fuel rest (by
      simp only [prettyAt, List.length_cons, List.length_append] at hfuel ⊢
      omega)
    have hopen : skipSpace (prettyAt depth (.obj ((key, item) :: members)) ++ rest) =
        '{' :: (line (depth + 1) ++ (quote key ++ ':' :: ' ' ::
          (prettyAt (depth + 1) item ++ (prettyMembersAt depth members ++ rest)))) := by
      simp [prettyAt, skipSpace]
    have hquote (tail : List Char) : skipSpace (quote key ++ tail) = quote key ++ tail := by
      simp [quote, skipSpace]
    rw [value, hopen]
    simp only [skipSpace_blank (blank_line _), hquote]
    split
    · next hclose => simp [quote] at hclose
    · rw [hread]
      rfl

private theorem readsItemsAt_of_readsAt {depth : Nat} {item : Json} {items : List Json}
    (hitem : ReadsAt (depth + 1) item)
    (hrest : ∀ next later, items = next :: later → ReadsItemsAt depth next later) :
    ReadsItemsAt depth item items := by
  intro fuel rest hfuel
  have hpos := length_prettyAt_pos (depth + 1) item
  have hlen : 0 < (prettyItemsAt depth items).length := by
    cases items <;> simp [prettyItemsAt]
  rw [List.length_append] at hfuel
  cases fuel with
  | zero => omega
  | succ fuel =>
    rw [Json.items, hitem fuel _ (by omega) (ends_prettyItemsAt depth items rest)]
    cases items with
    | nil =>
      have hclose : skipSpace (prettyItemsAt depth [] ++ rest) = ']' :: rest := by
        rw [prettyItemsAt, List.append_assoc, skipSpace_blank (blank_line depth)]
        rfl
      simp only [hclose]
    | cons next later =>
      have hnext := hrest next later rfl fuel rest (by
        simp only [prettyItemsAt, List.length_cons, List.length_append] at hfuel ⊢
        omega)
      have hcomma : skipSpace (prettyItemsAt depth (next :: later) ++ rest) =
          ',' :: (line (depth + 1) ++
            (prettyAt (depth + 1) next ++ (prettyItemsAt depth later ++ rest))) := by
        simp [prettyItemsAt, skipSpace]
      simp only [hcomma, items_blank (blank_line _), hnext, Option.map_some]

private theorem readsMembersAt_of_readsAt {depth : Nat} {key : String} {item : Json}
    {members : List (String × Json)} (hitem : ReadsAt (depth + 1) item)
    (hrest : ∀ other next later, members = (other, next) :: later →
      ReadsMembersAt depth other next later) :
    ReadsMembersAt depth key item members := by
  intro fuel rest hfuel
  have hpos := length_prettyAt_pos (depth + 1) item
  have hlen : 0 < (prettyMembersAt depth members).length := by
    cases members <;> simp [prettyMembersAt]
  simp only [List.length_append, List.length_cons] at hfuel
  cases fuel with
  | zero => omega
  | succ fuel =>
    have hskip (tail : List Char) :
        skipSpace (quote key ++ tail) = '"' :: (key.toList.flatMap escape ++ '"' :: tail) := by
      simp [quote, skipSpace]
    have hcolon (tail : List Char) : skipSpace (':' :: tail) = ':' :: tail := rfl
    have hspace : Blank [' '] := by simp [Blank]
    rw [Json.members, hskip]
    simp only [string_quote, hcolon]
    rw [← List.singleton_append, value_blank hspace,
      hitem fuel _ (by omega) (ends_prettyMembersAt depth members rest)]
    cases members with
    | nil =>
      have hclose : skipSpace (prettyMembersAt depth [] ++ rest) = '}' :: rest := by
        rw [prettyMembersAt, List.append_assoc, skipSpace_blank (blank_line depth)]
        rfl
      simp only [hclose, String.ofList_toList]
    | cons member later =>
      obtain ⟨other, next⟩ := member
      have hnext := hrest other next later rfl fuel rest (by
        simp only [prettyMembersAt, List.length_cons, List.length_append] at hfuel ⊢
        omega)
      have hcomma : skipSpace (prettyMembersAt depth ((other, next) :: later) ++ rest) =
          ',' :: (line (depth + 1) ++ (quote other ++ ':' :: ' ' ::
            (prettyAt (depth + 1) next ++ (prettyMembersAt depth later ++ rest)))) := by
        simp [prettyMembersAt, skipSpace]
      simp only [hcomma, members_blank (blank_line _), hnext, Option.map_some,
        String.ofList_toList]

mutual

private theorem readsAt_prettyAt (depth : Nat) : ∀ v : Json, ReadsAt depth v
  | .null => reads_print .null
  | .bool b => reads_print (.bool b)
  | .num n => reads_print (.num n)
  | .neg n => reads_print (.neg n)
  | .float negative mantissa exponent => reads_print (.float negative mantissa exponent)
  | .str text => reads_print (.str text)
  | .arr [] => reads_print (.arr [])
  | .arr (item :: items) =>
    readsAt_arr (readsItemsAt depth item (readsAt_prettyAt (depth + 1) item) items)
  | .obj [] => reads_print (.obj [])
  | .obj ((key, item) :: members) =>
    readsAt_obj (readsMembersAt depth key item (readsAt_prettyAt (depth + 1) item) members)

private theorem readsItemsAt (depth : Nat) (item : Json) (hitem : ReadsAt (depth + 1) item) :
    ∀ items : List Json, ReadsItemsAt depth item items
  | [] => readsItemsAt_of_readsAt hitem (by simp)
  | next :: later =>
    readsItemsAt_of_readsAt hitem (by
      rintro _ _ ⟨⟩
      exact readsItemsAt depth next (readsAt_prettyAt (depth + 1) next) later)

private theorem readsMembersAt (depth : Nat) (key : String) (item : Json)
    (hitem : ReadsAt (depth + 1) item) :
    ∀ members : List (String × Json), ReadsMembersAt depth key item members
  | [] => readsMembersAt_of_readsAt hitem (by simp)
  | (other, next) :: later =>
    readsMembersAt_of_readsAt hitem (by
      rintro _ _ _ ⟨⟩
      exact readsMembersAt depth other next (readsAt_prettyAt (depth + 1) next) later)

end

/-- Reading the pretty text of a value gives the value back. -/
theorem parse_pretty (v : Json) : parse (pretty v) = some v := by
  have hread := readsAt_prettyAt 0 v ((pretty v).length + 1) [] (Nat.le_succ _) (by simp [Ends])
  rw [List.append_nil] at hread
  unfold parse
  rw [show prettyAt 0 v = pretty v from rfl] at hread
  simp [hread, skipSpace]

/-! ### What follows a value -/

/-- A value whose text ends with a delimiter of its own. -/
def Closed : Json → Prop
  | .num _ | .neg _ | .float _ _ _ => False
  | _ => True

private theorem skipSpace_append {text rest : List Char} {c : Char} (h : skipSpace text = c :: rest)
    (more : List Char) : skipSpace (text ++ more) = c :: (rest ++ more) := by
  unfold skipSpace at h ⊢
  rw [List.dropWhile_append, h]
  rfl

private theorem string_append {text cs rest : List Char} (h : string text = some (cs, rest))
    (more : List Char) : string (text ++ more) = some (cs, rest ++ more) := by
  fun_induction string text generalizing cs rest with
  | case2 tail =>
    cases h
    rfl
  | case6 a b c d code hcode hlow hhigh e f g i tail low hsecond hrange ih =>
    obtain ⟨⟨cs, rest⟩, hread, heq⟩ := Option.map_eq_some_iff.mp h
    cases heq
    simp only [List.cons_append, string, hcode, if_neg hlow, if_pos hhigh, hsecond, if_pos hrange,
      ih hread, Option.map_some]
  | case9 a b c d tail code hcode hlow hhigh ih =>
    obtain ⟨⟨cs, rest⟩, hread, heq⟩ := Option.map_eq_some_iff.mp h
    cases heq
    simp only [List.cons_append, string, hcode, if_neg hlow, if_neg hhigh, ih hread,
      Option.map_some]
  | case11 e tail hshort c hc ih =>
    obtain ⟨⟨cs, rest⟩, hread, heq⟩ := Option.map_eq_some_iff.mp h
    cases heq
    have hne : e ≠ 'u' := by
      rintro rfl
      cases hc
    rw [List.cons_append, List.cons_append, string]
    · simp only [hc, ih hread, Option.map_some]
    · intro _ _ _ _ _ he
      exact absurd he hne
  | case13 c tail hquote _ _ hplain ih =>
    obtain ⟨⟨cs, rest⟩, hread, heq⟩ := Option.map_eq_some_iff.mp h
    cases heq
    have hslash : c ≠ '\\' := fun he ↦ hplain (.inr he)
    rw [List.cons_append, string]
    · rw [if_neg hplain, ih hread, Option.map_some]
    · exact hquote
    · intro _ _ _ _ _ he
      exact absurd he hslash
    · intro _ _ he
      exact absurd he hslash
  | _ => cases h

private theorem expect_append {literal text rest : List Char} {v w : Json}
    (h : expect literal v text = some (w, rest)) (more : List Char) :
    expect literal v (text ++ more) = some (w, rest ++ more) := by
  unfold expect at h ⊢
  split at h
  · next hprefix =>
    obtain ⟨tail, rfl⟩ := List.isPrefixOf_iff_prefix.mp hprefix
    cases h
    simp
  · cases h

private theorem digits_append {text : List Char} (h : text.dropWhile Char.isDigit ≠ [])
    (more : List Char) :
    (text ++ more).takeWhile Char.isDigit = text.takeWhile Char.isDigit ∧
      (text ++ more).dropWhile Char.isDigit = text.dropWhile Char.isDigit ++ more := by
  constructor
  · rw [List.takeWhile_append, if_neg]
    intro hlen
    have hsum := congrArg List.length
      (List.takeWhile_append_dropWhile (p := Char.isDigit) (l := text))
    rw [List.length_append, hlen] at hsum
    exact h (List.length_eq_zero_iff.mp (by omega))
  · rw [List.dropWhile_append, if_neg (by simpa using h)]

private theorem decimals_append {text fraction rest : List Char}
    (h : decimals text = some (fraction, rest)) (hrest : rest ≠ []) (more : List Char) :
    decimals (text ++ more) = some (fraction, rest ++ more) := by
  cases text with
  | nil =>
    cases h
    exact absurd rfl hrest
  | cons c text =>
    rw [decimals] at h
    split at h
    · next hpoint =>
      split at h
      · cases h
      · next hdigits =>
        cases h
        obtain ⟨htake, hdrop⟩ := digits_append hrest more
        rw [List.cons_append, decimals, if_pos hpoint, htake, hdrop, if_neg hdigits]
    · next hpoint =>
      cases h
      rw [List.cons_append, decimals, if_neg hpoint]

private theorem sign_append {text : List Char} (h : text ≠ []) (more : List Char) :
    sign (text ++ more) = ((sign text).1, (sign text).2 ++ more) := by
  cases text with
  | nil => exact absurd rfl h
  | cons c text =>
    rw [List.cons_append, sign, sign]
    split
    · rfl
    · split
      · rfl
      · rfl

private theorem power_append {negative : Bool} {text rest : List Char} {size : Int}
    (h : power negative text = some (size, rest)) (hrest : rest ≠ []) (more : List Char) :
    power negative (text ++ more) = some (size, rest ++ more) := by
  unfold power at h ⊢
  simp only at h ⊢
  split at h
  · cases h
  · next hdigits =>
    cases h
    obtain ⟨htake, hdrop⟩ := digits_append hrest more
    simp only [htake, hdrop, if_neg hdigits]

private theorem exponent_append {text rest : List Char} {size : Option Int}
    (h : exponent text = some (size, rest)) (hrest : rest ≠ []) (more : List Char) :
    exponent (text ++ more) = some (size, rest ++ more) := by
  cases text with
  | nil =>
    cases h
    exact absurd rfl hrest
  | cons c text =>
    rw [exponent] at h
    split at h
    · next hletter =>
      obtain ⟨⟨size, rest⟩, hpower, heq⟩ := Option.map_eq_some_iff.mp h
      cases heq
      have hopen : text ≠ [] := by
        rintro rfl
        cases hpower
      rw [List.cons_append, exponent, if_pos hletter, sign_append hopen,
        power_append hpower hrest, Option.map_some]
    · next hletter =>
      cases h
      rw [List.cons_append, exponent, if_neg hletter]

private theorem number_append {negative : Bool} {text rest : List Char} {v : Json}
    (h : number negative text = some (v, rest)) (hrest : rest ≠ []) (more : List Char) :
    number negative (text ++ more) = some (v, rest ++ more) := by
  simp only [number] at h
  split at h
  · cases h
  · next hdigits =>
    split at h
    · cases h
    · next fraction after hfraction =>
      obtain ⟨⟨size, rest⟩, hsize, heq⟩ := Option.map_eq_some_iff.mp h
      cases heq
      have hafter : after ≠ [] := by
        rintro rfl
        cases hsize
        exact hrest rfl
      have hopen : text.dropWhile Char.isDigit ≠ [] := by
        intro hnone
        rw [hnone] at hfraction
        cases hfraction
        exact hafter rfl
      obtain ⟨htake, hdrop⟩ := digits_append hopen more
      simp only [number, htake, hdrop, if_neg hdigits, decimals_append hfraction hafter,
        exponent_append hsize hrest, Option.map_some]

-- What the reader does with a text it still does with more behind the text, unless a number ends
-- there.
private def Extends (fuel : Nat) : Prop :=
  (∀ text v rest, value fuel text = some (v, rest) → v.Closed ∨ rest ≠ [] →
    ∀ more fuel', fuel ≤ fuel' → value fuel' (text ++ more) = some (v, rest ++ more)) ∧
  (∀ text vs rest, items fuel text = some (vs, rest) →
    ∀ more fuel', fuel ≤ fuel' → items fuel' (text ++ more) = some (vs, rest ++ more)) ∧
  ∀ text vs rest, members fuel text = some (vs, rest) →
    ∀ more fuel', fuel ≤ fuel' → members fuel' (text ++ more) = some (vs, rest ++ more)

private theorem not_closed_of_number {negative : Bool} {text rest : List Char} {v : Json}
    (h : number negative text = some (v, rest)) : ¬ v.Closed := by
  simp only [number] at h
  split at h
  · cases h
  · split at h
    · cases h
    · obtain ⟨⟨size, rest⟩, -, heq⟩ := Option.map_eq_some_iff.mp h
      cases heq
      unfold numeral
      split <;> exact id

private theorem items_nil (fuel : Nat) : items fuel [] = none := by
  cases fuel with
  | zero => rfl
  | succ fuel => cases fuel <;> rfl

private theorem members_nil (fuel : Nat) : members fuel [] = none := by
  cases fuel <;> rfl

private theorem extends_value {fuel : Nat} (ih : Extends fuel) {text rest : List Char} {v : Json}
    (h : value (fuel + 1) text = some (v, rest)) (hv : v.Closed ∨ rest ≠ []) (more : List Char)
    {room : Nat} (hroom : fuel ≤ room) :
    value (room + 1) (text ++ more) = some (v, rest ++ more) := by
  rw [value] at h
  split at h
  · next hskip =>
    rw [value, skipSpace_append hskip]
    exact expect_append h more
  · next hskip =>
    rw [value, skipSpace_append hskip]
    exact expect_append h more
  · next hskip =>
    rw [value, skipSpace_append hskip]
    exact expect_append h more
  · next hskip =>
    rw [value, skipSpace_append hskip]
    exact number_append h (hv.resolve_left (not_closed_of_number h)) more
  · next hskip =>
    obtain ⟨⟨cs, rest⟩, hread, heq⟩ := Option.map_eq_some_iff.mp h
    cases heq
    rw [value, skipSpace_append hskip]
    simp only [string_append hread, Option.map_some]
  · next after hskip =>
    rw [value, skipSpace_append hskip]
    split at h
    · next hclose =>
      cases h
      simp only [skipSpace_append hclose]
    · next hopen =>
      obtain ⟨⟨vs, rest⟩, hread, heq⟩ := Option.map_eq_some_iff.mp h
      cases heq
      cases hfirst : skipSpace after with
      | nil =>
        rw [hfirst, items_nil] at hread
        cases hread
      | cons c tail =>
        rw [hfirst] at hread hopen
        have hmore := ih.2.1 _ _ _ hread more room hroom
        rw [List.cons_append] at hmore
        simp only [skipSpace_append hfirst]
        split
        · next hclose =>
          cases hclose
          exact (hopen _ rfl).elim
        · rw [hmore]
          rfl
  · next after hskip =>
    rw [value, skipSpace_append hskip]
    split at h
    · next hclose =>
      cases h
      simp only [skipSpace_append hclose]
    · next hopen =>
      obtain ⟨⟨vs, rest⟩, hread, heq⟩ := Option.map_eq_some_iff.mp h
      cases heq
      cases hfirst : skipSpace after with
      | nil =>
        rw [hfirst, members_nil] at hread
        cases hread
      | cons c tail =>
        rw [hfirst] at hread hopen
        have hmore := ih.2.2 _ _ _ hread more room hroom
        rw [List.cons_append] at hmore
        simp only [skipSpace_append hfirst]
        split
        · next hclose =>
          cases hclose
          exact (hopen _ rfl).elim
        · rw [hmore]
          rfl
  · next c tail _ _ _ _ _ _ _ hskip =>
    split at h
    · next hdigit =>
      have hopen := hv.resolve_left (not_closed_of_number h)
      have hmore := number_append h hopen more
      rw [List.cons_append] at hmore
      rw [← value_skipSpace, skipSpace_append hskip, value_digit room hdigit]
      exact hmore
    · cases h
  · cases h

private theorem extends_items {fuel : Nat} (ih : Extends fuel) {text rest : List Char}
    {vs : List Json} (h : items (fuel + 1) text = some (vs, rest)) (more : List Char) {room : Nat}
    (hroom : fuel ≤ room) : items (room + 1) (text ++ more) = some (vs, rest ++ more) := by
  rw [items] at h
  cases hread : value fuel text with
  | none =>
    rw [hread] at h
    cases h
  | some read =>
    obtain ⟨item, after⟩ := read
    simp only [hread] at h
    have hopen {c : Char} {tail : List Char} (hskip : skipSpace after = c :: tail) :
        after ≠ [] := by
      rintro rfl
      cases hskip
    split at h
    · next tail hcomma =>
      obtain ⟨⟨vs, rest⟩, hlater, heq⟩ := Option.map_eq_some_iff.mp h
      cases heq
      rw [items, ih.1 _ _ _ hread (.inr (hopen hcomma)) more room hroom]
      simp only [skipSpace_append hcomma, ih.2.1 _ _ _ hlater more room hroom, Option.map_some]
    · next tail hclose =>
      cases h
      rw [items, ih.1 _ _ _ hread (.inr (hopen hclose)) more room hroom]
      simp only [skipSpace_append hclose]
    · cases h

private theorem extends_members {fuel : Nat} (ih : Extends fuel) {text rest : List Char}
    {vs : List (String × Json)} (h : members (fuel + 1) text = some (vs, rest)) (more : List Char)
    {room : Nat} (hroom : fuel ≤ room) :
    members (room + 1) (text ++ more) = some (vs, rest ++ more) := by
  rw [members] at h
  split at h
  · next tail hquote =>
    split at h
    · cases h
    · next key afterKey hkey =>
      split at h
      · next afterColon hcolon =>
        split at h
        · cases h
        · next item after hread =>
          have hopen {c : Char} {tail : List Char} (hskip : skipSpace after = c :: tail) :
              after ≠ [] := by
            rintro rfl
            cases hskip
          rw [members, skipSpace_append hquote]
          simp only [string_append hkey, skipSpace_append hcolon]
          split at h
          · next tail hcomma =>
            obtain ⟨⟨vs, rest⟩, hlater, heq⟩ := Option.map_eq_some_iff.mp h
            cases heq
            rw [ih.1 _ _ _ hread (.inr (hopen hcomma)) more room hroom]
            simp only [skipSpace_append hcomma, ih.2.2 _ _ _ hlater more room hroom,
              Option.map_some]
          · next tail hclose =>
            cases h
            rw [ih.1 _ _ _ hread (.inr (hopen hclose)) more room hroom]
            simp only [skipSpace_append hclose]
          · cases h
      · cases h
  · cases h

private theorem extends_all (fuel : Nat) : Extends fuel := by
  induction fuel with
  | zero =>
    refine ⟨?_, ?_, ?_⟩ <;> intro _ _ _ h <;> cases h
  | succ fuel ih =>
    refine ⟨fun text v rest h hv more room hroom ↦ ?_, fun text vs rest h more room hroom ↦ ?_,
      fun text vs rest h more room hroom ↦ ?_⟩
    all_goals obtain ⟨room, rfl⟩ : ∃ n, room = n + 1 := ⟨room - 1, by omega⟩
    · exact extends_value ih h hv more (by omega)
    · exact extends_items ih h more (by omega)
    · exact extends_members ih h more (by omega)

/-- What the reader has taken for a closed value it takes with any text behind it. -/
theorem value_append {fuel room : Nat} {text rest : List Char} {v : Json}
    (h : value fuel text = some (v, rest)) (hv : v.Closed) (more : List Char)
    (hroom : fuel ≤ room) : value room (text ++ more) = some (v, rest ++ more) :=
  (extends_all fuel).1 _ _ _ h (.inl hv) more room hroom

private theorem closed_of_open {fuel : Nat} {c : Char} {tail rest : List Char} {v : Json}
    (hc : c = '{' ∨ c = '[') (h : value fuel (c :: tail) = some (v, rest)) : v.Closed := by
  cases fuel with
  | zero => cases h
  | succ fuel =>
    rw [value] at h
    rcases hc with rfl | rfl
    · have hskip : skipSpace ('{' :: tail) = '{' :: tail := rfl
      simp only [hskip] at h
      split at h
      · cases h
        trivial
      · obtain ⟨read, -, heq⟩ := Option.map_eq_some_iff.mp h
        cases heq
        trivial
    · have hskip : skipSpace ('[' :: tail) = '[' :: tail := rfl
      simp only [hskip] at h
      split at h
      · cases h
        trivial
      · obtain ⟨read, -, heq⟩ := Option.map_eq_some_iff.mp h
        cases heq
        trivial

private theorem parse_beginning {c : Char} {text more : List Char} (hc : c = '{' ∨ c = '[')
    {v : Json} (h : value ((c :: (text ++ more)).length + 1) (c :: (text ++ more)) = some (v, []))
    (hmore : more ≠ []) : parse (c :: text) = none := by
  cases hparse : parse (c :: text) with
  | none => rfl
  | some w =>
    unfold parse at hparse
    split at hparse
    · next w rest hread =>
      have hroom : (c :: text).length + 1 ≤ (c :: (text ++ more)).length + 1 := by simp
      have hagain := value_append hread (closed_of_open hc hread) more hroom
      rw [List.cons_append, h] at hagain
      have hrest := (Prod.mk.inj (Option.some.inj hagain)).2
      exact absurd (List.append_eq_nil_iff.mp hrest.symm).2 hmore
    · cases hparse

private theorem parse_cut {c : Char} {text after more : List Char} (hc : c = '{' ∨ c = '[')
    {v : Json} (hread : value ((c :: text).length + 1) (c :: text) = some (v, []))
    (h : c :: text = after ++ more) (hmore : more ≠ []) : parse after = none := by
  cases after with
  | nil => rfl
  | cons first after =>
    obtain ⟨rfl, rfl⟩ := List.cons.inj h
    exact parse_beginning hc hread hmore

/-- An object or an array. -/
def Enclosed (v : Json) : Prop := (∃ members, v = .obj members) ∨ ∃ items, v = .arr items

/-- The pretty text of an object or an array that was cut off is no text. -/
theorem parse_cut_pretty {v : Json} (hv : v.Enclosed) {text more : List Char}
    (h : pretty v = text ++ more) (hmore : more ≠ []) : parse text = none := by
  obtain ⟨c, tail, hc, htail⟩ : ∃ c tail, (c = '{' ∨ c = '[') ∧ pretty v = c :: tail := by
    rcases hv with ⟨members, rfl⟩ | ⟨items, rfl⟩
    · cases members with
      | nil => exact ⟨_, _, .inl rfl, rfl⟩
      | cons member members => exact ⟨_, _, .inl rfl, rfl⟩
    · cases items with
      | nil => exact ⟨_, _, .inr rfl, rfl⟩
      | cons item items => exact ⟨_, _, .inr rfl, rfl⟩
  have hread := readsAt_prettyAt 0 v ((pretty v).length + 1) [] (Nat.le_succ _) (by simp [Ends])
  rw [List.append_nil] at hread
  change value _ (pretty v) = _ at hread
  rw [htail] at hread h
  exact parse_cut hc hread h hmore

/-- So is the compact text of an array. -/
theorem parse_cut_print {items : List Json} {text more : List Char}
    (h : print (.arr items) = text ++ more) (hmore : more ≠ []) : parse text = none := by
  obtain ⟨tail, htail⟩ : ∃ tail, print (.arr items) = '[' :: tail := by
    cases items with
    | nil => exact ⟨_, rfl⟩
    | cons item items => exact ⟨_, rfl⟩
  have hread := reads_print (.arr items) ((print (.arr items)).length + 1) [] (Nat.le_succ _)
    (by simp [Ends])
  rw [List.append_nil, htail] at hread
  rw [htail] at h
  exact parse_cut (.inr rfl) hread h hmore

end PeerDeploy.Base.Json
