/-!
# Unix path texts

General support: `std::path::PathBuf::join` on Unix, and the place that a path text names.
Joining an absolute path replaces the base, and `..` components are kept in the text; they
are resolved only when the path is used. Symbolic links are not modelled.
-/

namespace PeerDeploy.Base.Path

/-- The path starts at the root. -/
def isAbsolute (path : String) : Bool := path.toList.head? == some '/'

/-- `PathBuf::join`. -/
def join (base path : String) : String :=
  if isAbsolute path then path
  else if base.toList.isEmpty || base.toList.getLast? == some '/' then base ++ path
  else base ++ "/" ++ path

/-- The texts between the separators, empty ones included. -/
def splitSlash : List Char → List (List Char)
  | [] => [[]]
  | '/' :: rest => [] :: splitSlash rest
  | c :: rest =>
    match splitSlash rest with
    | [] => [[c]]
    | first :: others => (c :: first) :: others

/-- Walk the components from the root: `.` and empty ones stay, `..` goes up. -/
def walk : List (List Char) → List String → List String
  | [], place => place.reverse
  | c :: rest, place =>
    if c = [] ∨ c = ['.'] then walk rest place
    else if c = ['.', '.'] then walk rest place.tail
    else walk rest (String.ofList c :: place)

/-- The place that an absolute path text names, as its components from the root. -/
def place (path : String) : List String := walk (splitSlash path.toList) []

/-- The place that a relative path text names, seen from a place. -/
def descend (start : List String) (path : String) : List String :=
  walk (splitSlash path.toList) start.reverse

/-- Where a component leads, both places read backwards. -/
def turn (seen : List String) (c : List Char) : List String :=
  if c = [] ∨ c = ['.'] then seen
  else if c = ['.', '.'] then seen.tail
  else String.ofList c :: seen

/-- The places that a walk comes to, one for each component. -/
def trail : List (List Char) → List String → List (List String)
  | [], _ => []
  | c :: rest, seen => (turn seen c).reverse :: trail rest (turn seen c)

/-- The places that a path text goes through, from the root to its end. -/
def stations (path : String) : List (List String) := [] :: trail (splitSlash path.toList) []

/-- The places that a path text goes through before its end. -/
def approach (path : String) : List (List String) := (stations path).dropLast

/-- The components that `Path::components` keeps. -/
def named (parts : List (List Char)) : List (List Char) :=
  parts.filter fun c ↦ c ≠ [] ∧ c ≠ ['.']

/-- The places that the textual parent goes through. -/
def parentStations (path : String) : List (List String) :=
  [] :: trail (named (splitSlash path.toList)).dropLast []

/-- The last component is a `.`, but for separators after it. -/
def endsInDot (path : String) : Bool :=
  ((splitSlash path.toList).filter fun c ↦ c ≠ []).getLast? == some ['.']

/-- `Path::file_name`. -/
def fileName (path : String) : Option String :=
  match (named (splitSlash path.toList)).getLast? with
  | some c => if c = ['.', '.'] then none else some (String.ofList c)
  | none => none

/-- The places that a name goes through when it is joined to a directory. -/
def route (base name : String) : List (List String) :=
  if isAbsolute name then stations name
  else place base :: trail (splitSlash name.toList) (place base).reverse

/-- The place that a name leads to when it is joined to a directory. -/
def leads (base name : String) : List String :=
  if isAbsolute name then place name else descend (place base) name

/-- The place lies strictly below the other one. -/
def Below (base place : List String) : Prop := base <+: place ∧ base ≠ place

/-- Being below a place is decidable. -/
instance (base place : List String) : Decidable (Below base place) :=
  inferInstanceAs (Decidable (base <+: place ∧ base ≠ place))

/-- The places that a route comes to before its end and that do not lie above the end. -/
def detours (route : List (List String)) (place : List String) : List (List String) :=
  route.dropLast.filter fun st ↦ ¬ Below st place

/-- The text of that place, the same for all paths to one file. -/
def canonical (path : String) : String := "/" ++ String.intercalate "/" (place path)

/-- `Path::components` as texts, but for a leading `.` of a relative path. -/
def components (path : String) : List String :=
  (if isAbsolute path then ["/"] else []) ++
    ((splitSlash path.toList).filter fun c ↦ c ≠ [] ∧ c ≠ ['.']).map String.ofList

/-- `Path::starts_with` for an absolute base: whole components are compared. -/
def startsWith (base path : String) : Bool := (components base).isPrefixOf (components path)

/-- The place of the textual parent, which `Path::parent` names. -/
def parentPlace (path : String) : List String :=
  walk ((splitSlash path.toList).filter fun c ↦ c ≠ [] ∧ c ≠ ['.']).dropLast []

/-! ### Joining a path -/

/-- A name that is neither empty nor special and holds no separator. -/
def Plain (name : String) : Prop :=
  name ≠ "" ∧ name ≠ "." ∧ name ≠ ".." ∧ '/' ∉ name.toList

/-- Plain names are decidable. -/
instance (name : String) : Decidable (Plain name) :=
  inferInstanceAs (Decidable (name ≠ "" ∧ name ≠ "." ∧ name ≠ ".." ∧ '/' ∉ name.toList))

private theorem splitSlash_ne_nil (cs : List Char) : splitSlash cs ≠ [] := by
  unfold splitSlash
  split
  · simp
  · simp
  · split <;> simp

private theorem splitSlash_append (front back : List Char) :
    splitSlash (front ++ '/' :: back) = splitSlash front ++ splitSlash back := by
  induction front with
  | nil => rfl
  | cons c rest ih =>
    by_cases hc : c = '/'
    · subst hc
      simp only [List.cons_append, splitSlash, ih]
    · obtain ⟨first, others, hrest⟩ := List.exists_cons_of_ne_nil (splitSlash_ne_nil rest)
      simp only [List.cons_append, splitSlash, ih, hrest]

private theorem splitSlash_eq_singleton {cs : List Char} (h : '/' ∉ cs) : splitSlash cs = [cs] := by
  induction cs with
  | nil => rfl
  | cons c rest ih =>
    have hc : c ≠ '/' := fun he ↦ h (by simp [he])
    have hrest : '/' ∉ rest := fun hin ↦ h (List.mem_cons_of_mem c hin)
    simp only [splitSlash, ih hrest]

private theorem walk_append (front back : List (List Char)) (seen : List String) :
    walk (front ++ back) seen = walk back (walk front seen).reverse := by
  induction front generalizing seen with
  | nil => simp [walk]
  | cons c rest ih =>
    simp only [List.cons_append, walk]
    split
    · exact ih seen
    · split
      · exact ih seen.tail
      · exact ih (String.ofList c :: seen)

private theorem walk_plain {name : String} (h : Plain name) (seen : List String) :
    walk [name.toList] seen = seen.reverse ++ [name] := by
  obtain ⟨hempty, hdot, hdots, -⟩ := h
  have hne {text : String} (hn : name ≠ text) : name.toList ≠ text.toList := by
    intro he
    exact hn (String.toList_inj.mp he)
  have h0 : name.toList ≠ [] := hne hempty
  have h1 : name.toList ≠ ['.'] := hne hdot
  have h2 : name.toList ≠ ['.', '.'] := hne hdots
  simp [walk, h0, h1, h2]

private theorem walk_named (parts : List (List Char)) (seen : List String) :
    walk (named parts) seen = walk parts seen := by
  unfold named
  induction parts generalizing seen with
  | nil => rfl
  | cons c rest ih =>
    by_cases hskip : c = [] ∨ c = ['.']
    · have hout : ¬ (c ≠ [] ∧ c ≠ ['.']) := fun h ↦ hskip.elim h.1 h.2
      rw [List.filter_cons_of_neg (by simpa using hout), ih]
      simp only [walk, hskip, if_true]
    · have hin : c ≠ [] ∧ c ≠ ['.'] := not_or.mp hskip
      rw [List.filter_cons_of_pos (by simpa using hin)]
      simp only [walk, hskip, if_false, ih]

private theorem splitSlash_join (base : String) {path : String} (h : isAbsolute path = false) :
    ∃ front, named front = named (splitSlash base.toList) ∧
      splitSlash (join base path).toList = front ++ splitSlash path.toList := by
  unfold join
  rw [h, if_neg (by decide)]
  split
  · next hend =>
    rw [String.toList_append]
    rcases Bool.or_eq_true_iff.mp hend with hnil | hlast
    · refine ⟨[], ?_, ?_⟩
      · rw [List.isEmpty_iff.mp hnil]
        rfl
      · rw [List.isEmpty_iff.mp hnil, List.nil_append, List.nil_append]
    · -- the base ends with a separator: its last part is empty
      obtain ⟨front, hfront⟩ := List.getLast?_eq_some_iff.mp (beq_iff_eq.mp hlast)
      refine ⟨splitSlash front, ?_, ?_⟩
      · rw [hfront, splitSlash_append, named, named, List.filter_append]
        simp [splitSlash]
      · rw [hfront, List.append_assoc, List.singleton_append, splitSlash_append]
  · refine ⟨splitSlash base.toList, rfl, ?_⟩
    rw [String.toList_append, String.toList_append, List.append_assoc]
    exact splitSlash_append base.toList path.toList

/-- Joining a relative path walks on from the base. -/
theorem place_join_of_relative (base : String) {path : String} (h : isAbsolute path = false) :
    place (join base path) = descend (place base) path := by
  obtain ⟨front, hfront, hjoin⟩ := splitSlash_join base h
  have hbase : walk front [] = place base := by
    rw [place, ← walk_named front, hfront, walk_named]
  rw [place, hjoin, walk_append, hbase, descend]

/-- Joining an absolute path replaces the base. -/
theorem join_of_absolute (base : String) {path : String} (h : isAbsolute path = true) :
    join base path = path := by
  simp [join, h]

-- The directory text with the separator that a name is put behind.
private def opening (base : String) : String :=
  if base.toList.isEmpty || base.toList.getLast? == some '/' then base else base ++ "/"

private theorem join_eq_opening (base : String) {path : String} (h : isAbsolute path = false) :
    join base path = opening base ++ path := by
  simp only [join, h, Bool.false_eq_true, if_false, opening]
  split <;> rfl

private theorem opening_append (base : String) {path : String} (h : path.toList ≠ []) :
    opening (base ++ path) = base ++ opening path := by
  have hlast : (base ++ path).toList.getLast? = path.toList.getLast? := by
    rw [String.toList_append, List.getLast?_append, List.getLast?_eq_some_getLast h,
      Option.some_or]
  have hempty : (base ++ path).toList.isEmpty = path.toList.isEmpty := by
    rw [String.toList_append, List.isEmpty_eq_false_iff.mpr h, List.isEmpty_eq_false_iff]
    exact List.append_ne_nil_of_right_ne_nil _ h
  simp only [opening, hlast, hempty]
  split
  · rfl
  · exact String.append_assoc

private theorem opening_opening (base : String) : opening (opening base) = opening base := by
  by_cases hend : (base.toList.isEmpty || base.toList.getLast? == some '/') = true
  · have hbase : opening base = base := by rw [opening, if_pos hend]
    rw [hbase, hbase]
  · have hbase : opening base = base ++ "/" := by rw [opening, if_neg hend]
    rw [hbase, opening, if_pos]
    simp

private theorem isAbsolute_join {first : String} (second : String)
    (h : isAbsolute first = true) : isAbsolute (join first second) = true := by
  cases hlist : first.toList with
  | nil => simp [isAbsolute, hlist] at h
  | cons c rest =>
    unfold join
    split
    · next hsecond => exact hsecond
    · split <;> simpa [isAbsolute, hlist] using h

private theorem isAbsolute_opening {first second : String} (hfirst : isAbsolute first = false)
    (hsecond : isAbsolute second = false) : isAbsolute (opening first ++ second) = false := by
  cases hlist : first.toList with
  | nil => simpa [opening, hlist, isAbsolute] using hsecond
  | cons c rest =>
    have hc : c ≠ '/' := by simpa [isAbsolute, hlist] using hfirst
    unfold opening
    split <;> simp [isAbsolute, hlist, hc]

/-- Names are joined one after the other or all at once. -/
theorem join_join (base first second : String) :
    join (join base first) second = join base (join first second) := by
  cases hsecond : isAbsolute second with
  | true => rw [join_of_absolute _ hsecond, join_of_absolute _ hsecond, join_of_absolute _ hsecond]
  | false =>
    cases hfirst : isAbsolute first with
    | true => rw [join_of_absolute _ hfirst, join_of_absolute _ (isAbsolute_join second hfirst)]
    | false =>
      have hboth := isAbsolute_opening hfirst hsecond
      rw [join_eq_opening _ hsecond, join_eq_opening _ hfirst, join_eq_opening _ hsecond,
        join_eq_opening _ hboth]
      by_cases hempty : first.toList = []
      · obtain rfl : first = "" := String.toList_inj.mp hempty
        rw [String.append_empty, opening_opening]
        rfl
      · rw [opening_append _ hempty, String.append_assoc]

private theorem isAbsolute_of_plain {name : String} (h : Plain name) : isAbsolute name = false := by
  have hslash := h.2.2.2
  cases hn : name.toList with
  | nil => simp [isAbsolute, hn]
  | cons c rest =>
    have hc : c ≠ '/' := fun he ↦ hslash (by simp [hn, he])
    simp [isAbsolute, hn, hc]

/-- Joining a plain name goes one step down. -/
theorem place_join (base : String) {name : String} (h : Plain name) :
    place (join base name) = place base ++ [name] := by
  rw [place_join_of_relative base (isAbsolute_of_plain h), descend,
    splitSlash_eq_singleton h.2.2.2, walk_plain h, List.reverse_reverse]

/-- The parent of a joined plain name is the base. -/
theorem parentPlace_join (base : String) {name : String} (h : Plain name) :
    parentPlace (join base name) = place base := by
  obtain ⟨front, hfront, hjoin⟩ := splitSlash_join base (isAbsolute_of_plain h)
  have hname : named [name.toList] = [name.toList] := by
    have hempty : name.toList ≠ [] := fun he ↦ h.1 (String.toList_inj.mp he)
    have hdot : name.toList ≠ ['.'] := fun he ↦ h.2.1 (String.toList_inj.mp he)
    simp [named, hempty, hdot]
  have hparts : named (front ++ [name.toList]) = named front ++ [name.toList] := by
    rw [named, List.filter_append, ← named, ← named, hname]
  rw [parentPlace, hjoin, splitSlash_eq_singleton h.2.2.2]
  change walk (named (front ++ [name.toList])).dropLast [] = _
  rw [hparts, List.dropLast_concat, hfront, walk_named, place]

/-! ### The places on the way -/

private theorem walk_cons (c : List Char) (rest : List (List Char)) (seen : List String) :
    walk (c :: rest) seen = walk rest (turn seen c) := by
  simp only [walk, turn]
  split
  · rfl
  · split <;> rfl

/-- A walk in two parts. -/
theorem trail_append (front back : List (List Char)) (seen : List String) :
    trail (front ++ back) seen = trail front seen ++ trail back (walk front seen).reverse := by
  induction front generalizing seen with
  | nil => simp [trail, walk]
  | cons c rest ih => rw [List.cons_append, trail, trail, ih, walk_cons, List.cons_append]

private theorem getLast?_trail {parts : List (List Char)} (h : parts ≠ []) (seen : List String) :
    (trail parts seen).getLast? = some (walk parts seen) := by
  induction parts generalizing seen with
  | nil => exact absurd rfl h
  | cons c rest ih =>
    rw [trail, walk_cons]
    cases rest with
    | nil => simp [trail, walk]
    | cons d rest =>
      rw [List.getLast?_cons_of_ne_nil (by simp [trail])]
      exact ih (by simp) (turn seen c)

private theorem mem_trail_named (parts : List (List Char)) (seen : List String)
    (st : List String) : st = seen.reverse ∨ st ∈ trail (named parts) seen ↔
      st = seen.reverse ∨ st ∈ trail parts seen := by
  induction parts generalizing seen with
  | nil => exact Iff.rfl
  | cons c rest ih =>
    by_cases hskip : c = [] ∨ c = ['.']
    · have hout : ¬ (c ≠ [] ∧ c ≠ ['.']) := fun h ↦ hskip.elim h.1 h.2
      have hturn : turn seen c = seen := by rw [turn, if_pos hskip]
      rw [named, List.filter_cons_of_neg (by simpa using hout), ← named, ih, trail, hturn,
        List.mem_cons, or_self_left]
    · have hin : c ≠ [] ∧ c ≠ ['.'] := not_or.mp hskip
      rw [named, List.filter_cons_of_pos (by simpa using hin), ← named, trail, trail,
        List.mem_cons, List.mem_cons, ih]

/-- A path text ends at the last place that it goes through. -/
theorem place_mem_stations (path : String) : place path ∈ stations path := by
  apply List.mem_cons_of_mem
  exact List.mem_of_getLast? (getLast?_trail (splitSlash_ne_nil _) [])

/-- A path text goes through the places before its end, and its end. -/
theorem mem_stations (path : String) (st : List String) :
    st ∈ stations path ↔ st ∈ approach path ∨ st = place path := by
  have hlast : (stations path).getLast? = some (place path) := by
    rw [stations, List.getLast?_cons_of_ne_nil]
    · exact getLast?_trail (splitSlash_ne_nil _) []
    · intro hnil
      have hend := getLast?_trail (splitSlash_ne_nil path.toList) []
      rw [hnil] at hend
      cases hend
  obtain ⟨front, hfront⟩ := List.getLast?_eq_some_iff.mp hlast
  rw [approach, hfront, List.dropLast_concat, List.mem_append, List.mem_singleton]

private theorem front_of_join (base : String) {path : String} (h : isAbsolute path = false) :
    ∃ front, walk front [] = place base ∧ (∀ st, st ∈ [] :: trail front [] ↔ st ∈ stations base) ∧
      splitSlash (join base path).toList = front ++ splitSlash path.toList := by
  obtain ⟨front, hfront, hjoin⟩ := splitSlash_join base h
  refine ⟨front, ?_, ?_, hjoin⟩
  · rw [place, ← walk_named front, hfront, walk_named]
  · intro st
    have hnamed (parts : List (List Char)) :
        st ∈ [] :: trail parts [] ↔ st ∈ [] :: trail (named parts) [] := by
      rw [List.mem_cons, List.mem_cons]
      exact (mem_trail_named parts [] st).symm
    rw [stations, hnamed front, hfront, ← hnamed]

/-- Joining a relative path goes through the base and on from there. -/
theorem mem_stations_join (base : String) {path : String} (h : isAbsolute path = false)
    (st : List String) : st ∈ stations (join base path) ↔
      st ∈ stations base ∨ st ∈ trail (splitSlash path.toList) (place base).reverse := by
  obtain ⟨front, hwalk, hmem, hjoin⟩ := front_of_join base h
  rw [stations, hjoin, trail_append, hwalk, ← List.cons_append, List.mem_append, hmem]

/-- Joining a name goes through its route, and for a relative name through the base. -/
theorem mem_stations_join_iff (base name : String) (st : List String) :
    st ∈ stations (join base name) ↔
      st ∈ route base name ∨ isAbsolute name = false ∧ st ∈ stations base := by
  unfold route
  cases h : isAbsolute name with
  | true => simp [join_of_absolute base h]
  | false =>
    rw [mem_stations_join base h]
    simp only [Bool.false_eq_true, if_false, List.mem_cons, true_and]
    constructor
    · rintro (hbase | hon)
      · exact .inr hbase
      · exact .inl (.inr hon)
    · rintro ((rfl | hon) | hbase)
      · exact .inl (place_mem_stations base)
      · exact .inr hon
      · exact .inl hbase

/-- Before its end, a joined name goes through its route, and a relative one through the base. -/
theorem mem_approach_join_iff (base name : String) (st : List String) :
    st ∈ approach (join base name) ↔
      st ∈ (route base name).dropLast ∨ isAbsolute name = false ∧ st ∈ stations base := by
  unfold route
  cases h : isAbsolute name with
  | true => simp [join_of_absolute base h, approach]
  | false =>
    obtain ⟨front, hwalk, hmem, hjoin⟩ := front_of_join base h
    have hne : trail (splitSlash name.toList) (place base).reverse ≠ [] := by
      cases hparts : splitSlash name.toList with
      | nil => exact absurd hparts (splitSlash_ne_nil _)
      | cons c rest => simp [trail]
    rw [approach, stations, hjoin, trail_append, hwalk, ← List.cons_append,
      List.dropLast_append_of_ne_nil hne, List.mem_append, hmem]
    simp only [Bool.false_eq_true, if_false, List.dropLast_cons_of_ne_nil hne, List.mem_cons,
      true_and]
    constructor
    · rintro (hbase | hon)
      · exact .inr hbase
      · exact .inl (.inr hon)
    · rintro ((rfl | hon) | hbase)
      · exact .inl (place_mem_stations base)
      · exact .inr hon
      · exact .inl hbase

/-- A joined name ends where it leads. -/
theorem place_join_eq (base name : String) : place (join base name) = leads base name := by
  unfold leads
  cases h : isAbsolute name with
  | true => simp [join_of_absolute base h]
  | false => simpa using place_join_of_relative base h

private theorem trail_plain {name : String} (h : Plain name) (seen : List String) :
    trail [name.toList] seen = [seen.reverse ++ [name]] := by
  have hlast : (trail [name.toList] seen).getLast? = some (walk [name.toList] seen) :=
    getLast?_trail (by simp) seen
  rw [walk_plain h] at hlast
  simpa [trail] using hlast

/-- Joining a plain name goes through the base to the place below it. -/
theorem mem_stations_join_plain (base : String) {name : String} (h : Plain name)
    (st : List String) :
    st ∈ stations (join base name) ↔ st ∈ stations base ∨ st = place base ++ [name] := by
  rw [mem_stations_join base (isAbsolute_of_plain h), splitSlash_eq_singleton h.2.2.2,
    trail_plain h, List.reverse_reverse, List.mem_singleton]

/-- A plain name is joined right below the base. -/
theorem mem_approach_join_plain (base : String) {name : String} (h : Plain name)
    (st : List String) : st ∈ approach (join base name) ↔ st ∈ stations base := by
  obtain ⟨front, hwalk, hmem, hjoin⟩ := front_of_join base (isAbsolute_of_plain h)
  rw [approach, stations, hjoin, splitSlash_eq_singleton h.2.2.2, trail_append, trail_plain h,
    ← List.cons_append, List.dropLast_concat]
  exact hmem st

private theorem mem_trail_dropLast {parts : List (List Char)} {seen st : List String}
    (h : st ∈ trail parts.dropLast seen) : st ∈ trail parts seen := by
  cases hnil : parts with
  | nil => simpa [hnil] using h
  | cons c rest =>
    have hsplit : parts.dropLast ++ [parts.getLast (by simp [hnil])] = parts :=
      List.dropLast_concat_getLast _
    rw [← hnil, ← hsplit, trail_append]
    exact List.mem_append_left _ h

/-- The textual parent goes through no other places. -/
theorem mem_stations_of_mem_parentStations {path : String} {st : List String}
    (h : st ∈ parentStations path) : st ∈ stations path := by
  have hmem : st = [] ∨ st ∈ trail (named (splitSlash path.toList)) [] := by
    rcases List.mem_cons.mp h with rfl | hon
    · exact .inl rfl
    · exact .inr (mem_trail_dropLast hon)
  rw [stations, List.mem_cons]
  exact (mem_trail_named _ [] st).mp hmem

/-! ### Relative paths of plain names -/

/-- The text names these components one below the other. -/
structure Names (text : String) (names : List String) : Prop where
  parts : splitSlash text.toList = names.map String.toList
  plain : ∀ name ∈ names, Plain name
  ne_nil : names ≠ []

private theorem notMem_of_mem_splitSlash {cs c : List Char} (h : c ∈ splitSlash cs) :
    '/' ∉ c := by
  induction cs generalizing c with
  | nil => simp_all [splitSlash]
  | cons d rest ih =>
    by_cases hd : d = '/'
    · subst hd
      rw [splitSlash, List.mem_cons] at h
      rcases h with rfl | h
      · simp
      · exact ih h
    · obtain ⟨first, others, hrest⟩ := List.exists_cons_of_ne_nil (splitSlash_ne_nil rest)
      simp only [splitSlash, hrest, List.mem_cons] at h ih
      rcases h with rfl | h
      · intro hin
        rcases List.mem_cons.mp hin with heq | hin
        · exact hd heq.symm
        · exact ih (.inl rfl) hin
      · exact ih (.inr h)

/-- The file name of a path is plain. -/
theorem plain_fileName {path name : String} (h : fileName path = some name) : Plain name := by
  unfold fileName at h
  split at h
  · next c hc =>
    obtain ⟨hin, hnamed⟩ := List.mem_filter.mp (List.mem_of_getLast? hc)
    obtain ⟨hempty, hdot⟩ : c ≠ [] ∧ c ≠ ['.'] := by simpa using hnamed
    split at h
    · cases h
    · next hdots =>
      cases h
      have hne {text : String} (hc : c ≠ text.toList) : String.ofList c ≠ text := by
        intro he
        exact hc (by rw [← he, String.toList_ofList])
      refine ⟨hne hempty, hne hdot, hne hdots, ?_⟩
      rw [String.toList_ofList]
      exact notMem_of_mem_splitSlash hin
  · cases h

/-- A plain name stands for itself. -/
theorem names_plain {name : String} (h : Plain name) : Names name [name] where
  parts := splitSlash_eq_singleton h.2.2.2
  plain := by simpa using h
  ne_nil := by simp

private theorem getLast?_splitSlash_concat (front : List Char) :
    (splitSlash (front ++ ['/'])).getLast? = some [] := by
  rw [splitSlash_append]
  simp [splitSlash]

/-- Such a text neither is empty nor ends with a separator. -/
theorem Names.ends {text : String} {names : List String} (h : Names text names) :
    text.toList ≠ [] ∧ text.toList.getLast? ≠ some '/' := by
  have hlast (c : List Char) (hc : (splitSlash text.toList).getLast? = some c) : c ≠ [] := by
    rw [h.parts, List.getLast?_map] at hc
    obtain ⟨name, hname, rfl⟩ := Option.map_eq_some_iff.mp hc
    intro hnil
    exact (h.plain name (List.mem_of_getLast? hname)).1 (String.toList_inj.mp hnil)
  constructor
  · intro hnil
    exact hlast [] (by rw [hnil]; rfl) rfl
  · intro hslash
    obtain ⟨front, hfront⟩ := List.getLast?_eq_some_iff.mp hslash
    exact hlast [] (by rw [hfront]; exact getLast?_splitSlash_concat front) rfl

/-- A plain name that is joined comes last. -/
theorem names_join {text name : String} {names : List String} (h : Names text names)
    (hname : Plain name) : Names (join text name) (names ++ [name]) where
  parts := by
    obtain ⟨hne, hslash⟩ := h.ends
    have hempty : text.toList.isEmpty = false := by simpa using hne
    have hlast : (text.toList.getLast? == some '/') = false := by simpa using hslash
    have hjoin : join text name = text ++ "/" ++ name := by
      simp only [join, isAbsolute_of_plain hname, hempty, hlast, Bool.or_self, Bool.false_eq_true,
        if_false]
    have htext : (text ++ "/" ++ name).toList = text.toList ++ '/' :: name.toList := by
      rw [String.toList_append, String.toList_append, List.append_assoc]
      rfl
    rw [hjoin, htext, splitSlash_append, h.parts, splitSlash_eq_singleton hname.2.2.2,
      List.map_append, List.map_singleton]
  plain := by
    intro other hin
    rcases List.mem_append.mp hin with hold | hnew
    · exact h.plain other hold
    · rw [List.mem_singleton.mp hnew]
      exact hname
  ne_nil := by simp

private theorem Names.isAbsolute {text : String} {names : List String} (h : Names text names) :
    isAbsolute text = false := by
  cases htext : text.toList with
  | nil => simp [Path.isAbsolute, htext]
  | cons c rest =>
    have hc : c ≠ '/' := by
      rintro rfl
      have hparts := h.parts
      rw [htext, splitSlash] at hparts
      cases hn : names with
      | nil => exact h.ne_nil hn
      | cons name others =>
        rw [hn, List.map_cons, List.cons.injEq] at hparts
        exact (h.plain name (by simp [hn])).1 (String.toList_inj.mp hparts.1.symm)
    simp [Path.isAbsolute, htext, hc]

private theorem turn_plain {name : String} (h : Plain name) (seen : List String) :
    turn seen name.toList = name :: seen := by
  have htrail := trail_plain h seen
  simp only [trail, List.cons.injEq, and_true] at htrail
  simpa using congrArg List.reverse htrail

private theorem walk_names {names : List String} (h : ∀ name ∈ names, Plain name)
    (seen : List String) : walk (names.map String.toList) seen = seen.reverse ++ names := by
  induction names generalizing seen with
  | nil => simp [walk]
  | cons name rest ih =>
    rw [List.map_cons, walk_cons, turn_plain (h name List.mem_cons_self),
      ih fun n hn ↦ h n (List.mem_cons_of_mem name hn)]
    simp

private theorem mem_trail_names {names : List String} (h : ∀ name ∈ names, Plain name)
    (seen st : List String) : st ∈ trail (names.map String.toList) seen ↔
      ∃ front, front ≠ [] ∧ front <+: names ∧ st = seen.reverse ++ front := by
  induction names generalizing seen with
  | nil =>
    constructor
    · intro hin
      cases hin
    · rintro ⟨front, hne, hpre, -⟩
      exact absurd (List.prefix_nil.mp hpre) hne
  | cons name rest ih =>
    rw [List.map_cons, trail, turn_plain (h name List.mem_cons_self), List.mem_cons,
      ih fun n hn ↦ h n (List.mem_cons_of_mem name hn)]
    constructor
    · rintro (rfl | ⟨front, -, hpre, rfl⟩)
      · exact ⟨[name], by simp, by simp, by simp⟩
      · exact ⟨name :: front, by simp, by simpa using hpre, by simp⟩
    · rintro ⟨front, hne, hpre, rfl⟩
      obtain ⟨first, others, rfl⟩ := List.exists_cons_of_ne_nil hne
      obtain ⟨rfl, hothers⟩ := List.cons_prefix_cons.mp hpre
      by_cases hnil : others = []
      · exact .inl (by simp [hnil])
      · exact .inr ⟨others, hnil, hothers, by simp⟩

/-- Below a base, the path goes through the base and the leading names. -/
theorem mem_stations_join_names (base : String) {text : String} {names : List String}
    (h : Names text names) (st : List String) : st ∈ stations (join base text) ↔
      st ∈ stations base ∨ ∃ front, front ≠ [] ∧ front <+: names ∧ st = place base ++ front := by
  rw [mem_stations_join base h.isAbsolute, h.parts, mem_trail_names h.plain, List.reverse_reverse]

/-- Below a base, the path ends at the names. -/
theorem place_join_names (base : String) {text : String} {names : List String}
    (h : Names text names) : place (join base text) = place base ++ names := by
  rw [place_join_of_relative base h.isAbsolute, descend, h.parts, walk_names h.plain,
    List.reverse_reverse]

private theorem concat_of_names {text : String} {names : List String} (h : Names text names) :
    ∃ front last, names = front ++ [last] ∧ Plain last ∧ (∀ name ∈ front, Plain name) ∧
      splitSlash text.toList = front.map String.toList ++ [last.toList] := by
  obtain ⟨front, last, hsplit⟩ := List.eq_nil_or_concat names |>.resolve_left h.ne_nil
  rw [List.concat_eq_append] at hsplit
  refine ⟨front, last, hsplit, h.plain last (by simp [hsplit]),
    fun n hn ↦ h.plain n (by simp [hsplit, hn]), ?_⟩
  rw [h.parts, hsplit, List.map_append, List.map_singleton]

private theorem proper_prefix_concat {α : Type} {ini front : List α} {last : α} :
    ini <+: front ↔ ini <+: front ++ [last] ∧ ini ≠ front ++ [last] := by
  constructor
  · intro h
    refine ⟨h.trans (List.prefix_append _ _), ?_⟩
    rintro rfl
    have hlen := h.length_le
    rw [List.length_append, List.length_singleton] at hlen
    omega
  · rintro ⟨hpre, hne⟩
    exact (List.prefix_concat_iff.mp hpre).resolve_left hne

/-- The way to names one below the other makes no detour. -/
theorem detours_names (base : String) {text : String} {names : List String}
    (h : Names text names) : detours (route base text) (leads base text) = [] := by
  rw [detours, List.filter_eq_nil_iff]
  intro st hst
  obtain ⟨init, last, rfl, hlast, hinit, hparts⟩ := concat_of_names h
  have hend : leads base text = place base ++ (init ++ [last]) := by
    rw [← place_join_eq, place_join_names base h]
  have hroute : (route base text).dropLast =
      place base :: trail (init.map String.toList) (place base).reverse := by
    rw [route, h.isAbsolute, if_neg Bool.false_ne_true, hparts, trail_append, trail_plain hlast,
      ← List.cons_append, List.dropLast_concat]
  have hfront : ∃ front, front <+: init ∧ st = place base ++ front := by
    rw [hroute, List.mem_cons, mem_trail_names hinit, List.reverse_reverse] at hst
    rcases hst with rfl | ⟨front, -, hpre, rfl⟩
    · exact ⟨[], List.nil_prefix, by simp⟩
    · exact ⟨front, hpre, rfl⟩
  obtain ⟨front, hpre, rfl⟩ := hfront
  obtain ⟨hon, hne⟩ := proper_prefix_concat.mp hpre
  have habove : Below (place base ++ front) (leads base text) := by
    rw [hend]
    exact ⟨(List.prefix_append_right_inj _).mpr hon, fun heq ↦ hne (List.append_cancel_left heq)⟩
  simpa using habove

/-- A text names one list of components. -/
theorem names_unique {text : String} {names others : List String} (h : Names text names)
    (h' : Names text others) : names = others := by
  have hparts := h.parts.symm.trans h'.parts
  exact (List.map_inj_right fun _ _ he ↦ String.toList_inj.mp he).mp hparts

private theorem splitSlash_slash {text : String} {names : List String} (h : Names text names) :
    splitSlash (text ++ "/").toList = names.map String.toList ++ [[]] := by
  rw [String.toList_append, ← h.parts]
  exact splitSlash_append text.toList []

private theorem isAbsolute_slash {text : String} {names : List String} (h : Names text names) :
    Path.isAbsolute (text ++ "/") = false := by
  have hrel := h.isAbsolute
  rw [Path.isAbsolute, String.toList_append]
  cases htext : text.toList with
  | nil => exact absurd htext h.ends.1
  | cons c rest =>
    rw [Path.isAbsolute, htext] at hrel
    simpa using hrel

/-- A final separator adds no place. -/
theorem mem_stations_join_slash (base : String) {text : String} {names : List String}
    (h : Names text names) (st : List String) :
    st ∈ stations (join base (text ++ "/")) ↔ st ∈ stations (join base text) := by
  rw [mem_stations_join base (isAbsolute_slash h), mem_stations_join base h.isAbsolute,
    splitSlash_slash h, h.parts, trail_append, List.mem_append]
  have hend : walk (names.map String.toList) (place base).reverse ∈
      trail (names.map String.toList) (place base).reverse :=
    List.mem_of_getLast? (getLast?_trail (by simpa using h.ne_nil) _)
  simp only [trail, turn, List.mem_singleton, true_or, if_true, List.reverse_reverse]
  constructor
  · rintro (hbase | hon | rfl)
    · exact .inl hbase
    · exact .inr hon
    · exact .inr hend
  · rintro (hbase | hon)
    · exact .inl hbase
    · exact .inr (.inl hon)

/-- A final separator does not move the end. -/
theorem place_join_slash (base : String) {text : String} {names : List String}
    (h : Names text names) : place (join base (text ++ "/")) = place base ++ names := by
  rw [place_join_of_relative base (isAbsolute_slash h), descend, splitSlash_slash h, walk_append,
    walk_names h.plain, List.reverse_reverse]
  simp [walk]

private theorem endsInDot_of_parts {path : String} {front : List (List Char)}
    {last : String} {tail : List (List Char)} (hlast : Plain last) (htail : ∀ c ∈ tail, c = [])
    (h : splitSlash path.toList = front ++ [last.toList] ++ tail) : endsInDot path = false := by
  have h0 : last.toList ≠ [] := fun he ↦ hlast.1 (String.toList_inj.mp he)
  have h1 : last.toList ≠ ['.'] := fun he ↦ hlast.2.1 (String.toList_inj.mp he)
  have hnil : tail.filter (fun c ↦ c ≠ []) = [] := by
    rw [List.filter_eq_nil_iff]
    intro c hc
    simp [htail c hc]
  rw [endsInDot, h, List.filter_append, List.filter_append, hnil, List.append_nil]
  simp [h0, h1]

/-- A path of names does not end with a `.`. -/
theorem endsInDot_join_names (base : String) {text : String} {names : List String}
    (h : Names text names) :
    endsInDot (join base text) = false ∧ endsInDot (join base (text ++ "/")) = false := by
  obtain ⟨init, last, rfl, hlast, -, hparts⟩ := concat_of_names h
  constructor
  · obtain ⟨front, -, -, hjoin⟩ := front_of_join base h.isAbsolute
    have hall : splitSlash (join base text).toList =
        (front ++ init.map String.toList) ++ [last.toList] ++ [] := by
      rw [hjoin, hparts, List.append_nil, List.append_assoc]
    exact endsInDot_of_parts hlast (by simp) hall
  · obtain ⟨front, -, -, hjoin⟩ := front_of_join base (isAbsolute_slash h)
    have hall : splitSlash (join base (text ++ "/")).toList =
        (front ++ init.map String.toList) ++ [last.toList] ++ [[]] := by
      rw [hjoin, splitSlash_slash h, List.map_append, List.map_singleton]
      simp only [List.append_assoc]
    exact endsInDot_of_parts hlast (by simp) hall

/-! ### The end of a path text -/

/-- A joined path ends with the path that was joined. -/
theorem suffix_join (base path : String) : path.toList <:+ (join base path).toList := by
  unfold join
  split
  · exact List.suffix_refl _
  · split
    · rw [String.toList_append]
      exact List.suffix_append _ _
    · rw [String.toList_append]
      exact List.suffix_append _ _

/-- A joined path ends with the last character of the name. -/
theorem getLast?_join (base : String) {name : String} {c : Char}
    (hlast : name.toList.getLast? = some c) : (join base name).toList.getLast? = some c := by
  obtain ⟨front, hfront⟩ := suffix_join base name
  rw [← hfront, List.getLast?_append, hlast, Option.some_or]

/-- A relative name comes behind a separator, unless the base ends with one. -/
theorem join_of_relative {base name : String} {c : Char} (hbase : base.toList.getLast? = some c)
    (hc : c ≠ '/') (hname : isAbsolute name = false) : join base name = base ++ "/" ++ name := by
  have hne : base.toList.isEmpty = false := by
    cases hlist : base.toList with
    | nil =>
      rw [hlist] at hbase
      cases hbase
    | cons a rest => rfl
  rw [join, hname, if_neg Bool.false_ne_true, hne, hbase]
  simp [hc]

private theorem splitSlash_append_plain (front : List Char) {tail : List Char}
    (h : '/' ∉ tail) : ∃ parts last, splitSlash (front ++ tail) = parts ++ [last ++ tail] := by
  induction front with
  | nil => exact ⟨[], [], splitSlash_eq_singleton h⟩
  | cons c rest ih =>
    obtain ⟨parts, last, hrest⟩ := ih
    by_cases hc : c = '/'
    · subst hc
      exact ⟨[] :: parts, last, by rw [List.cons_append, splitSlash, hrest, List.cons_append]⟩
    · cases parts with
      | nil =>
        exact ⟨[], c :: last, by simp only [List.cons_append, splitSlash, hrest, List.nil_append]⟩
      | cons first others =>
        exact ⟨(c :: first) :: others, last,
          by simp only [List.cons_append, splitSlash, hrest]⟩

/-- What a path text ends with inside its last component, its canonical text ends with too. -/
theorem suffix_canonical {path : String} {tail : List Char} (hpath : tail <:+ path.toList)
    (hslash : '/' ∉ tail) (hlen : 2 < tail.length) : tail <:+ (canonical path).toList := by
  obtain ⟨front, hfront⟩ := hpath
  obtain ⟨parts, last, hparts⟩ := splitSlash_append_plain front hslash
  -- the last component is longer than `..`, so the walk keeps it
  have hlong : 2 < (last ++ tail).length := by
    rw [List.length_append]
    omega
  have h0 : last ++ tail ≠ [] := fun he ↦ by simp [he] at hlong
  have h1 : last ++ tail ≠ ['.'] := fun he ↦ by simp [he] at hlong
  have h2 : last ++ tail ≠ ['.', '.'] := fun he ↦ by simp [he] at hlong
  have hplace : place path = walk parts [] ++ [String.ofList (last ++ tail)] := by
    rw [place, ← hfront, hparts, walk_append]
    simp [walk, h0, h1, h2]
  have hend : tail <:+ (String.ofList (last ++ tail)).toList := by
    rw [String.toList_ofList]
    exact List.suffix_append _ _
  rw [canonical, hplace, String.toList_append]
  apply List.IsSuffix.trans _ (List.suffix_append _ _)
  by_cases hnil : walk parts [] = []
  · rw [hnil, List.nil_append, String.intercalate_singleton]
    exact hend
  · rw [String.intercalate_append_of_ne_nil hnil (by simp), String.intercalate_singleton,
      String.toList_append]
    exact hend.trans (List.suffix_append _ _)

end PeerDeploy.Base.Path
