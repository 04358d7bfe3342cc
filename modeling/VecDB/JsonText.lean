import Mathlib

/-!
# JSON texts

Values are written without blanks, and their strings without escapes.  A word
is read to its end before it is judged, so that a text is read back exactly
when its numbers are numerals of the grammar.
-/

inductive Json where
  | null
  | bool (b : Bool)
  | num (word : List Char)
  | str (chars : List Char)
  | arr (items : List Json)
  | obj (fields : List (List Char × Json))

namespace Json

/-! ## Words -/

def isWordChar (c : Char) : Bool :=
  c.isAlphanum || c = '+' || c = '-' || c = '.'

def afterDigits (p : List Char) : Option (List Char) :=
  if p.takeWhile Char.isDigit = [] then none
  else some (p.dropWhile Char.isDigit)

/-- A leading zero stands alone. -/
def afterInt : List Char → Option (List Char)
  | '0' :: p => some p
  | p => afterDigits p

def afterFrac : List Char → Option (List Char)
  | '.' :: p => afterDigits p
  | p => some p

def afterSign : List Char → List Char
  | '+' :: p => p
  | '-' :: p => p
  | p => p

def afterExp : List Char → Option (List Char)
  | 'e' :: p => afterDigits (afterSign p)
  | 'E' :: p => afterDigits (afterSign p)
  | p => some p

def afterMinus : List Char → List Char
  | '-' :: p => p
  | p => p

/-- A numeral of the grammar. -/
def IsNumeral (word : List Char) : Prop :=
  (do afterExp (← afterFrac (← afterInt (afterMinus word)))) = some []

instance (word : List Char) : Decidable (IsNumeral word) :=
  inferInstanceAs (Decidable (_ = _))

def readWord (word : List Char) : Option Json :=
  if word = "null".toList then some .null
  else if word = "true".toList then some (.bool true)
  else if word = "false".toList then some (.bool false)
  else if IsNumeral word then some (.num word)
  else none

/-- A character that stands for itself in a string. -/
def isPlain (c : Char) : Bool := c ≠ '"' && c ≠ '\\' && 32 ≤ c.toNat

def readString (p : List Char) : Option (List Char × List Char) :=
  match p.dropWhile isPlain with
  | '"' :: rest => some (p.takeWhile isPlain, rest)
  | _ => none

/-! ## Values -/

mutual

/-- The fuel bounds the nesting and the number of items. -/
def readValue : ℕ → List Char → Option (Json × List Char)
  | 0, _ => none
  | _ + 1, '"' :: p => do
      let (chars, p) ← readString p
      return (.str chars, p)
  | _ + 1, '[' :: ']' :: p => some (.arr [], p)
  | fuel + 1, '[' :: p => do
      let (items, p) ← readItems fuel p
      return (.arr items, p)
  | _ + 1, '{' :: '}' :: p => some (.obj [], p)
  | fuel + 1, '{' :: p => do
      let (fields, p) ← readFields fuel p
      return (.obj fields, p)
  | _ + 1, p => do
      let value ← readWord (p.takeWhile isWordChar)
      return (value, p.dropWhile isWordChar)

def readItems : ℕ → List Char → Option (List Json × List Char)
  | 0, _ => none
  | fuel + 1, p => do
      let (item, p) ← readValue fuel p
      match p with
      | ',' :: p => do
          let (items, p) ← readItems fuel p
          return (item :: items, p)
      | ']' :: p => return ([item], p)
      | _ => none

def readFields : ℕ → List Char →
    Option (List (List Char × Json) × List Char)
  | 0, _ => none
  | fuel + 1, '"' :: p => do
      let (key, p) ← readString p
      match p with
      | ':' :: p => do
          let (value, p) ← readValue fuel p
          match p with
          | ',' :: p => do
              let (fields, p) ← readFields fuel p
              return ((key, value) :: fields, p)
          | '}' :: p => return ([(key, value)], p)
          | _ => none
      | _ => none
  | _, _ => none

end

/-- The value that a whole text stands for. -/
def read (p : List Char) : Option Json :=
  match readValue p.length p with
  | some (value, []) => some value
  | _ => none

mutual

def text : Json → List Char
  | .null => "null".toList
  | .bool true => "true".toList
  | .bool false => "false".toList
  | .num word => word
  | .str chars => '"' :: (chars ++ ['"'])
  | .arr [] => ['[', ']']
  | .arr (item :: items) => '[' :: (text item ++ itemsText items)
  | .obj [] => ['{', '}']
  | .obj ((key, value) :: fields) =>
      '{' :: '"' :: (key ++ '"' :: ':' :: (text value ++ fieldsText fields))

/-- What follows the first item. -/
def itemsText : List Json → List Char
  | [] => [']']
  | item :: items => ',' :: (text item ++ itemsText items)

def fieldsText : List (List Char × Json) → List Char
  | [] => ['}']
  | (key, value) :: fields =>
      ',' :: '"' :: (key ++ '"' :: ':' :: (text value ++ fieldsText fields))

end

/-! ## The words and strings of a value -/

mutual

def words : Json → List (List Char)
  | .num word => [word]
  | .arr items => itemsWords items
  | .obj fields => fieldsWords fields
  | _ => []

def itemsWords : List Json → List (List Char)
  | [] => []
  | item :: items => words item ++ itemsWords items

def fieldsWords : List (List Char × Json) → List (List Char)
  | [] => []
  | (_, value) :: fields => words value ++ fieldsWords fields

end

mutual

def strings : Json → List (List Char)
  | .str chars => [chars]
  | .arr items => itemsStrings items
  | .obj fields => fieldsStrings fields
  | _ => []

def itemsStrings : List Json → List (List Char)
  | [] => []
  | item :: items => strings item ++ itemsStrings items

def fieldsStrings : List (List Char × Json) → List (List Char)
  | [] => []
  | (key, value) :: fields =>
      key :: (strings value ++ fieldsStrings fields)

end

/-- A word for a number, which need not be a numeral. -/
structure IsWord (word : List Char) : Prop where
  ne_nil : word ≠ []
  chars : ∀ c ∈ word, isWordChar c = true
  ne_null : word ≠ "null".toList
  ne_true : word ≠ "true".toList
  ne_false : word ≠ "false".toList

structure Spelled (words strings : List (List Char)) : Prop where
  words : ∀ word ∈ words, IsWord word
  strings : ∀ chars ∈ strings, ∀ c ∈ chars, isPlain c = true

theorem spelled_append {ws ws' ss ss' : List (List Char)} :
    Spelled (ws ++ ws') (ss ++ ss') ↔ Spelled ws ss ∧ Spelled ws' ss' := by
  constructor
  · rintro ⟨hwords, hstrings⟩
    rw [List.forall_mem_append] at hwords hstrings
    exact ⟨⟨hwords.1, hstrings.1⟩, ⟨hwords.2, hstrings.2⟩⟩
  · rintro ⟨⟨hwords, hstrings⟩, ⟨hwords', hstrings'⟩⟩
    exact ⟨List.forall_mem_append.mpr ⟨hwords, hwords'⟩,
      List.forall_mem_append.mpr ⟨hstrings, hstrings'⟩⟩

theorem Spelled.key {ws ss : List (List Char)} {key : List Char}
    (h : Spelled ws (key :: ss)) :
    (∀ c ∈ key, isPlain c = true) ∧ Spelled ws ss := by
  obtain ⟨hwords, hstrings⟩ := h
  rw [List.forall_mem_cons] at hstrings
  exact ⟨hstrings.1, hwords, hstrings.2⟩

/-- All words are numerals. -/
def Numeric (words : List (List Char)) : Prop := ∀ word ∈ words, IsNumeral word

instance (words : List (List Char)) : Decidable (Numeric words) :=
  inferInstanceAs (Decidable (∀ word ∈ words, IsNumeral word))

theorem numeric_append {ws ws' : List (List Char)} :
    Numeric (ws ++ ws') ↔ Numeric ws ∧ Numeric ws' :=
  List.forall_mem_append

/-! ## Reading back -/

/-- No word goes on. -/
def Ends (p : List Char) : Prop := ∀ c ∈ p.head?, isWordChar c = false

theorem ends_cons {c : Char} {p : List Char} (h : isWordChar c = false) :
    Ends (c :: p) := by
  intro d hd
  cases hd
  exact h

theorem takeWhile_all {q : Char → Bool} {p : List Char} (rest : List Char)
    (hp : ∀ c ∈ p, q c = true) (hrest : ∀ c ∈ rest.head?, q c = false) :
    (p ++ rest).takeWhile q = p ∧ (p ++ rest).dropWhile q = rest := by
  rw [List.takeWhile_append_of_pos hp, List.dropWhile_append_of_pos hp]
  cases rest with
  | nil => simp
  | cons c rest =>
      have hc := hrest c rfl
      simp [hc]

theorem readString_append {chars : List Char} (rest : List Char)
    (h : ∀ c ∈ chars, isPlain c = true) :
    readString (chars ++ '"' :: rest) = some (chars, rest) := by
  obtain ⟨htake, hdrop⟩ := takeWhile_all ('"' :: rest) h
    (by intro c hc; cases hc; rfl)
  simp only [readString, htake, hdrop]

theorem readWord_eq {word : List Char} (h : IsWord word) :
    readWord word = if IsNumeral word then some (.num word) else none := by
  unfold readWord
  rw [if_neg h.ne_null, if_neg h.ne_true, if_neg h.ne_false]

theorem readValue_word {c : Char} {word rest : List Char} (fuel : ℕ)
    (hchars : ∀ d ∈ c :: word, isWordChar d = true) (hrest : Ends rest) :
    readValue (fuel + 1) (c :: word ++ rest) =
      (readWord (c :: word)).map fun value => (value, rest) := by
  obtain ⟨htake, hdrop⟩ := takeWhile_all rest hchars hrest
  have hc := hchars c (List.mem_cons_self ..)
  have hquote : c ≠ '"' := by rintro rfl; exact absurd hc (by decide)
  have hbracket : c ≠ '[' := by rintro rfl; exact absurd hc (by decide)
  have hbrace : c ≠ '{' := by rintro rfl; exact absurd hc (by decide)
  rw [List.cons_append] at htake hdrop ⊢
  rw [readValue, htake, hdrop]
  · cases readWord (c :: word) with
    | none => rfl
    | some value => rfl
  all_goals grind

theorem text_eq_cons (value : Json)
    (h : Spelled (words value) (strings value)) :
    ∃ c p, text value = c :: p ∧ c ≠ ']' := by
  rcases value with _ | b | word | chars | items | fields
  · exact ⟨_, _, rfl, by decide⟩
  · cases b with
    | false => exact ⟨_, _, rfl, by decide⟩
    | true => exact ⟨_, _, rfl, by decide⟩
  · have hword : IsWord word := h.words word (List.mem_singleton_self word)
    obtain ⟨c, tail, rfl⟩ := List.exists_cons_of_ne_nil hword.ne_nil
    have hc := hword.chars c (List.mem_cons_self ..)
    exact ⟨c, tail, rfl, by rintro rfl; exact absurd hc (by decide)⟩
  · exact ⟨_, _, rfl, by decide⟩
  · cases items with
    | nil => exact ⟨_, _, rfl, by decide⟩
    | cons item items => exact ⟨_, _, rfl, by decide⟩
  · cases fields with
    | nil => exact ⟨_, _, rfl, by decide⟩
    | cons field fields => exact ⟨_, _, rfl, by decide⟩

theorem text_pos (value : Json)
    (h : Spelled (words value) (strings value)) : 0 < (text value).length := by
  obtain ⟨c, p, htext, _⟩ := text_eq_cons value h
  rw [htext]
  exact Nat.succ_pos _

theorem itemsText_pos (items : List Json) : 0 < (itemsText items).length := by
  cases items with
  | nil => decide
  | cons item items => exact Nat.succ_pos _

theorem ends_itemsText (items : List Json) (rest : List Char) :
    Ends (itemsText items ++ rest) := by
  cases items with
  | nil => exact ends_cons (by decide)
  | cons item items => exact ends_cons (by decide)

theorem ends_fieldsText (fields : List (List Char × Json))
    (rest : List Char) : Ends (fieldsText fields ++ rest) := by
  cases fields with
  | nil => exact ends_cons (by decide)
  | cons field fields => exact ends_cons (by decide)

mutual

/-- A text is read back if its numbers are numerals, and otherwise refused. -/
theorem readValue_text : ∀ (value : Json) (fuel : ℕ) (rest : List Char),
    Spelled (words value) (strings value) → Ends rest →
    (text value).length ≤ fuel + 1 →
    readValue (fuel + 1) (text value ++ rest) =
      if Numeric (words value) then some (value, rest) else none
  | .null, fuel, rest, _, hrest, _ => by
      exact readValue_word fuel (List.all_eq_true.mp (by decide)) hrest
  | .bool true, fuel, rest, _, hrest, _ => by
      exact readValue_word fuel (List.all_eq_true.mp (by decide)) hrest
  | .bool false, fuel, rest, _, hrest, _ => by
      exact readValue_word fuel (List.all_eq_true.mp (by decide)) hrest
  | .num word, fuel, rest, hspelled, hrest, _ => by
      have hword : IsWord word :=
        hspelled.words word (List.mem_singleton_self word)
      obtain ⟨c, tail, rfl⟩ := List.exists_cons_of_ne_nil hword.ne_nil
      have hnumeric : Numeric (words (.num (c :: tail))) ↔
          IsNumeral (c :: tail) := List.forall_mem_singleton
      rw [text, readValue_word fuel hword.chars hrest, readWord_eq hword]
      by_cases hnumeral : IsNumeral (c :: tail)
      · rw [if_pos hnumeral, if_pos (hnumeric.mpr hnumeral)]
        rfl
      · rw [if_neg hnumeral, if_neg (mt hnumeric.mp hnumeral)]
        rfl
  | .str chars, fuel, rest, hspelled, _, _ => by
      have hchars := hspelled.strings chars (List.mem_singleton_self chars)
      have hnumeric : Numeric (words (.str chars)) := by simp [Numeric, words]
      rw [if_pos hnumeric, text, List.cons_append, List.append_assoc,
        List.singleton_append, readValue, readString_append rest hchars]
      rfl
  | .arr [], fuel, rest, _, _, _ => by
      have hnumeric : Numeric (words (.arr [])) := by
        simp [Numeric, words, itemsWords]
      rw [if_pos hnumeric]
      rfl
  | .arr (item :: items), fuel, rest, hspelled, _, hfuel => by
      have hlength : (text item ++ itemsText items).length ≤ fuel :=
        Nat.le_of_succ_le_succ hfuel
      have hitems := readItems_text items item fuel rest hspelled hlength
      obtain ⟨c, tail, htext, hc⟩ :=
        text_eq_cons item (spelled_append.mp hspelled).1
      rw [text, List.cons_append, readValue, hitems, words, itemsWords]
      · by_cases hnumeric : Numeric (words item ++ itemsWords items)
        · rw [if_pos hnumeric, if_pos hnumeric]
          rfl
        · rw [if_neg hnumeric, if_neg hnumeric]
          rfl
      · intro p hp
        rw [htext] at hp
        exact hc (List.cons.inj hp).1
  | .obj [], fuel, rest, _, _, _ => by
      have hnumeric : Numeric (words (.obj [])) := by
        simp [Numeric, words, fieldsWords]
      rw [if_pos hnumeric]
      rfl
  | .obj ((key, value) :: fields), fuel, rest, hspelled, _, hfuel => by
      have hlength : (text value ++ fieldsText fields).length + key.length +
          3 ≤ fuel := by
        simp only [text, List.length_cons, List.length_append] at hfuel ⊢
        omega
      have hfields := readFields_text fields key value fuel rest hspelled
        hlength
      rw [text, List.cons_append, readValue]
      · simp only [List.cons_append, List.append_assoc] at hfields ⊢
        rw [hfields, words, fieldsWords]
        by_cases hnumeric : Numeric (words value ++ fieldsWords fields)
        · rw [if_pos hnumeric, if_pos hnumeric]
          rfl
        · rw [if_neg hnumeric, if_neg hnumeric]
          rfl
      · intro p hp
        cases hp
termination_by _ fuel => fuel + 1

theorem readItems_text (items : List Json) (item : Json) (fuel : ℕ)
    (rest : List Char)
    (hspelled : Spelled (words item ++ itemsWords items)
      (strings item ++ itemsStrings items))
    (hfuel : (text item ++ itemsText items).length ≤ fuel) :
    readItems fuel (text item ++ itemsText items ++ rest) =
      if Numeric (words item ++ itemsWords items) then
        some (item :: items, rest) else none := by
  obtain ⟨hspelled, hrest⟩ := spelled_append.mp hspelled
  have hpos := text_pos item hspelled
  have hpos' := itemsText_pos items
  rw [List.length_append] at hfuel
  obtain ⟨fuel, rfl⟩ : ∃ n, fuel = n + 2 := ⟨fuel - 2, by omega⟩
  have hitem := readValue_text item fuel (itemsText items ++ rest)
    hspelled (ends_itemsText items rest) (by omega)
  rw [List.append_assoc, readItems, hitem]
  by_cases hnumeric : Numeric (words item)
  · have hall : Numeric (words item ++ itemsWords items) ↔
        Numeric (itemsWords items) :=
      numeric_append.trans (and_iff_right hnumeric)
    rw [if_pos hnumeric]
    match items, hrest with
    | [], _ =>
        rw [if_pos (hall.mpr (by simp [Numeric, itemsWords]))]
        rfl
    | next :: items, hrest =>
        have hitems := readItems_text items next (fuel + 1) rest hrest
          (by
            simp only [itemsText, List.length_cons] at hfuel
            omega)
        change (readItems (fuel + 1) (text next ++ itemsText items ++
          rest) >>= fun out => some (item :: out.1, out.2)) = _
        rw [hitems]
        by_cases hmore : Numeric (itemsWords (next :: items))
        · rw [if_pos (hall.mpr hmore)]
          exact congrArg (· >>= _) (if_pos hmore)
        · rw [if_neg (mt hall.mp hmore)]
          exact congrArg (· >>= _) (if_neg hmore)
  · rw [if_neg hnumeric, if_neg fun h => hnumeric (numeric_append.mp h).1]
    rfl
termination_by fuel

theorem readFields_text (fields : List (List Char × Json))
    (key : List Char) (value : Json) (fuel : ℕ) (rest : List Char)
    (hspelled : Spelled (words value ++ fieldsWords fields)
      (key :: (strings value ++ fieldsStrings fields)))
    (hfuel : (text value ++ fieldsText fields).length + key.length + 3 ≤
      fuel) :
    readFields fuel ('"' :: (key ++ '"' :: ':' ::
      (text value ++ fieldsText fields)) ++ rest) =
      if Numeric (words value ++ fieldsWords fields) then
        some ((key, value) :: fields, rest) else none := by
  obtain ⟨hkey, hspelled⟩ := hspelled.key
  obtain ⟨hspelled, hrest⟩ := spelled_append.mp hspelled
  obtain ⟨fuel, rfl⟩ : ∃ n, fuel = n + 2 := ⟨fuel - 2, by omega⟩
  rw [List.length_append] at hfuel
  have hvalue := readValue_text value fuel (fieldsText fields ++ rest)
    hspelled (ends_fieldsText fields rest) (by omega)
  have hstring := readString_append
    (':' :: (text value ++ (fieldsText fields ++ rest))) hkey
  rw [List.cons_append, List.append_assoc, readFields]
  simp only [List.cons_append, List.append_assoc]
  rw [hstring]
  change (readValue (fuel + 1) (text value ++ (fieldsText fields ++ rest))
    >>= _) = _
  rw [hvalue]
  by_cases hnumeric : Numeric (words value)
  · have hall : Numeric (words value ++ fieldsWords fields) ↔
        Numeric (fieldsWords fields) :=
      numeric_append.trans (and_iff_right hnumeric)
    rw [if_pos hnumeric]
    match fields, hrest with
    | [], _ =>
        rw [if_pos (hall.mpr (by simp [Numeric, fieldsWords]))]
        rfl
    | (next, more) :: fields, hrest =>
        have hfields := readFields_text fields next more (fuel + 1) rest
          hrest (by
            simp only [fieldsText, List.length_cons, List.length_append]
              at hfuel ⊢
            omega)
        change (readFields (fuel + 1) ('"' :: (next ++ '"' :: ':' ::
          (text more ++ fieldsText fields)) ++ rest) >>= fun out =>
            some ((key, value) :: out.1, out.2)) = _
        rw [hfields]
        by_cases hmore : Numeric (fieldsWords ((next, more) :: fields))
        · rw [if_pos (hall.mpr hmore)]
          exact congrArg (· >>= _) (if_pos hmore)
        · rw [if_neg (mt hall.mp hmore)]
          exact congrArg (· >>= _) (if_neg hmore)
  · rw [if_neg hnumeric, if_neg fun h => hnumeric (numeric_append.mp h).1]
    rfl
termination_by fuel

end

theorem read_text (value : Json)
    (h : Spelled (words value) (strings value)) :
    read (text value) = if Numeric (words value) then some value else none := by
  have hpos := text_pos value h
  obtain ⟨fuel, hfuel⟩ : ∃ n, (text value).length = n + 1 :=
    ⟨(text value).length - 1, by omega⟩
  have hread := readValue_text value fuel [] h (by simp [Ends]) (by omega)
  rw [List.append_nil] at hread
  unfold read
  rw [hfuel, hread]
  by_cases hnumeric : Numeric (words value)
  · simp only [if_pos hnumeric]
  · simp only [if_neg hnumeric]

/-! ## Integers -/

def nat (n : ℕ) : Json := .num (toString n).toList

def int (z : ℤ) : Json := .num (toString z).toList

theorem head_toDigits {n : ℕ} (hn : 0 < n) :
    ∀ c ∈ (Nat.toDigits 10 n).head?, c ≠ '0' := by
  induction n using Nat.strong_induction_on with
  | _ n ih =>
      rw [Nat.toDigits_eq_if (by decide)]
      split_ifs with hlt
      · intro c hc
        cases hc
        interval_cases n <;> decide
      · intro c hc
        have hdigits : Nat.toDigits 10 (n / 10) ≠ [] := Nat.toDigits_ne_nil
        rw [List.head?_append_of_ne_nil _ hdigits] at hc
        exact ih (n / 10) (by omega) (by omega) c hc

theorem isDigit_toDigits (n : ℕ) :
    ∀ c ∈ Nat.toDigits 10 n, c.isDigit = true := fun _ hc =>
  Nat.isDigit_of_mem_toDigits (by decide) (by decide) hc

theorem afterDigits_toDigits (n : ℕ) :
    afterDigits (Nat.toDigits 10 n) = some [] := by
  obtain ⟨htake, hdrop⟩ := takeWhile_all [] (isDigit_toDigits n) (by simp)
  rw [List.append_nil] at htake hdrop
  unfold afterDigits
  rw [htake, hdrop, if_neg Nat.toDigits_ne_nil]

theorem afterInt_toDigits (n : ℕ) :
    afterInt (Nat.toDigits 10 n) = some [] := by
  by_cases hn : n = 0
  · subst hn
    decide
  · have hhead := head_toDigits (Nat.pos_of_ne_zero hn)
    have hdigits := afterDigits_toDigits n
    cases hn : Nat.toDigits 10 n with
    | nil => exact absurd hn Nat.toDigits_ne_nil
    | cons c tail =>
        rw [hn] at hhead hdigits
        rw [afterInt, hdigits]
        intro p hp
        exact hhead c rfl (List.cons.inj hp).1

/-- A minus and a numeral without a sign, or the numeral alone. -/
theorem isNumeral_of_afterInt {word : List Char}
    (h : afterInt (afterMinus word) = some []) : IsNumeral word := by
  unfold IsNumeral
  rw [h]
  rfl

theorem afterMinus_toDigits (n : ℕ) :
    afterMinus (Nat.toDigits 10 n) = Nat.toDigits 10 n := by
  cases hn : Nat.toDigits 10 n with
  | nil => rfl
  | cons c tail =>
      have hc := isDigit_toDigits n c (by rw [hn]; exact List.mem_cons_self ..)
      rw [afterMinus]
      intro p hp
      obtain ⟨rfl, _⟩ := List.cons.inj hp
      exact absurd hc (by decide)

theorem toList_nat (n : ℕ) : (toString n).toList = Nat.toDigits 10 n := by
  rw [Nat.toString_eq_repr, Nat.toList_repr]

theorem toList_int (z : ℤ) : (toString z).toList =
    if z < 0 then '-' :: Nat.toDigits 10 z.natAbs
    else Nat.toDigits 10 z.natAbs := by
  cases z with
  | ofNat n => exact toList_nat n
  | negSucc n =>
      have hsign : toString (Int.negSucc n) = "-" ++ toString (n + 1) := rfl
      rw [if_pos (Int.negSucc_lt_zero n), hsign, String.toList_append,
        toList_nat]
      rfl

theorem isNumeral_nat (n : ℕ) : IsNumeral (toString n).toList := by
  rw [toList_nat]
  apply isNumeral_of_afterInt
  rw [afterMinus_toDigits, afterInt_toDigits]

theorem isNumeral_int (z : ℤ) : IsNumeral (toString z).toList := by
  rw [toList_int]
  apply isNumeral_of_afterInt
  split_ifs
  · exact afterInt_toDigits z.natAbs
  · rw [afterMinus_toDigits, afterInt_toDigits]

/-- What starts with no letter is neither a truth value nor null. -/
theorem isWord_cons {c : Char} {word : List Char} (hc : c.isAlpha = false)
    (hchars : ∀ d ∈ c :: word, isWordChar d = true) : IsWord (c :: word) where
  ne_nil := List.cons_ne_nil c word
  chars := hchars
  ne_null := by
    intro h
    obtain ⟨rfl, _⟩ := List.cons.inj h
    exact absurd hc (by decide)
  ne_true := by
    intro h
    obtain ⟨rfl, _⟩ := List.cons.inj h
    exact absurd hc (by decide)
  ne_false := by
    intro h
    obtain ⟨rfl, _⟩ := List.cons.inj h
    exact absurd hc (by decide)

theorem isAlpha_of_isDigit {c : Char} (h : c.isDigit = true) :
    c.isAlpha = false := by
  simp [Char.isDigit, Char.isAlpha, Char.isUpper, Char.isLower,
    UInt32.le_iff_toNat_le] at h ⊢
  omega

theorem isWordChar_of_isDigit {c : Char} (h : c.isDigit = true) :
    isWordChar c = true := by
  simp [isWordChar, Char.isAlphanum, h]

theorem isWord_toDigits (n : ℕ) : IsWord (Nat.toDigits 10 n) := by
  have hdigits := isDigit_toDigits n
  cases hn : Nat.toDigits 10 n with
  | nil => exact absurd hn Nat.toDigits_ne_nil
  | cons c word =>
      rw [hn] at hdigits
      exact isWord_cons
        (isAlpha_of_isDigit (hdigits c (List.mem_cons_self ..)))
        fun d hd => isWordChar_of_isDigit (hdigits d hd)

theorem isWord_nat (n : ℕ) : IsWord (toString n).toList := by
  rw [toList_nat]
  exact isWord_toDigits n

theorem isWord_int (z : ℤ) : IsWord (toString z).toList := by
  rw [toList_int]
  split_ifs
  · apply isWord_cons (by decide)
    rw [List.forall_mem_cons]
    exact ⟨by decide, (isWord_toDigits z.natAbs).chars⟩
  · exact isWord_toDigits z.natAbs

/-! ## What a value needs to be read back -/

/-- The text of the value is read back under this condition on its numbers, and
otherwise refused. -/
structure Written (value : Json) (numbers : Prop) : Prop where
  spelled : Spelled (words value) (strings value)
  numeric : Numeric (words value) ↔ numbers

section Written

variable {value : Json} {numbers : Prop} {fields : List (List Char × Json)}
  {others : Prop} {word chars key : List Char}

theorem Written.read_eq_some (h : Written value numbers) (hn : numbers) :
    read (text value) = some value := by
  rw [read_text value h.spelled, if_pos (h.numeric.mpr hn)]

theorem Written.read_eq_none (h : Written value numbers) (hn : ¬ numbers) :
    read (text value) = none := by
  rw [read_text value h.spelled, if_neg (mt h.numeric.mp hn)]

theorem Written.congr (h : Written value numbers) (hiff : numbers ↔ others) :
    Written value others :=
  ⟨h.spelled, h.numeric.trans hiff⟩

theorem written_bool (b : Bool) : Written (.bool b) True where
  spelled := by constructor <;> simp [words, strings]
  numeric := by simp [words, Numeric]

theorem written_num (h : IsWord word) :
    Written (.num word) (IsNumeral word) where
  spelled := by
    constructor
    · simpa [words] using h
    · simp [strings]
  numeric := by simp [words, Numeric]

theorem written_nat (n : ℕ) : Written (nat n) True :=
  (written_num (isWord_nat n)).congr (iff_true_intro (isNumeral_nat n))

theorem written_int (z : ℤ) : Written (int z) True :=
  (written_num (isWord_int z)).congr (iff_true_intro (isNumeral_int z))

theorem written_str (h : ∀ c ∈ chars, isPlain c = true) :
    Written (.str chars) True where
  spelled := by
    constructor
    · simp [words]
    · simpa [strings] using h
  numeric := by simp [words, Numeric]

theorem written_arr {α : Type} {item : α → Json} {numbers : α → Prop}
    {items : List α} (h : ∀ a ∈ items, Written (item a) (numbers a)) :
    Written (.arr (items.map item)) (∀ a ∈ items, numbers a) := by
  suffices hitems : Spelled (itemsWords (items.map item))
      (itemsStrings (items.map item)) ∧
      (Numeric (itemsWords (items.map item)) ↔ ∀ a ∈ items, numbers a) from
    ⟨hitems.1, hitems.2⟩
  induction items with
  | nil =>
      constructor
      · constructor <;> simp [itemsWords, itemsStrings]
      · simp [itemsWords, Numeric]
  | cons a items ih =>
      obtain ⟨hfirst, hrest⟩ := List.forall_mem_cons.mp h
      obtain ⟨hspelled, hnumeric⟩ := ih hrest
      rw [List.map_cons, itemsWords, itemsStrings, List.forall_mem_cons]
      exact ⟨spelled_append.mpr ⟨hfirst.spelled, hspelled⟩,
        numeric_append.trans (and_congr hfirst.numeric hnumeric)⟩

theorem written_obj_nil : Written (.obj []) True where
  spelled := by constructor <;> simp [words, fieldsWords, strings, fieldsStrings]
  numeric := by simp [words, fieldsWords, Numeric]

theorem written_obj_cons (hkey : ∀ c ∈ key, isPlain c = true)
    (hvalue : Written value numbers) (hfields : Written (.obj fields) others) :
    Written (.obj ((key, value) :: fields)) (numbers ∧ others) where
  spelled := by
    obtain ⟨hwords, hstrings⟩ :=
      spelled_append.mpr ⟨hvalue.spelled, hfields.spelled⟩
    exact ⟨hwords, List.forall_mem_cons.mpr ⟨hkey, hstrings⟩⟩
  numeric := numeric_append.trans (and_congr hvalue.numeric hfields.numeric)

theorem isPlain_of_isWordChar {c : Char} (h : isWordChar c = true) :
    isPlain c = true := by
  have hquote : c ≠ '"' := by rintro rfl; exact absurd h (by decide)
  have hslash : c ≠ '\\' := by rintro rfl; exact absurd h (by decide)
  have hlow : 32 ≤ c.toNat := by
    simp [isWordChar, Char.isAlphanum, Char.isAlpha, Char.isUpper,
      Char.isLower, Char.isDigit, UInt32.le_iff_toNat_le] at h
    rcases h with ((((h | h) | h) | rfl) | rfl) | rfl
    · exact le_trans (by decide) h.1
    · exact le_trans (by decide) h.1
    · exact le_trans (by decide) h.1
    all_goals decide
  simp [isPlain, hquote, hslash, hlow]

end Written

end Json
