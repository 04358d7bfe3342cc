import VecDB.GraphGrammar
import Mathlib.Tactic

/-!
# Objects and their readings

A text of the grammar is read as the members it writes, and a reading without
slips (no missing digits, no numeral that is too large, no unknown key, one
comma between members) is that of a text of the grammar.
-/

namespace VecDB
namespace GraphText

/-! ## Lists -/

section Lists

variable {α β : Type} {close : Char}
  {item : List Char → α → List Char → Prop}
  {item' : List Char → β → List Char → Prop}

theorem Items.map {f : α → β} {p r : List Char} {xs : List α}
    (h : Items close item p xs r)
    (hitem : ∀ x ∈ xs, ∀ p q, item p x q → item' p (f x) q) :
    Items close item' p (xs.map f) r := by
  induction h with
  | last hx hclose => exact .last (hitem _ (by simp) _ _ hx) hclose
  | next hx hcomma _ ih =>
      exact .next (hitem _ (by simp) _ _ hx) hcomma
        (ih fun y hy => hitem y (List.mem_cons_of_mem _ hy))

theorem Listed.map {f : α → β} {p r : List Char} {xs : List α}
    (h : Listed close item p xs r)
    (hitem : ∀ x ∈ xs, ∀ p q, item p x q → item' p (f x) q) :
    Listed close item' p (xs.map f) r := by
  rcases h with ⟨rfl, hclose⟩ | hitems
  · exact Or.inl ⟨rfl, hclose⟩
  · exact Or.inr (hitems.map hitem)

/-- Items may follow blanks if the first of them may. -/
theorem Items.of_ws {p q r : List Char} {xs : List α}
    (hitem : ∀ x s, item q x s → item p x s)
    (h : Items close item q xs r) : Items close item p xs r := by
  cases h with
  | last hx hclose => exact .last (hitem _ _ hx) hclose
  | next hx hcomma hrest => exact .next (hitem _ _ hx) hcomma hrest

end Lists

/-! ## Arrays -/

section Arrays

variable {α β : Type} {read : List Char → Except Failure (α × List Char)}

/-- The reader's items as a relation. -/
def Reads (read : List Char → Except Failure (α × List Char))
    (p : List Char) (x : α) (q : List Char) : Prop :=
  read p = .ok (x, q)

theorem items_of_parseItems (fuel : ℕ) {p r : List Char} {xs : List α}
    (h : parseItems read fuel p = .ok (xs, r)) :
    Items ']' (Reads read) p xs r := by
  induction fuel generalizing p xs r with
  | zero => cases h
  | succ fuel ih =>
      obtain ⟨⟨x, q⟩, hx, h⟩ := except_bind_eq_ok.mp h
      dsimp only at h
      split_ifs at h with hclose
      · cases h
        refine .last hx ((tok_iff (by decide)).mpr ?_)
        cases hq : skipWs q with
        | nil => rw [hq] at hclose; simp [peek] at hclose
        | cons c q' =>
            rw [hq] at hclose
            obtain rfl : c = ']' := hclose
            rfl
      · obtain ⟨q', hcomma, h⟩ := except_bind_eq_ok.mp h
        obtain ⟨⟨ys, r'⟩, hys, h⟩ := except_bind_eq_ok.mp h
        cases h
        rw [expect_skipsBlanks ',' q,
          expect_iff_tok (by decide) (by decide)] at hcomma
        exact .next hx hcomma (ih hys)

/-- A character that is looked at and stepped over. -/
theorem tok_of_peek {c : Char} (hc : isWs c = false) (hnul : c ≠ '\x00')
    {p : List Char} (hpeek : peek (skipWs p) = c) :
    Tok c p (skipWs p).tail := by
  rw [tok_iff hc]
  cases hp : skipWs p with
  | nil =>
      rw [hp] at hpeek
      exact absurd hpeek.symm hnul
  | cons d q =>
      rw [hp, peek_cons] at hpeek
      rw [hpeek]
      rfl

theorem arrayOf_of_parseArray (hskip : SkipsBlanks read) {p r : List Char}
    {xs : List α} (h : parseArray read p = .ok (xs, r)) :
    ArrayOf (Reads read) p xs r := by
  obtain ⟨q, hopen, h⟩ := except_bind_eq_ok.mp h
  rw [expect_iff_tok (by decide) (by decide)] at hopen
  refine ⟨q, hopen, ?_⟩
  split_ifs at h with hclose
  · cases h
    exact Or.inl ⟨rfl, tok_of_peek (by decide) (by decide) hclose⟩
  · refine Or.inr ((items_of_parseItems _ h).of_ws ?_)
    intro x s hx
    unfold Reads at hx ⊢
    rwa [hskip] at hx

/-- Where the grammar has an item, the reader reads one with its value. -/
structure Finds (item : List Char → β → List Char → Prop)
    (read : List Char → Except Failure (α × List Char)) (value : α → β)
    (Good : α → Prop) : Prop where
  finds : ∀ p x q, item p x q → Delimited q →
    ∃ reading, value reading = x ∧ Good reading ∧ read p = .ok (reading, q)
  not_close : ∀ p x q, item p x q → peek (skipWs p) ≠ ']'
  skipsBlanks : SkipsBlanks read
  length_le : ∀ p reading q, read p = .ok (reading, q) → q.length ≤ p.length

variable {item : List Char → β → List Char → Prop} {value : α → β}
  {Good : α → Prop}

theorem Finds.items (h : Finds item read value Good) {p r : List Char}
    {xs : List β} (hitems : Items ']' item p xs r) (fuel : ℕ)
    (hfuel : p.length < fuel) :
    ∃ readings, readings.map value = xs ∧ (∀ x ∈ readings, Good x) ∧
      parseItems read fuel p = .ok (readings, r) := by
  induction hitems generalizing fuel with
  | @last p q r x hx hclose =>
      obtain _ | fuel := fuel
      · omega
      obtain ⟨reading, rfl, hgood, hread⟩ :=
        h.finds p x q hx (hclose.delimited (by decide))
      refine ⟨[reading], rfl, by simpa using hgood, ?_⟩
      have hnext := (tok_iff (by decide)).mp hclose
      unfold parseItems
      rw [hread, except_bind_ok]
      dsimp only
      rw [hnext, peek_cons, if_pos rfl]
      rfl
  | @next p q q' r x xs hx hcomma hrest ih =>
      obtain _ | fuel := fuel
      · omega
      obtain ⟨reading, rfl, hgood, hread⟩ :=
        h.finds p x q hx (hcomma.delimited (by decide))
      have hle := h.length_le p reading q hread
      have hlt := hcomma.length_lt
      obtain ⟨readings, rfl, hall, hreads⟩ := ih fuel (by omega)
      refine ⟨reading :: readings, rfl, by simpa using ⟨hgood, hall⟩, ?_⟩
      have hnext := (tok_iff (by decide)).mp hcomma
      have hexpect := (expect_iff_tok (by decide) (by decide)).mpr hcomma
      unfold parseItems
      rw [hread, except_bind_ok]
      dsimp only
      rw [expect_skipsBlanks ',' q, hexpect, hnext, peek_cons,
        if_neg (by decide), except_bind_ok, hreads]
      rfl

theorem Finds.array (h : Finds item read value Good) {p r : List Char}
    {xs : List β} (harray : ArrayOf item p xs r) :
    ∃ readings, readings.map value = xs ∧ (∀ x ∈ readings, Good x) ∧
      parseArray read p = .ok (readings, r) := by
  obtain ⟨q, hopen, hlist⟩ := harray
  have hexpect := (expect_iff_tok (by decide) (by decide)).mpr hopen
  unfold parseArray
  rw [hexpect, except_bind_ok]
  rcases hlist with ⟨rfl, hclose⟩ | hitems
  · refine ⟨[], rfl, by simp, ?_⟩
    rw [(tok_iff (by decide)).mp hclose, peek_cons, if_pos rfl]
    rfl
  · obtain ⟨readings, hvalue, hgood, hreads⟩ :=
      h.items hitems (q.length + 1) (Nat.lt_succ_self _)
    have hfirst : peek (skipWs q) ≠ ']' := by
      cases hitems with
      | last hx _ => exact h.not_close _ _ _ hx
      | next hx _ _ => exact h.not_close _ _ _ hx
    refine ⟨readings, hvalue, hgood, ?_⟩
    rw [if_neg hfirst, parseItems_skipsBlanks h.skipsBlanks, hreads]

/-- An array is an item itself. -/
theorem Finds.arrayOf (h : Finds item read value Good)
    (hends : ∀ p readings q, parseArray read p = .ok (readings, q) →
      q.length ≤ p.length) :
    Finds (ArrayOf item) (parseArray read) (List.map value)
      (fun readings => ∀ x ∈ readings, Good x) where
  finds := fun _ _ _ harray _ => h.array harray
  not_close := by
    rintro p xs q ⟨q', hopen, _⟩
    rw [(tok_iff (by decide)).mp hopen, peek_cons]
    decide
  skipsBlanks := parseArray_skipsBlanks
  length_le := hends

theorem length_le_of_evaluates {parse : List Char →
    Except Failure (β × List Char)} {value : α → β}
    (h : Evaluates value read parse) (hends : Ends parse) (p : List Char)
    (reading : α) (q : List Char) (hread : read p = .ok (reading, q)) :
    q.length ≤ p.length := by
  have hparse := h p
  rw [hread] at hparse
  exact hends.length_le p (value reading) q hparse

end Arrays

/-! ## Well-written readings -/

def WellWrittenU32 (text : List Char) : Prop :=
  isNumeral text = true ∧ 0 ≤ numeralValue text ∧ numeralValue text < 2 ^ 32

def WellWrittenNode (node : NodeReading) : Prop :=
  ∀ layer ∈ node, ∀ text ∈ layer, WellWrittenU32 text

/-- A value, written in full, for a key that is known. -/
def WellWrittenValue (key : String) : ValueReading → Prop
  | .numeral text => ∃ range, fieldRange key = some range ∧
      isNumeral text = true ∧ range.1 ≤ numeralValue text ∧
        numeralValue text ≤ range.2
  | .nodes adj => ∀ node ∈ adj, WellWrittenNode node
  | .skipped => False

def writtenNode (node : NodeReading) : List (List ℤ) :=
  node.map fun layer => layer.map numeralValue

def ValueReading.nodeList : ValueReading → List NodeReading
  | .nodes adj => adj
  | _ => []

def ValueReading.written : ValueReading → Written
  | .numeral text => .int (numeralValue text)
  | value => .nodes (value.nodeList.map writtenNode)

def MemberReading.written (member : MemberReading) : String × Written :=
  (member.key, member.value.written)

/-- All nodes that any `adj` member lists. -/
def allNodes (members : List MemberReading) : List NodeReading :=
  members.flatMap fun member => member.value.nodeList

/-- A comma in front of every member but the first. -/
def CommasBetween : List MemberReading → Prop
  | [] => True
  | first :: rest =>
      first.comma = false ∧ ∀ member ∈ rest, member.comma = true

/-- Nothing is missing, too large, unknown or contradictory. -/
structure WellWritten (members : List MemberReading) : Prop where
  commas : CommasBetween members
  values : ∀ member ∈ members, WellWrittenValue member.key member.value
  repeated : ∀ member ∈ members, ∀ other ∈ members,
    member.key = other.key → member.value.written = other.value.written
  nodes : ∀ member ∈ members, ∀ adj, member.value = .nodes adj →
    adj.map writtenNode = (allNodes members).map writtenNode

/-! ## Nodes -/

theorem readNumeral_skipWs (p : List Char) :
    readNumeral (skipWs p) = readNumeral p := by
  unfold readNumeral
  rw [skipWs_skipWs]

theorem readNumeral_skipsBlanks :
    SkipsBlanks fun p => (.ok (readNumeral p) :
      Except Failure (List Char × List Char)) := by
  intro p
  dsimp only
  rw [readNumeral_skipWs]

theorem u32_finds : Finds U32
    (fun p => (.ok (readNumeral p) : Except Failure (List Char × List Char)))
    numeralValue WellWrittenU32 where
  finds := by
    rintro p i q ⟨⟨text, htext, rfl, hws⟩, hle, hlt⟩ hq
    refine ⟨text, rfl, ⟨htext, hle, hlt⟩, ?_⟩
    rw [readNumeral_numeral htext hws hq]
  not_close := fun _ _ _ h => h.1.peek_skipWs
  skipsBlanks := readNumeral_skipsBlanks
  length_le := length_le_of_evaluates parseU32_evaluates parseU32_ends

theorem u32_of_reading {p q text : List Char} (hgood : WellWrittenU32 text)
    (h : Reads (fun p => .ok (readNumeral p)) p text q) :
    U32 p (numeralValue text) q := by
  obtain ⟨htext, hle, hlt⟩ := hgood
  have hws := readNumeral_ws p
  rw [Except.ok.inj h] at hws
  exact ⟨⟨text, htext, rfl, hws⟩, hle, hlt⟩

theorem u32List_finds : Finds (ArrayOf U32) readNumerals
    (List.map numeralValue) (fun layer => ∀ x ∈ layer, WellWrittenU32 x) :=
  u32_finds.arrayOf (length_le_of_evaluates
    (parseArray_evaluates parseU32_evaluates) (parseArray_ends parseU32_ends))

theorem readNumerals_skipsBlanks : SkipsBlanks readNumerals :=
  parseArray_skipsBlanks

theorem layers_of_reading {p q : List Char} {layers : NodeReading}
    (hgood : WellWrittenNode layers)
    (h : parseArray readNumerals p = .ok (layers, q)) :
    ArrayOf (ArrayOf U32) p (writtenNode layers) q := by
  obtain ⟨p', hopen, hlist⟩ :=
    arrayOf_of_parseArray readNumerals_skipsBlanks h
  refine ⟨p', hopen, hlist.map ?_⟩
  intro layer hlayer p₁ q₁ hread
  obtain ⟨p₂, hopen₂, hlist₂⟩ :=
    arrayOf_of_parseArray readNumeral_skipsBlanks hread
  exact ⟨p₂, hopen₂, hlist₂.map fun text htext _ _ hnumeral =>
    u32_of_reading (hgood layer hlayer text htext) hnumeral⟩

theorem readNode_skipsBlanks : SkipsBlanks readNode := by
  intro p
  unfold readNode
  rw [expect_skipsBlanks '\x7b' p]

theorem node_of_reading {p r : List Char} {node : NodeReading}
    (hgood : WellWrittenNode node) (h : Reads readNode p node r) :
    Node p (writtenNode node) r := by
  obtain ⟨q₁, hopen, h⟩ := except_bind_eq_ok.mp h
  obtain ⟨⟨key, q₂⟩, hkey, h⟩ := except_bind_eq_ok.mp h
  dsimp only at h
  split_ifs at h with hl
  · cases h
  · obtain ⟨q₃, hcolon, h⟩ := except_bind_eq_ok.mp h
    obtain ⟨⟨layers, q₄⟩, hlayers, h⟩ := except_bind_eq_ok.mp h
    obtain ⟨r', hclose, h⟩ := except_bind_eq_ok.mp h
    cases h
    rw [expect_iff_tok (by decide) (by decide)] at hopen hcolon hclose
    obtain rfl := not_not.mp hl
    exact ⟨q₁, q₂, q₃, q₄, hopen, parseKey_ok hkey, hcolon,
      layers_of_reading hgood hlayers, hclose⟩

theorem node_finds : Finds Node readNode writtenNode WellWrittenNode where
  finds := by
    rintro p layers r ⟨q₁, q₂, q₃, q₄, hopen, hkey, hcolon, hlayers, hclose⟩ _
    obtain ⟨reading, hvalue, hgood, hread⟩ := u32List_finds.array hlayers
    refine ⟨reading, hvalue, hgood, ?_⟩
    rw [← expect_iff_tok (by decide) (by decide)] at hopen hcolon hclose
    unfold readNode
    rw [hopen, except_bind_ok,
      parseKey_quoted (List.all_eq_true.mp (by decide)) hkey, except_bind_ok]
    dsimp only
    rw [if_neg (by decide), hcolon, except_bind_ok, hread, except_bind_ok]
    dsimp only
    rw [hclose]
    rfl
  not_close := by
    rintro p layers r ⟨q₁, q₂, q₃, q₄, hopen, _⟩
    rw [(tok_iff (by decide)).mp hopen, peek_cons]
    decide
  skipsBlanks := readNode_skipsBlanks
  length_le := length_le_of_evaluates parseNodeAdj_evaluates parseNodeAdj_ends

theorem nodes_of_reading {p q : List Char} {adj : List NodeReading}
    (hgood : ∀ node ∈ adj, WellWrittenNode node)
    (h : parseArray readNode p = .ok (adj, q)) :
    ArrayOf Node p (adj.map writtenNode) q := by
  obtain ⟨p', hopen, hlist⟩ := arrayOf_of_parseArray readNode_skipsBlanks h
  exact ⟨p', hopen, hlist.map fun node hnode _ _ hread =>
    node_of_reading (hgood node hnode) hread⟩

/-! ## Members -/

theorem scalarField_isSome (key : String) :
    (scalarField key).isSome = (fieldRange key).isSome := by
  unfold scalarField
  split
  all_goals first
    | rfl
    | simp only [fieldRange, Option.isSome_none]

/-- Which shape of value is read for a key. -/
def Shaped (key : String) : ValueReading → Prop
  | .numeral _ => (fieldRange key).isSome = true
  | .nodes _ => key = "adj"
  | .skipped => True

theorem readValue_shaped {key : String} {p q : List Char}
    {value : ValueReading} (h : readValue key p = .ok (value, q)) :
    Shaped key value := by
  unfold readValue at h
  have hsame := scalarField_isSome key
  cases hfield : scalarField key with
  | some assign =>
      rw [hfield] at h hsame
      cases h
      exact hsame.symm
  | none =>
      rw [hfield] at h
      dsimp only at h
      split_ifs at h with hadj
      · obtain ⟨⟨adj, q'⟩, _, h⟩ := except_bind_eq_ok.mp h
        cases h
        exact hadj
      · cases h
        trivial

theorem value_of_reading {key : String} {p q : List Char}
    {value : ValueReading} (hgood : WellWrittenValue key value)
    (h : readValue key p = .ok (value, q)) : Value key p value.written q := by
  unfold readValue at h
  cases hfield : scalarField key with
  | some assign =>
      rw [hfield] at h
      cases h
      obtain ⟨range, hrange, htext, hle, hge⟩ := hgood
      exact ⟨range, hrange, ⟨_, htext, rfl, readNumeral_ws p⟩, hle, hge⟩
  | none =>
      rw [hfield] at h
      dsimp only at h
      split_ifs at h with hadj
      · obtain ⟨⟨adj, q'⟩, hread, h⟩ := except_bind_eq_ok.mp h
        cases h
        exact ⟨hadj, nodes_of_reading hgood hread⟩
      · cases h
        exact hgood.elim

theorem value_finds {key : String} {p q : List Char} {written : Written}
    (h : Value key p written q) (hq : Delimited q) :
    ∃ value, value.written = written ∧ WellWrittenValue key value ∧
      readValue key p = .ok (value, q) := by
  have hsame := scalarField_isSome key
  cases written with
  | int i =>
      obtain ⟨range, hrange, ⟨text, htext, rfl, hws⟩, hle, hge⟩ := h
      refine ⟨.numeral text, rfl, ⟨range, hrange, htext, hle, hge⟩, ?_⟩
      rw [hrange, Option.isSome_some, Option.isSome_iff_exists] at hsame
      obtain ⟨assign, hassign⟩ := hsame
      unfold readValue
      rw [hassign]
      dsimp only
      rw [readNumeral_numeral htext hws hq]
  | nodes adj =>
      obtain ⟨rfl, harray⟩ := h
      obtain ⟨reading, rfl, hgood, hread⟩ := node_finds.array harray
      refine ⟨.nodes reading, rfl, hgood, ?_⟩
      have hnone : scalarField "adj" = none := rfl
      unfold readValue
      rw [hnone]
      dsimp only
      rw [if_pos rfl, hread]
      rfl

theorem fieldKey_isKeyChar {key : String}
    (h : (fieldRange key).isSome = true ∨ key = "adj") :
    ∀ c ∈ key.toList, isKeyChar c = true := by
  rcases h with h | rfl
  · unfold fieldRange at h
    split at h
    all_goals first
      | exact List.all_eq_true.mp (by decide)
      | cases h
  · exact List.all_eq_true.mp (by decide)

theorem readValue_skipWs {key : String}
    (h : (fieldRange key).isSome = true ∨ key = "adj") (p : List Char) :
    readValue key (skipWs p) = readValue key p := by
  unfold readValue
  have hsame := scalarField_isSome key
  cases hfield : scalarField key with
  | some assign =>
      dsimp only
      rw [readNumeral_skipWs]
  | none =>
      rw [hfield, Option.isSome_none] at hsame
      have hadj : key = "adj" := by
        rcases h with h | h
        · rw [← hsame] at h
          cases h
        · exact h
      dsimp only
      rw [if_pos hadj, if_pos hadj, parseArray_skipsBlanks p]

/-- A value stands behind blanks, too. -/
theorem Value.of_ws {key : String} {p q r : List Char} {written : Written}
    (hws : Ws p q) (h : Value key q written r) : Value key p written r := by
  cases written with
  | int i =>
      obtain ⟨range, hrange, ⟨text, htext, hvalue, hnumeral⟩, hle, hge⟩ := h
      exact ⟨range, hrange, ⟨text, htext, hvalue, hws.trans hnumeral⟩, hle,
        hge⟩
  | nodes adj =>
      obtain ⟨hkey, q', hopen, hlist⟩ := h
      exact ⟨hkey, q', hws.trans hopen, hlist⟩

theorem Value.key_known {key : String} {p r : List Char} {written : Written}
    (h : Value key p written r) :
    (fieldRange key).isSome = true ∨ key = "adj" := by
  cases written with
  | int i =>
      obtain ⟨range, hrange, _⟩ := h
      exact Or.inl (by rw [hrange]; rfl)
  | nodes adj => exact Or.inr h.1

theorem member_of_reading {comma : Bool} {p r : List Char}
    {member : MemberReading}
    (hgood : WellWrittenValue member.key member.value)
    (h : readMember comma p = .ok (member, r)) :
    Member p member.written r := by
  obtain ⟨⟨key, q₁⟩, hkey, h⟩ := except_bind_eq_ok.mp h
  obtain ⟨q₂, hcolon, h⟩ := except_bind_eq_ok.mp h
  obtain ⟨⟨value, q₃⟩, hvalue, h⟩ := except_bind_eq_ok.mp h
  cases h
  rw [expect_iff_tok (by decide) (by decide)] at hcolon
  exact ⟨q₁, q₂, parseKey_ok hkey, hcolon,
    (value_of_reading hgood hvalue).of_ws (ws_skipWs q₂)⟩

theorem member_finds {p q : List Char} {member : String × Written}
    (h : Member p member q) (hq : Delimited q) (comma : Bool) :
    ∃ reading, reading.comma = comma ∧ reading.written = member ∧
      WellWrittenValue reading.key reading.value ∧
        readMember comma p = .ok (reading, q) := by
  obtain ⟨key, written⟩ := member
  obtain ⟨q₁, q₂, hkey, hcolon, hvalue⟩ := h
  obtain ⟨value, rfl, hgood, hread⟩ := value_finds hvalue hq
  refine ⟨⟨comma, key, value⟩, rfl, rfl, hgood, ?_⟩
  have hknown := hvalue.key_known
  rw [← expect_iff_tok (by decide) (by decide)] at hcolon
  unfold readMember
  rw [parseKey_quoted (fieldKey_isKeyChar hknown) hkey, except_bind_ok]
  dsimp only
  rw [hcolon, except_bind_ok, readValue_skipWs hknown, hread]
  rfl

theorem readMember_fields {comma : Bool} {p r : List Char}
    {member : MemberReading} (h : readMember comma p = .ok (member, r)) :
    member.comma = comma ∧ Shaped member.key member.value := by
  obtain ⟨⟨key, q₁⟩, _, h⟩ := except_bind_eq_ok.mp h
  obtain ⟨q₂, _, h⟩ := except_bind_eq_ok.mp h
  obtain ⟨⟨value, q₃⟩, hvalue, h⟩ := except_bind_eq_ok.mp h
  cases h
  exact ⟨rfl, readValue_shaped hvalue⟩

theorem readMember_skipsBlanks (comma : Bool) :
    SkipsBlanks (readMember comma) := by
  intro p
  unfold readMember
  rw [parseKey_skipsBlanks]

theorem readMember_length_lt {comma : Bool} {p r : List Char}
    {member : MemberReading} (h : readMember comma p = .ok (member, r)) :
    r.length < p.length := by
  have hparse := parseMember_evaluates {} comma p
  rw [h] at hparse
  exact parseMember_length_lt hparse

/-! ## The members of an object -/

/-- A member as it is read, after a comma or not. -/
def ReadsMember (p : List Char) (member : MemberReading) (q : List Char) :
    Prop :=
  ∃ comma, readMember comma p = .ok (member, q)

/-- One turn of the loop. -/
theorem readMembers_succ (fuel : ℕ) (p : List Char) :
    readMembers (fuel + 1) p =
      if peek (skipWs p) = '\x7d' then .ok ([], (skipWs p).tail)
      else (do
        let (member, q) ← readMember (peek (skipWs p) = ',')
          (if peek (skipWs p) = ',' then skipWs (skipWs p).tail else skipWs p)
        let (members, q) ← readMembers fuel q
        return (member :: members, q)) := by
  rw [readMembers]
  dsimp only
  split_ifs with hclose hcomma
  · rfl
  · simp only [hcomma, decide_true]
  · simp only [hcomma, decide_false]

/-- A turn closes the object, or reads a member. -/
theorem readMembers_succ_eq_ok {fuel : ℕ} {p r : List Char}
    {members : List MemberReading}
    (h : readMembers (fuel + 1) p = .ok (members, r)) :
    (members = [] ∧ Tok '\x7d' p r) ∨
      ∃ member q rest, readMember (peek (skipWs p) = ',')
          (if peek (skipWs p) = ',' then skipWs (skipWs p).tail
            else skipWs p) = .ok (member, q) ∧
        readMembers fuel q = .ok (rest, r) ∧ members = member :: rest := by
  rw [readMembers_succ] at h
  by_cases hclose : peek (skipWs p) = '\x7d'
  · rw [if_pos hclose] at h
    cases h
    exact Or.inl ⟨rfl, tok_of_peek (by decide) (by decide) hclose⟩
  · rw [if_neg hclose] at h
    obtain ⟨⟨member, q⟩, hmember, h⟩ := except_bind_eq_ok.mp h
    obtain ⟨⟨rest, r'⟩, hrest, h⟩ := except_bind_eq_ok.mp h
    cases h
    exact Or.inr ⟨member, q, rest, hmember, hrest, rfl⟩

theorem readMembers_shaped (fuel : ℕ) {p r : List Char}
    {members : List MemberReading}
    (h : readMembers fuel p = .ok (members, r)) :
    ∀ member ∈ members, Shaped member.key member.value := by
  induction fuel generalizing p members with
  | zero => cases h
  | succ fuel ih =>
      rcases readMembers_succ_eq_ok h with
        ⟨rfl, _⟩ | ⟨member, q, rest, hmember, hrest, rfl⟩
      · exact List.forall_mem_nil _
      · exact List.forall_mem_cons.mpr
          ⟨(readMember_fields hmember).2, ih hrest⟩

/-- Behind a member: the end, or a comma and further members. -/
def MembersBehind (item : List Char → MemberReading → List Char → Prop)
    (p : List Char) (members : List MemberReading) (r : List Char) : Prop :=
  members = [] ∧ Tok '\x7d' p r ∨
    ∃ q, Tok ',' p q ∧ Items '\x7d' item q members r

theorem MembersBehind.cons
    {item : List Char → MemberReading → List Char → Prop}
    {p q r : List Char} {member : MemberReading}
    {members : List MemberReading} (hmember : item p member q)
    (h : MembersBehind item q members r) :
    Items '\x7d' item p (member :: members) r := by
  rcases h with ⟨rfl, hclose⟩ | ⟨q', hcomma, hitems⟩
  · exact .last hmember hclose
  · exact .next hmember hcomma hitems

theorem ReadsMember.of_skipWs {p q : List Char} {member : MemberReading}
    (h : ReadsMember (skipWs p) member q) : ReadsMember p member q := by
  obtain ⟨comma, hread⟩ := h
  rw [readMember_skipsBlanks] at hread
  exact ⟨comma, hread⟩

theorem membersBehind_of_reading (fuel : ℕ) {p r : List Char}
    {members : List MemberReading}
    (hcommas : ∀ member ∈ members, member.comma = true)
    (h : readMembers fuel p = .ok (members, r)) :
    MembersBehind ReadsMember p members r := by
  induction fuel generalizing p members with
  | zero => cases h
  | succ fuel ih =>
      rcases readMembers_succ_eq_ok h with
        hclosed | ⟨member, q, rest, hmember, hrest, rfl⟩
      · exact Or.inl hclosed
      · obtain ⟨hfirst, hrests⟩ := List.forall_mem_cons.mp hcommas
        have hcomma : peek (skipWs p) = ',' := by
          have hflag := (readMember_fields hmember).1
          rw [hfirst] at hflag
          exact of_decide_eq_true hflag.symm
        rw [if_pos hcomma] at hmember
        refine Or.inr ⟨(skipWs p).tail,
          tok_of_peek (by decide) (by decide) hcomma, ?_⟩
        refine MembersBehind.cons ?_ (ih hrests hrest)
        exact ReadsMember.of_skipWs ⟨_, hmember⟩

theorem listed_of_reading (fuel : ℕ) {p r : List Char}
    {members : List MemberReading} (hcommas : CommasBetween members)
    (h : readMembers fuel p = .ok (members, r)) :
    Listed '\x7d' ReadsMember p members r := by
  cases fuel with
  | zero => cases h
  | succ fuel =>
      rcases readMembers_succ_eq_ok h with
        hclosed | ⟨member, q, rest, hmember, hrest, rfl⟩
      · exact Or.inl hclosed
      · obtain ⟨hfirst, hrests⟩ := hcommas
        have hcomma : ¬ peek (skipWs p) = ',' := by
          have hflag := (readMember_fields hmember).1
          rw [hfirst] at hflag
          exact of_decide_eq_false hflag.symm
        rw [if_neg hcomma] at hmember
        refine Or.inr (MembersBehind.cons ?_
          (membersBehind_of_reading fuel hrests hrest))
        exact ReadsMember.of_skipWs ⟨_, hmember⟩

theorem object_of_reading {p r : List Char} {members : List MemberReading}
    (hcommas : CommasBetween members)
    (hvalues : ∀ member ∈ members, WellWrittenValue member.key member.value)
    (h : readText p = .ok (members, r)) :
    Object p (members.map MemberReading.written) r := by
  obtain ⟨q, hopen, h⟩ := except_bind_eq_ok.mp h
  rw [expect_iff_tok (by decide) (by decide)] at hopen
  refine ⟨q, hopen, (listed_of_reading _ hcommas h).map ?_⟩
  rintro member hmember _ _ ⟨comma, hread⟩
  exact member_of_reading (hvalues member hmember) hread

/-! ## Objects are read -/

theorem Member.peek_skipWs {p q : List Char} {member : String × Written}
    (h : Member p member q) : peek (skipWs p) = '"' := by
  obtain ⟨_, _, hkey, _⟩ := h
  exact hkey.peek_skipWs

/-- Where the next member starts: here, or behind a comma. -/
def Starts (comma : Bool) (p' p : List Char) : Prop :=
  if comma then Tok ',' p' p else p' = p

theorem Starts.length_le {comma : Bool} {p' p : List Char}
    (h : Starts comma p' p) : p.length ≤ p'.length := by
  unfold Starts at h
  split_ifs at h
  · exact h.length_lt.le
  · rw [h]

theorem readMembers_turn {comma : Bool} {p' p q r : List Char}
    {member : MemberReading} {rest : List MemberReading} {fuel : ℕ}
    (hstarts : Starts comma p' p) (hfirst : peek (skipWs p) = '"')
    (hread : readMember comma p = .ok (member, q))
    (hrest : readMembers fuel q = .ok (rest, r)) :
    readMembers (fuel + 1) p' = .ok (member :: rest, r) := by
  rw [readMembers_succ]
  unfold Starts at hstarts
  cases comma with
  | true =>
      have hskip := (tok_iff (by decide)).mp hstarts
      rw [hskip, peek_cons, if_neg (by decide), if_pos rfl, List.tail_cons,
        readMember_skipsBlanks, decide_eq_true rfl, hread, except_bind_ok]
      dsimp only
      rw [hrest]
      rfl
  | false =>
      obtain rfl : p' = p := hstarts
      have hcomma : ¬ peek (skipWs p') = ',' := by
        rw [hfirst]
        decide
      rw [if_neg (by rw [hfirst]; decide), if_neg hcomma,
        decide_eq_false hcomma, readMember_skipsBlanks, hread,
        except_bind_ok]
      dsimp only
      rw [hrest]
      rfl

theorem readMembers_close {q r : List Char} (hclose : Tok '\x7d' q r)
    (fuel : ℕ) : readMembers (fuel + 1) q = .ok ([], r) := by
  rw [readMembers_succ, (tok_iff (by decide)).mp hclose, peek_cons,
    if_pos rfl]
  rfl

/-- What the loop makes of well-written members. -/
structure ReadAs (members : List (String × Written)) (comma : Bool)
    (readings : List MemberReading) : Prop where
  written : readings.map MemberReading.written = members
  values : ∀ member ∈ readings, WellWrittenValue member.key member.value
  commas : ∃ first rest, readings = first :: rest ∧ first.comma = comma ∧
    ∀ member ∈ rest, member.comma = true

/-- The loop reads the members of an object, be there a comma in front of the
first or not. -/
theorem readMembers_of_items {p r : List Char}
    {members : List (String × Written)}
    (hitems : Items '\x7d' Member p members r) (comma : Bool)
    {p' : List Char} (hstarts : Starts comma p' p)
    (fuel : ℕ) (hfuel : p'.length < fuel) :
    ∃ readings, ReadAs members comma readings ∧
      readMembers fuel p' = .ok (readings, r) := by
  induction hitems generalizing comma p' fuel with
  | @last p q r member hmember hclose =>
      obtain ⟨reading, hflag, rfl, hgood, hread⟩ :=
        member_finds hmember (hclose.delimited (by decide)) comma
      have hlt := readMember_length_lt hread
      have hle := hstarts.length_le
      obtain ⟨fuel, rfl⟩ : ∃ k, fuel = k + 2 := ⟨fuel - 2, by omega⟩
      refine ⟨[reading], ⟨rfl, by simpa using hgood,
        reading, [], rfl, hflag, by simp⟩, ?_⟩
      exact readMembers_turn hstarts hmember.peek_skipWs hread
        (readMembers_close hclose fuel)
  | @next p q q' r member members hmember hcomma hrest ih =>
      obtain ⟨reading, hflag, rfl, hgood, hread⟩ :=
        member_finds hmember (hcomma.delimited (by decide)) comma
      have hlt := readMember_length_lt hread
      have hle := hstarts.length_le
      obtain ⟨fuel, rfl⟩ : ∃ k, fuel = k + 1 := ⟨fuel - 1, by omega⟩
      obtain ⟨readings, hreadings, hreads⟩ := ih true hcomma fuel (by omega)
      obtain ⟨first, rest, rfl, hfirst, hcommas⟩ := hreadings.commas
      refine ⟨reading :: first :: rest, ⟨?_, ?_, reading, first :: rest, rfl,
        hflag, ?_⟩, readMembers_turn hstarts hmember.peek_skipWs hread hreads⟩
      · rw [List.map_cons, hreadings.written]
      · intro m hm
        rcases List.mem_cons.mp hm with rfl | hm
        · exact hgood
        · exact hreadings.values m hm
      · intro m hm
        rcases List.mem_cons.mp hm with rfl | hm
        · exact hfirst
        · exact hcommas m hm

/-- The reading of an object, whatever follows it. -/
theorem readText_of_object {p r : List Char}
    {members : List (String × Written)} (h : Object p members r) :
    ∃ readings, readings.map MemberReading.written = members ∧
      CommasBetween readings ∧
      (∀ member ∈ readings, WellWrittenValue member.key member.value) ∧
        readText p = .ok (readings, r) := by
  obtain ⟨q, hopen, hlist⟩ := h
  rw [← expect_iff_tok (by decide) (by decide)] at hopen
  unfold readText
  rw [hopen, except_bind_ok]
  rcases hlist with ⟨rfl, hclose⟩ | hitems
  · exact ⟨[], rfl, trivial, by simp, readMembers_close hclose _⟩
  · obtain ⟨readings, hreadings, hreads⟩ := readMembers_of_items hitems false
      (show Starts false q q from rfl) (q.length + 1) (Nat.lt_succ_self _)
    obtain ⟨first, rest, rfl, hfirst, hcommas⟩ := hreadings.commas
    exact ⟨first :: rest, hreadings.written, ⟨hfirst, hcommas⟩,
      hreadings.values, hreads⟩

end GraphText
end VecDB
