import VecDB.GraphRoundTrip
import Mathlib.Tactic

/-!
# Graph files that were cut off

A parser that succeeds has looked at nothing behind the text it consumed, a
numeral at the very end excepted: it reads the same from any longer text.  So
a beginning of a written graph parses only if it has the closing brace.
-/

namespace VecDB
namespace GraphText

/-- The result does not depend on what follows the consumed text. -/
def Local {α : Type} (parse : List Char → Except Failure (α × List Char)) :
    Prop :=
  ∀ p x r q, parse p = .ok (x, r) → parse (p ++ q) = .ok (x, r ++ q)

/-- The same, if the parser stopped before the end. -/
def LocalBefore {α : Type}
    (parse : List Char → Except Failure (α × List Char)) : Prop :=
  ∀ p x r q, parse p = .ok (x, r) → r ≠ [] → parse (p ++ q) = .ok (x, r ++ q)

theorem Local.before {α : Type}
    {parse : List Char → Except Failure (α × List Char)}
    (h : Local parse) : LocalBefore parse :=
  fun p x r q hparse _ => h p x r q hparse

theorem skipWs_append_right {p : List Char} (hne : skipWs p ≠ [])
    (q : List Char) : skipWs (p ++ q) = skipWs p ++ q := by
  unfold skipWs at hne ⊢
  rw [List.dropWhile_append, if_neg (by simpa using hne)]

theorem peek_append {p : List Char} (hne : p ≠ []) (q : List Char) :
    peek (p ++ q) = peek p := by
  cases p with
  | nil => exact absurd rfl hne
  | cons c p => rfl

theorem ne_nil_of_peek {p : List Char} {c : Char} (hc : c ≠ '\x00')
    (hpeek : peek p = c) : p ≠ [] := by
  rintro rfl
  exact hc hpeek.symm

theorem expect_eq_ok {c : Char} (hc : c ≠ '\x00') {p r : List Char} :
    expect c p = .ok r ↔ skipWs p = c :: r := by
  unfold expect
  dsimp only
  split_ifs with hpeek
  · obtain ⟨d, q, hskip⟩ :=
      List.exists_cons_of_ne_nil (ne_nil_of_peek hc hpeek)
    rw [hskip] at hpeek ⊢
    rw [peek_cons] at hpeek
    simp [hpeek]
  · simp only [false_iff]
    intro hskip
    rw [hskip] at hpeek
    exact hpeek rfl

theorem expect_append {c : Char} (hc : c ≠ '\x00') {p r : List Char}
    (hexpect : expect c p = .ok r) (q : List Char) :
    expect c (p ++ q) = .ok (r ++ q) := by
  rw [expect_eq_ok hc] at hexpect ⊢
  rw [skipWs_append_right (by simp [hexpect]), hexpect]
  rfl

theorem expect_nil {c : Char} (hc : c ≠ '\x00') {p r : List Char}
    (hskip : skipWs p = []) : expect c p ≠ .ok r := by
  rw [ne_eq, expect_eq_ok hc, hskip]
  simp

theorem parseKey_local : Local parseKey := by
  intro p key r q hparse
  unfold parseKey at hparse ⊢
  dsimp only [bind, Except.bind] at hparse ⊢
  rw [expect_skipsBlanks] at hparse ⊢
  cases hopen : expect '"' p with
  | error e => simp [hopen] at hparse
  | ok p₁ =>
      rw [hopen] at hparse
      rw [expect_append (by decide) hopen]
      dsimp only at hparse ⊢
      cases hclose : expect '"' (p₁.dropWhile isKeyChar) with
      | error e => simp [hclose] at hparse
      | ok p₂ =>
          have hne : p₁.dropWhile isKeyChar ≠ [] := by
            intro hnil
            rw [hnil] at hclose
            exact expect_nil (by decide) rfl hclose
          rw [hclose] at hparse
          rw [List.dropWhile_append, if_neg (by simpa using hne),
            expect_append (by decide) hclose]
          have htake : (p₁ ++ q).takeWhile isKeyChar =
              p₁.takeWhile isKeyChar := by
            have hsplit := congrArg List.length
              (List.takeWhile_append_dropWhile (p := isKeyChar) (l := p₁))
            rw [List.length_append] at hsplit
            have hpos := List.length_pos_iff.mpr hne
            rw [List.takeWhile_append, if_neg (by omega)]
          rw [htake]
          simp only [pure, Except.pure, Except.ok.injEq, Prod.mk.injEq]
            at hparse ⊢
          exact ⟨hparse.1, by rw [hparse.2]⟩

theorem readDigits_before {p r : List Char} {v v' : Int64} (q : List Char)
    (hread : readDigits v p = (v', r)) (hne : r ≠ []) :
    readDigits v (p ++ q) = (v', r ++ q) := by
  induction p generalizing v with
  | nil =>
      cases hread
      exact absurd rfl hne
  | cons c p ih =>
      rw [List.cons_append]
      unfold readDigits at hread ⊢
      split_ifs at hread ⊢ with hc
      · exact ih hread
      · cases hread
        rfl

theorem parseInt_before {p r : List Char} {v : Int64} (q : List Char)
    (hparse : parseInt p = (v, r)) (hne : r ≠ []) :
    parseInt (p ++ q) = (v, r ++ q) := by
  have hskip : skipWs p ≠ [] := by
    intro hnil
    unfold parseInt at hparse
    rw [hnil] at hparse
    cases hparse
    exact hne rfl
  unfold parseInt at hparse ⊢
  rw [skipWs_append_right hskip]
  dsimp only at hparse ⊢
  rw [peek_append hskip]
  split_ifs at hparse ⊢ with hneg
  · rw [List.tail_append_of_ne_nil hskip]
    cases hread : readDigits 0 (skipWs p).tail with
    | mk v' r' =>
        rw [hread] at hparse
        cases hparse
        rw [readDigits_before q hread hne]
  · exact readDigits_before q hparse hne

theorem parseU32_before : LocalBefore parseU32 := by
  intro p x r q hparse hne
  unfold parseU32 at hparse ⊢
  cases hread : parseInt p with
  | mk v r' =>
      rw [hread] at hparse
      cases hparse
      rw [parseInt_before q hread hne]

theorem parseItems_local {α : Type}
    {item : List Char → Except Failure (α × List Char)}
    (hitem : LocalBefore item) {fuel fuel' : ℕ} (hfuel : fuel ≤ fuel')
    {p r : List Char} {xs : List α} (q : List Char)
    (hparse : parseItems item fuel p = .ok (xs, r)) :
    parseItems item fuel' (p ++ q) = .ok (xs, r ++ q) := by
  induction fuel generalizing fuel' p r xs with
  | zero => simp [parseItems] at hparse
  | succ fuel ih =>
      obtain ⟨fuel', rfl⟩ := Nat.exists_eq_add_of_le'
        ((Nat.le_add_left 1 fuel).trans hfuel)
      rw [parseItems, except_bind_eq_ok] at hparse
      obtain ⟨⟨x, p₁⟩, hfirst, hparse⟩ := hparse
      dsimp only at hparse
      -- a comma or a bracket follows, so the item did not end the text
      have hskip : skipWs p₁ ≠ [] := by
        intro hnil
        rw [hnil, if_neg (by decide), except_bind_eq_ok] at hparse
        obtain ⟨p₂, hcomma, _⟩ := hparse
        exact expect_nil (by decide) rfl hcomma
      have hne : p₁ ≠ [] := by
        rintro rfl
        exact hskip rfl
      rw [parseItems, hitem p x p₁ q hfirst hne, except_bind_ok]
      dsimp only
      rw [skipWs_append_right hskip, peek_append hskip]
      split_ifs at hparse ⊢ with hbracket
      · cases hparse
        rw [List.tail_append_of_ne_nil hskip]
        rfl
      · rw [except_bind_eq_ok] at hparse
        obtain ⟨p₂, hcomma, hparse⟩ := hparse
        rw [except_bind_eq_ok] at hparse
        obtain ⟨⟨xs', p₃⟩, hrest, hparse⟩ := hparse
        cases hparse
        rw [expect_append (by decide) hcomma, except_bind_ok,
          ih (by omega) hrest]
        rfl

theorem parseArray_local {α : Type}
    {item : List Char → Except Failure (α × List Char)}
    (hitem : LocalBefore item)
    (hend : ∀ x r, item [] = .ok (x, r) → r = []) :
    Local (parseArray item) := by
  intro p xs r q hparse
  rw [parseArray, except_bind_eq_ok] at hparse
  obtain ⟨p₁, hopen, hparse⟩ := hparse
  have hskip : skipWs p₁ ≠ [] := by
    intro hnil
    rw [hnil, if_neg (by decide), parseItems, except_bind_eq_ok] at hparse
    obtain ⟨⟨x, p₂⟩, hfirst, hparse⟩ := hparse
    obtain rfl := hend x p₂ hfirst
    dsimp only at hparse
    rw [if_neg (by decide), except_bind_eq_ok] at hparse
    obtain ⟨p₃, hcomma, _⟩ := hparse
    exact expect_nil (by decide) rfl hcomma
  rw [parseArray, expect_append (by decide) hopen, except_bind_ok,
    skipWs_append_right hskip, peek_append hskip]
  split_ifs at hparse ⊢ with hbracket
  · cases hparse
    rw [List.tail_append_of_ne_nil hskip]
    rfl
  · exact parseItems_local hitem (by simp) q hparse

theorem parseU32Array_local : Local parseU32Array := by
  apply parseArray_local parseU32_before
  intro x r hparse
  cases hparse
  rfl

theorem parseArray_nil {α : Type}
    (item : List Char → Except Failure (α × List Char)) (x : List α)
    (r : List Char) : parseArray item [] ≠ .ok (x, r) := by
  rw [parseArray, ne_eq, except_bind_eq_ok]
  rintro ⟨p, hopen, _⟩
  exact expect_nil (by decide) rfl hopen

theorem parseNodeAdj_local : Local parseNodeAdj := by
  intro p layers r q hparse
  rw [parseNodeAdj, except_bind_eq_ok] at hparse
  obtain ⟨p₁, hopen, hparse⟩ := hparse
  rw [except_bind_eq_ok] at hparse
  obtain ⟨⟨key, p₂⟩, hkey, hparse⟩ := hparse
  rw [parseNodeAdj, expect_append (by decide) hopen, except_bind_ok,
    parseKey_local p₁ key p₂ q hkey, except_bind_ok]
  dsimp only at hparse ⊢
  split_ifs at hparse ⊢ with hl
  · cases hparse
  · rw [except_bind_eq_ok] at hparse
    obtain ⟨p₃, hcolon, hparse⟩ := hparse
    rw [except_bind_eq_ok] at hparse
    obtain ⟨⟨layers', p₄⟩, harray, hparse⟩ := hparse
    rw [except_bind_eq_ok] at hparse
    obtain ⟨p₅, hclose, hparse⟩ := hparse
    cases hparse
    rw [expect_append (by decide) hcolon, except_bind_ok,
      parseArray_local parseU32Array_local.before
        (fun x r h => absurd h (parseArray_nil _ x r)) p₃ layers' p₄ q harray,
      except_bind_ok]
    dsimp only
    rw [expect_append (by decide) hclose]
    rfl

theorem parseNodeAdj_nil (x : List (List UInt32)) (r : List Char) :
    parseNodeAdj [] ≠ .ok (x, r) := by
  rw [parseNodeAdj, ne_eq, except_bind_eq_ok]
  rintro ⟨p, hopen, _⟩
  exact expect_nil (by decide) rfl hopen

theorem parseAdj_local : Local (parseArray parseNodeAdj) :=
  parseArray_local parseNodeAdj_local.before
    fun x r h => absurd h (parseNodeAdj_nil x r)

theorem parseValue_before (g : JsonGraph) (key : String) :
    LocalBefore (parseValue g key) := by
  intro p g' r q hparse hne
  unfold parseValue at hparse ⊢
  cases hfield : scalarField key with
  | some assign =>
      rw [hfield] at hparse
      dsimp only at hparse ⊢
      cases hread : parseInt p with
      | mk v r' =>
          rw [hread] at hparse
          cases hparse
          rw [parseInt_before q hread hne]
  | none =>
      rw [hfield] at hparse
      dsimp only at hparse ⊢
      split_ifs at hparse ⊢ with hadj
      · rw [except_bind_eq_ok] at hparse
        obtain ⟨⟨adj, p₁⟩, harray, hparse⟩ := hparse
        cases hparse
        rw [parseAdj_local p adj p₁ q harray]
        rfl
      · cases hparse
        rfl

theorem parseValue_nil {g g' : JsonGraph} {key : String} {r : List Char}
    (hparse : parseValue g key [] = .ok (g', r)) : r = [] := by
  unfold parseValue at hparse
  cases hfield : scalarField key with
  | some assign =>
      rw [hfield] at hparse
      cases hparse
      rfl
  | none =>
      rw [hfield] at hparse
      dsimp only at hparse
      split_ifs at hparse with hadj
      · rw [except_bind_eq_ok] at hparse
        obtain ⟨⟨adj, p₁⟩, harray, _⟩ := hparse
        exact absurd harray (parseArray_nil _ adj p₁)
      · cases hparse
        rfl

theorem parseMember_before (g : JsonGraph) : LocalBefore (parseMember g) := by
  intro p g' r q hparse hne
  rw [parseMember, except_bind_eq_ok] at hparse
  obtain ⟨⟨key, p₁⟩, hkey, hparse⟩ := hparse
  rw [except_bind_eq_ok] at hparse
  obtain ⟨p₂, hcolon, hparse⟩ := hparse
  have hskip : skipWs p₂ ≠ [] := by
    intro hnil
    rw [hnil] at hparse
    exact hne (parseValue_nil hparse)
  rw [parseMember, parseKey_local p key p₁ q hkey, except_bind_ok]
  dsimp only
  rw [expect_append (by decide) hcolon, except_bind_ok,
    skipWs_append_right hskip]
  exact parseValue_before g key _ g' r q hparse hne

theorem parseMember_nil {g g' : JsonGraph} {p r : List Char}
    (hskip : skipWs p = []) : parseMember g p ≠ .ok (g', r) := by
  rw [parseMember, ne_eq, except_bind_eq_ok]
  rintro ⟨⟨key, p₁⟩, hkey, _⟩
  rw [parseKey, except_bind_eq_ok] at hkey
  obtain ⟨p₂, hopen, _⟩ := hkey
  rw [expect_skipsBlanks] at hopen
  exact expect_nil (by decide) hskip hopen

theorem parseMembers_nil {fuel : ℕ} {g g' : JsonGraph} {p r : List Char}
    (hskip : skipWs p = []) : parseMembers fuel g p ≠ .ok (g', r) := by
  intro hparse
  cases fuel with
  | zero => simp [parseMembers] at hparse
  | succ fuel =>
      rw [parseMembers, hskip] at hparse
      dsimp only at hparse
      rw [if_neg (by decide), except_bind_eq_ok] at hparse
      obtain ⟨⟨g₁, p₁⟩, hmember, _⟩ := hparse
      exact parseMember_nil rfl hmember

theorem parseMembers_local {fuel fuel' : ℕ} (hfuel : fuel ≤ fuel')
    {g g' : JsonGraph} {p r : List Char} (q : List Char)
    (hparse : parseMembers fuel g p = .ok (g', r)) :
    parseMembers fuel' g (p ++ q) = .ok (g', r ++ q) := by
  induction fuel generalizing fuel' g p with
  | zero => simp [parseMembers] at hparse
  | succ fuel ih =>
      obtain ⟨fuel', rfl⟩ := Nat.exists_eq_add_of_le'
        ((Nat.le_add_left 1 fuel).trans hfuel)
      have hnext : ∀ s,
          (parseMember g s >>= fun x => parseMembers fuel x.1 x.2) =
            .ok (g', r) →
          (parseMember g (s ++ q) >>= fun x => parseMembers fuel' x.1 x.2) =
            .ok (g', r ++ q) := by
        intro s hs
        rw [except_bind_eq_ok] at hs
        obtain ⟨⟨g₁, p₁⟩, hmember, hrest⟩ := hs
        have hne : p₁ ≠ [] := by
          rintro rfl
          exact parseMembers_nil rfl hrest
        rw [parseMember_before g s g₁ p₁ q hmember hne, except_bind_ok]
        exact ih (by omega) hrest
      have hskip : skipWs p ≠ [] := fun hnil => parseMembers_nil hnil hparse
      rw [parseMembers] at hparse ⊢
      dsimp only at hparse ⊢
      rw [skipWs_append_right hskip, peek_append hskip]
      split_ifs at hparse ⊢ with hclose hcomma
      · cases hparse
        rw [List.tail_append_of_ne_nil hskip]
        rfl
      · have hblanks : skipWs (skipWs p).tail ≠ [] := by
          intro hnil
          rw [hnil, except_bind_eq_ok] at hparse
          obtain ⟨⟨g₁, p₁⟩, hmember, _⟩ := hparse
          exact parseMember_nil rfl hmember
        rw [List.tail_append_of_ne_nil hskip, skipWs_append_right hblanks]
        exact hnext _ hparse
      · exact hnext _ hparse

theorem parseText_local : Local parseText := by
  intro p g r q hparse
  rw [parseText, except_bind_eq_ok] at hparse
  obtain ⟨p₁, hopen, hparse⟩ := hparse
  rw [parseText, expect_append (by decide) hopen, except_bind_ok]
  exact parseMembers_local (by simp) q hparse

/-- A beginning of a written graph that parses lacks at most what follows the
closing brace, and gives the same graph. -/
theorem parseText_of_prefix {V : Type} {index : HNSWIndex V}
    {p q r rest : List Char} {g : JsonGraph}
    (hsplit : p ++ q = graphText index rest)
    (hparse : parseText p = .ok (g, r)) :
    g = graphOf index ∧ r ++ q = rest := by
  have hwhole := parseText_local p g r q hparse
  rw [hsplit, parseText_graphText] at hwhole
  cases hwhole
  exact ⟨rfl, rfl⟩

theorem graphText_append {V : Type} (index : HNSWIndex V)
    (rest : List Char) :
    graphText index rest = graphText index [] ++ rest := by
  unfold graphText adjText
  rw [List.cons_append]
  generalize "\n".toList = open₀
  generalize "  \"adj\": [\n".toList = open₁
  generalize "  ]\n\x7d".toList = close
  simp only [List.append_nil, List.append_assoc]

/-- A file that the writer did not finish parses if and only if it lacks at
most the last line feed. -/
theorem parseText_take_iff {V : Type} (index : HNSWIndex V) (count : ℕ) :
    (∃ g r, parseText ((writeJsonGraph index).take count) = .ok (g, r)) ↔
      (writeJsonGraph index).length ≤ count + 1 := by
  constructor
  · rintro ⟨g, r, hparse⟩
    have hsplit := List.take_append_drop count (writeJsonGraph index)
    rw [writeJsonGraph_eq] at hsplit hparse
    obtain ⟨_, hrest⟩ := parseText_of_prefix hsplit hparse
    have hlength := congrArg List.length hrest
    rw [List.length_append, List.length_drop,
      show "\n".toList.length = 1 from rfl] at hlength
    rw [writeJsonGraph_eq]
    omega
  · intro hle
    rw [writeJsonGraph_eq, graphText_append] at hle ⊢
    rw [List.length_append, show "\n".toList.length = 1 from rfl] at hle
    rw [List.take_append, List.take_of_length_le (by omega),
      ← graphText_append]
    exact ⟨_, _, parseText_graphText index _⟩

theorem parseText_take {V : Type} {index : HNSWIndex V} {count : ℕ}
    {g : JsonGraph} {r : List Char}
    (hparse : parseText ((writeJsonGraph index).take count) = .ok (g, r)) :
    g = graphOf index := by
  have hsplit := List.take_append_drop count (writeJsonGraph index)
  rw [writeJsonGraph_eq] at hsplit hparse
  obtain ⟨hg, _⟩ := parseText_of_prefix hsplit hparse
  exact hg

end GraphText
end VecDB
