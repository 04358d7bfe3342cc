import VecDB.GraphPrefix
import Mathlib.Tactic

/-!
# Every loop of the graph parser ends

No part of the parser reads backwards, and every turn of a loop reads at least
the comma or the key that leads to the next.  What the parser does not accept
it therefore refuses with an exception.
-/

namespace VecDB

/-- A failure that reaches the caller as an exception. -/
def Failure.Thrown (e : Failure) : Prop :=
  e ≠ .accessViolation ∧ e ≠ .nonTermination

instance (e : Failure) : Decidable e.Thrown :=
  inferInstanceAs (Decidable (_ ∧ _))

theorem Failure.thrown_runtimeError (what : String) :
    (Failure.runtimeError what).Thrown :=
  ⟨by simp, by simp⟩

namespace GraphText

structure Ends {α : Type} (parse : List Char → Except Failure (α × List Char)) :
    Prop where
  length_le : ∀ p x r, parse p = .ok (x, r) → r.length ≤ p.length
  thrown : ∀ p e, parse p = .error e → e.Thrown

theorem skipWs_length_le (p : List Char) : (skipWs p).length ≤ p.length :=
  (List.dropWhile_sublist isWs).length_le

theorem expect_thrown {c : Char} {p : List Char} {e : Failure}
    (h : expect c p = .error e) : e.Thrown := by
  unfold expect at h
  dsimp only at h
  split_ifs at h
  cases h
  exact Failure.thrown_runtimeError _

theorem expect_length_lt {c : Char} (hc : c ≠ '\x00') {p r : List Char}
    (h : expect c p = .ok r) : r.length < p.length := by
  have hskip := (expect_eq_ok hc).mp h
  have hle := skipWs_length_le p
  rw [hskip, List.length_cons] at hle
  omega

theorem parseKey_length_lt {p r : List Char} {key : String}
    (h : parseKey p = .ok (key, r)) : r.length < p.length := by
  obtain ⟨q, hopen, h⟩ := except_bind_eq_ok.mp h
  obtain ⟨q', hclose, h⟩ := except_bind_eq_ok.mp h
  cases h
  have hlt := expect_length_lt (by decide) hopen
  have hlt' := expect_length_lt (by decide) hclose
  have hdrop := (List.dropWhile_sublist isKeyChar (l := q)).length_le
  have hskip := skipWs_length_le p
  omega

theorem parseKey_ends : Ends parseKey where
  length_le := fun _ _ _ h => (parseKey_length_lt h).le
  thrown := by
    intro p e h
    rcases except_bind_eq_error h with h | ⟨q, _, h⟩
    · exact expect_thrown h
    · rcases except_bind_eq_error h with h | ⟨q', _, h⟩
      · exact expect_thrown h
      · cases h

theorem readDigits_length_le (v : Int64) (p : List Char) :
    (readDigits v p).2.length ≤ p.length := by
  induction p generalizing v with
  | nil => exact le_rfl
  | cons c p ih =>
      unfold readDigits
      split_ifs
      · exact (ih _).trans (Nat.le_succ _)
      · exact le_rfl

theorem parseInt_length_le (p : List Char) :
    (parseInt p).2.length ≤ p.length := by
  have hskip := skipWs_length_le p
  unfold parseInt
  dsimp only
  split_ifs
  · have hdigits := readDigits_length_le 0 (skipWs p).tail
    rw [List.length_tail] at hdigits
    exact hdigits.trans (by omega)
  · exact (readDigits_length_le 0 _).trans hskip

theorem parseU32_ends : Ends parseU32 where
  length_le := by
    intro p x r h
    cases h
    exact parseInt_length_le p
  thrown := by
    intro p e h
    cases h

/-! ## Arrays -/

section Array

variable {α : Type} {item : List Char → Except Failure (α × List Char)}

/-- An item may be empty, but not the comma in front of the next. -/
theorem parseItems_ends (hitem : Ends item) (fuel : ℕ) {p : List Char}
    (hfuel : p.length < fuel) :
    (∀ xs r, parseItems item fuel p = .ok (xs, r) → r.length ≤ p.length) ∧
      ∀ e, parseItems item fuel p = .error e → e.Thrown := by
  induction fuel generalizing p with
  | zero => omega
  | succ fuel ih =>
      have hread : ∀ x q, item p = .ok (x, q) → q.length ≤ p.length :=
        fun x q => hitem.length_le p x q
      have hnext : ∀ x q q', item p = .ok (x, q) →
          expect ',' (skipWs q) = .ok q' → q'.length < p.length := by
        intro x q q' hx hq'
        have hlt := expect_length_lt (by decide) hq'
        exact hlt.trans_le ((skipWs_length_le q).trans (hread x q hx))
      constructor
      · intro xs r h
        obtain ⟨⟨x, q⟩, hx, h⟩ := except_bind_eq_ok.mp h
        dsimp only at h
        split_ifs at h
        · cases h
          have hle := hread x q hx
          have hskip := skipWs_length_le q
          rw [List.length_tail]
          omega
        · obtain ⟨q', hq', h⟩ := except_bind_eq_ok.mp h
          obtain ⟨⟨ys, r'⟩, hys, h⟩ := except_bind_eq_ok.mp h
          cases h
          have hlt := hnext x q q' hx hq'
          exact ((ih (by omega)).1 ys r' hys).trans hlt.le
      · intro e h
        rcases except_bind_eq_error h with h | ⟨⟨x, q⟩, hx, h⟩
        · exact hitem.thrown p e h
        · dsimp only at h
          split_ifs at h
          · cases h
          · rcases except_bind_eq_error h with h | ⟨q', hq', h⟩
            · exact expect_thrown h
            · have hlt := hnext x q q' hx hq'
              rcases except_bind_eq_error h with h | ⟨ys, _, h⟩
              · exact (ih (by omega)).2 e h
              · cases h

theorem parseArray_ends (hitem : Ends item) : Ends (parseArray item) where
  length_le := by
    intro p xs r h
    obtain ⟨q, hq, h⟩ := except_bind_eq_ok.mp h
    have hlt := expect_length_lt (by decide) hq
    have hskip := skipWs_length_le q
    split_ifs at h
    · cases h
      rw [List.length_tail]
      omega
    · have hle := (parseItems_ends hitem _ (by omega)).1 xs r h
      omega
  thrown := by
    intro p e h
    rcases except_bind_eq_error h with h | ⟨q, _, h⟩
    · exact expect_thrown h
    · have hskip := skipWs_length_le q
      split_ifs at h
      · cases h
      · exact (parseItems_ends hitem _ (by omega)).2 e h

end Array

theorem parseNodeAdj_ends : Ends parseNodeAdj where
  length_le := by
    intro p lists r h
    obtain ⟨q₁, h₁, h⟩ := except_bind_eq_ok.mp h
    obtain ⟨⟨key, q₂⟩, h₂, h⟩ := except_bind_eq_ok.mp h
    dsimp only at h
    split_ifs at h
    · cases h
    · obtain ⟨q₃, h₃, h⟩ := except_bind_eq_ok.mp h
      obtain ⟨⟨layers, q₄⟩, h₄, h⟩ := except_bind_eq_ok.mp h
      obtain ⟨q₅, h₅, h⟩ := except_bind_eq_ok.mp h
      cases h
      have hlt₁ := expect_length_lt (by decide) h₁
      have hlt₂ := parseKey_length_lt h₂
      have hlt₃ := expect_length_lt (by decide) h₃
      have hle₄ := (parseArray_ends
        (parseArray_ends parseU32_ends)).length_le q₃ layers q₄ h₄
      have hlt₅ := expect_length_lt (by decide) h₅
      dsimp only at hlt₃ hlt₅
      omega
  thrown := by
    intro p e h
    rcases except_bind_eq_error h with h | ⟨q₁, _, h⟩
    · exact expect_thrown h
    rcases except_bind_eq_error h with h | ⟨⟨key, q₂⟩, _, h⟩
    · exact parseKey_ends.thrown _ e h
    dsimp only at h
    split_ifs at h
    · cases h
      exact Failure.thrown_runtimeError _
    rcases except_bind_eq_error h with h | ⟨q₃, _, h⟩
    · exact expect_thrown h
    rcases except_bind_eq_error h with h | ⟨⟨layers, q₄⟩, _, h⟩
    · exact (parseArray_ends (parseArray_ends parseU32_ends)).thrown _ e h
    rcases except_bind_eq_error h with h | ⟨q₅, _, h⟩
    · exact expect_thrown h
    · cases h

/-! ## Members -/

theorem parseValue_ends (g : JsonGraph) (key : String) :
    Ends (parseValue g key) := by
  have hadj := parseArray_ends parseNodeAdj_ends
  constructor
  · intro p x r h
    unfold parseValue at h
    split at h
    · cases h
      exact parseInt_length_le p
    · split_ifs at h
      · obtain ⟨⟨adj, q⟩, hq, h⟩ := except_bind_eq_ok.mp h
        cases h
        exact hadj.length_le p adj r hq
      · cases h
        exact le_rfl
  · intro p e h
    unfold parseValue at h
    split at h
    · cases h
    · split_ifs at h
      rcases except_bind_eq_error h with h | ⟨⟨adj, q⟩, _, h⟩
      · exact hadj.thrown p e h
      · cases h

theorem parseMember_length_lt {g g' : JsonGraph} {p r : List Char}
    (h : parseMember g p = .ok (g', r)) : r.length < p.length := by
  obtain ⟨⟨key, q⟩, hkey, h⟩ := except_bind_eq_ok.mp h
  obtain ⟨q', hcolon, h⟩ := except_bind_eq_ok.mp h
  have hlt := parseKey_length_lt hkey
  have hlt' := expect_length_lt (by decide) hcolon
  have hle := (parseValue_ends g key).length_le _ _ _ h
  have hskip := skipWs_length_le q'
  omega

theorem parseMember_thrown {g : JsonGraph} {p : List Char} {e : Failure}
    (h : parseMember g p = .error e) : e.Thrown := by
  rcases except_bind_eq_error h with h | ⟨⟨key, q⟩, _, h⟩
  · exact parseKey_ends.thrown p e h
  rcases except_bind_eq_error h with h | ⟨q', _, h⟩
  · exact expect_thrown h
  · exact (parseValue_ends g key).thrown _ e h

theorem parseMembers_thrown (fuel : ℕ) {g : JsonGraph} {p : List Char}
    (hfuel : p.length < fuel) {e : Failure}
    (h : parseMembers fuel g p = .error e) : e.Thrown := by
  induction fuel generalizing g p with
  | zero => omega
  | succ fuel ih =>
      have hskip := skipWs_length_le p
      unfold parseMembers at h
      dsimp only at h
      split_ifs at h with hclose hcomma
      · cases h
      · rcases except_bind_eq_error h with h | ⟨⟨g', r⟩, hmember, h⟩
        · exact parseMember_thrown h
        · have hlt := parseMember_length_lt hmember
          have hskip' := skipWs_length_le (skipWs p).tail
          rw [List.length_tail] at hskip'
          dsimp only at h
          exact ih (by omega) h
      · rcases except_bind_eq_error h with h | ⟨⟨g', r⟩, hmember, h⟩
        · exact parseMember_thrown h
        · have hlt := parseMember_length_lt hmember
          dsimp only at h
          exact ih (by omega) h

/-- A text that is not accepted is refused with an exception. -/
theorem parseText_thrown {p : List Char} {e : Failure}
    (h : parseText p = .error e) : e.Thrown := by
  rcases except_bind_eq_error h with h | ⟨q, _, h⟩
  · exact expect_thrown h
  · exact parseMembers_thrown _ (Nat.lt_succ_self _) h

theorem parseJsonGraph_thrown {path : String} {content : Option (List Char)}
    {e : Failure} (h : parseJsonGraph path content = .error e) : e.Thrown := by
  cases content with
  | none =>
      cases h
      exact Failure.thrown_runtimeError _
  | some p =>
      rcases except_bind_eq_error h with h | ⟨⟨g, r⟩, _, h⟩
      · exact parseText_thrown h
      · cases h

end GraphText
end VecDB
