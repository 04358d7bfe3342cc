import VecDB.GraphText
import Mathlib.Tactic

/-!
# Reading back the graph file

`Parses parse text x`: the parser reads `x` off the front of `text` and stops
at its end.  The writer's text is put together from pieces that parse, up to
the whole file.
-/

namespace VecDB
namespace GraphText

def Blank (text : List Char) : Prop := ∀ c ∈ text, isWs c = true

theorem blank_of_all {text : List Char} (hall : text.all isWs = true) :
    Blank text :=
  List.all_eq_true.mp hall

/-- What follows does not continue a numeral. -/
def Delimited (rest : List Char) : Prop := (peek rest).isDigit = false

def Parses {α : Type} (parse : List Char → Except Failure (α × List Char))
    (text : List Char) (x : α) : Prop :=
  ∀ rest, Delimited rest → parse (text ++ rest) = .ok (x, rest)

/-- The parser begins by skipping blanks. -/
def SkipsBlanks {β : Type} (parse : List Char → β) : Prop :=
  ∀ p, parse (skipWs p) = parse p

/-! ## Characters -/

@[simp] theorem peek_cons (c : Char) (p : List Char) : peek (c :: p) = c := rfl

theorem skipWs_append {lead : List Char} (hlead : Blank lead)
    (p : List Char) : skipWs (lead ++ p) = skipWs p :=
  List.dropWhile_append_of_pos hlead

theorem skipWs_cons {c : Char} (hc : isWs c = false) (p : List Char) :
    skipWs (c :: p) = c :: p := by
  simp [skipWs, hc]

theorem skipWs_skipWs (p : List Char) : skipWs (skipWs p) = skipWs p := by
  induction p with
  | nil => rfl
  | cons c p ih =>
      cases hc : isWs c with
      | true =>
          have hskip : skipWs (c :: p) = skipWs p := by simp [skipWs, hc]
          rw [hskip, ih]
      | false => rw [skipWs_cons hc, skipWs_cons hc]

theorem expect_cons {c : Char} (hc : isWs c = false) (p : List Char) :
    expect c (c :: p) = .ok p := by
  unfold expect
  rw [skipWs_cons hc]
  simp

theorem SkipsBlanks.append {β : Type} {parse : List Char → β}
    (h : SkipsBlanks parse) {lead : List Char} (hlead : Blank lead)
    (p : List Char) : parse (lead ++ p) = parse p := by
  rw [← h (lead ++ p), skipWs_append hlead, h]

theorem expect_skipsBlanks (c : Char) : SkipsBlanks (expect c) := by
  intro p
  unfold expect
  rw [skipWs_skipWs]

theorem parseKey_skipsBlanks : SkipsBlanks parseKey := by
  intro p
  unfold parseKey
  rw [skipWs_skipWs]

theorem parseKey_cons {key : String}
    (hkey : ∀ c ∈ key.toList, isKeyChar c = true) (p : List Char) :
    parseKey ('"' :: (key.toList ++ '"' :: p)) = .ok (key, p) := by
  have hquote : isKeyChar '"' = false := by decide
  unfold parseKey
  rw [skipWs_cons (by decide), expect_cons (by decide)]
  dsimp only [bind, Except.bind]
  rw [List.takeWhile_append_of_pos hkey, List.dropWhile_append_of_pos hkey,
    List.takeWhile_cons_of_neg (by simp [hquote]),
    List.dropWhile_cons_of_neg (by simp [hquote]), expect_cons (by decide)]
  simp [pure, Except.pure]

/-! ## Numerals -/

theorem readDigits_append {ds : List Char}
    (hds : ∀ c ∈ ds, c.isDigit = true) {rest : List Char}
    (hrest : Delimited rest) (n : ℕ) :
    readDigits (Int64.ofNat n) (ds ++ rest) =
      (Int64.ofNat (Nat.ofDigitChars 10 ds n), rest) := by
  induction ds generalizing n with
  | nil =>
      rw [List.nil_append, Nat.ofDigitChars_nil]
      cases rest with
      | nil => rfl
      | cons c rest =>
          have hc : c.isDigit = false := hrest
          simp [readDigits, hc]
  | cons d ds ih =>
      have hd : d.isDigit = true := hds d (by simp)
      have hvalue : Int64.ofNat n * 10 + Int64.ofNat (d.toNat - '0'.toNat) =
          Int64.ofNat (10 * n + (d.toNat - '0'.toNat)) := by
        rw [Int64.ofNat_add, Int64.ofNat_mul, Int64.mul_comm]
        rfl
      rw [List.cons_append, readDigits, if_pos hd, hvalue,
        ih (fun c hc => hds c (by simp [hc])), Nat.ofDigitChars_cons]

theorem readDigits_natText (n : ℕ) {rest : List Char}
    (hrest : Delimited rest) :
    readDigits 0 (natText n ++ rest) = (Int64.ofNat n, rest) := by
  have hds : ∀ c ∈ natText n, c.isDigit = true :=
    fun c hc => Nat.isDigit_of_mem_toDigits (by decide) (by decide) hc
  have hdigits := readDigits_append hds hrest 0
  unfold natText at hdigits ⊢
  rw [Nat.ofDigitChars_ten_toDigits] at hdigits
  exact hdigits

theorem natText_eq_cons (n : ℕ) :
    ∃ d ds, natText n = d :: ds ∧ d.isDigit = true := by
  obtain ⟨d, ds, htext⟩ := List.exists_cons_of_ne_nil
    (Nat.toDigits_ne_nil (n := n) (b := 10))
  refine ⟨d, ds, htext, ?_⟩
  apply Nat.isDigit_of_mem_toDigits (b := 10) (n := n) (by decide) (by decide)
  rw [htext]
  exact List.mem_cons_self

theorem isWs_of_isDigit {c : Char} (hc : c.isDigit = true) :
    isWs c = false := by
  by_contra hws
  simp only [Bool.not_eq_false, isWs, decide_eq_true_eq] at hws
  rcases hws with rfl | rfl | rfl | rfl <;> simp at hc

theorem parseInt_intText (i : ℤ) {rest : List Char}
    (hrest : Delimited rest) :
    parseInt (intText i ++ rest) = (Int64.ofInt i, rest) := by
  unfold parseInt
  cases i with
  | ofNat n =>
      obtain ⟨d, ds, htext, hd⟩ := natText_eq_cons n
      have hneg : d ≠ '-' := by
        rintro rfl
        simp at hd
      have hdigits := readDigits_natText n hrest
      rw [intText, htext, List.cons_append, skipWs_cons (isWs_of_isDigit hd)]
      dsimp only
      rw [peek_cons, if_neg hneg, ← List.cons_append, ← htext, hdigits]
      rfl
  | negSucc n =>
      rw [intText, List.cons_append, skipWs_cons (by decide)]
      dsimp only
      rw [peek_cons, if_pos rfl, List.tail_cons,
        readDigits_natText (n + 1) hrest]
      dsimp only
      rw [← Int64.ofInt_eq_ofNat, Int64.neg_ofInt]
      rfl

theorem parses_natText (n : ℕ) :
    Parses parseU32 (natText n) (UInt32.ofNat n) := by
  intro rest hrest
  have hint := parseInt_intText (Int.ofNat n) hrest
  rw [intText] at hint
  unfold parseU32
  rw [hint]
  have hcast : (Int64.ofInt (Int.ofNat n)).toUInt64.toUInt32 =
      UInt32.ofNat n := by
    rw [show Int.ofNat n = (n : ℤ) from rfl, Int64.ofInt_eq_ofNat,
      Int64.toUInt64_ofNat', UInt64.toUInt32_ofNat']
  dsimp only
  rw [hcast]

theorem parseInt_skipsBlanks : SkipsBlanks parseInt := by
  intro p
  unfold parseInt
  rw [skipWs_skipWs]

theorem parseU32_skipsBlanks : SkipsBlanks parseU32 := by
  intro p
  unfold parseU32
  rw [parseInt_skipsBlanks]

/-! ## Arrays -/

theorem delimited_cons {c : Char} (hc : c.isDigit = false)
    (rest : List Char) : Delimited (c :: rest) := hc

theorem delimited_append {trail : List Char} (htrail : Blank trail) {c : Char}
    (hc : c.isDigit = false) (rest : List Char) :
    Delimited (trail ++ c :: rest) := by
  cases trail with
  | nil => exact hc
  | cons d trail =>
      have hd : isWs d = true := htrail d (by simp)
      have hdigit : d.isDigit = false := by
        by_contra hnot
        have hws := isWs_of_isDigit (Bool.eq_true_of_not_eq_false hnot)
        rw [hd] at hws
        cases hws
      exact hdigit

theorem separated_cons (sep text text' : List Char)
    (texts : List (List Char)) :
    separated sep (text :: text' :: texts) =
      text ++ (sep ++ separated sep (text' :: texts)) := rfl

section Items

variable {α : Type} {item : List Char → Except Failure (α × List Char)}
  {ws trail : List Char} {xs : List α} {texts : List (List Char)}

theorem parseItems_skipsBlanks (hskip : SkipsBlanks item) (fuel : ℕ) :
    SkipsBlanks (parseItems item fuel) := by
  intro p
  cases fuel with
  | zero => rfl
  | succ fuel =>
      unfold parseItems
      rw [hskip]

/-- Items with `,` and blanks between them, up to the bracket. -/
theorem parseItems_separated (hskip : SkipsBlanks item) (hws : Blank ws)
    (htrail : Blank trail)
    (hparse : List.Forall₂ (fun x text => Parses item text x) xs texts)
    (hne : xs ≠ []) {fuel : ℕ} (hfuel : xs.length ≤ fuel)
    (rest : List Char) :
    parseItems item fuel (separated (',' :: ws) texts ++
      (trail ++ ']' :: rest)) = .ok (xs, rest) := by
  induction hparse generalizing fuel with
  | nil => exact absurd rfl hne
  | @cons x text xs texts hitem hparse ih =>
      obtain ⟨fuel, rfl⟩ : ∃ k, fuel = k + 1 :=
        Nat.exists_eq_add_of_le' (by simp at hfuel; omega)
      cases hparse with
      | nil =>
          unfold parseItems separated
          rw [hitem _ (delimited_append htrail (by decide) rest)]
          dsimp only [bind, Except.bind]
          rw [skipWs_append htrail, skipWs_cons (by decide)]
          simp [pure, Except.pure]
      | @cons y text' xs texts hitem' hparse =>
          have hlength : (y :: xs).length ≤ fuel := by simpa using hfuel
          have hrest := ih (by simp) hlength
          rw [separated_cons, List.append_assoc, List.append_assoc, List.cons_append]
          unfold parseItems
          rw [hitem _ (delimited_cons (by decide) _)]
          dsimp only [bind, Except.bind]
          rw [skipWs_cons (by decide), peek_cons, if_neg (by decide),
            expect_cons (by decide)]
          dsimp only
          rw [(parseItems_skipsBlanks hskip fuel).append hws, hrest]
          rfl

theorem length_le_separated {sep : List Char} (hsep : sep ≠ [])
    (texts : List (List Char)) :
    texts.length ≤ (separated sep texts).length + 1 := by
  have hpos : 0 < sep.length := List.length_pos_iff.mpr hsep
  induction texts with
  | nil => simp
  | cons text texts ih =>
      cases texts with
      | nil => simp
      | cons text' texts =>
          simp only [separated, List.length_append, List.length_cons] at ih ⊢
          omega

theorem parseArray_skipsBlanks : SkipsBlanks (parseArray item) := by
  intro p
  unfold parseArray
  rw [expect_skipsBlanks]

theorem parseArray_separated (hskip : SkipsBlanks item) {first : List Char}
    (hfirst : Blank first) (hws : Blank ws) (htrail : Blank trail)
    (hparse : List.Forall₂ (fun x text => Parses item text x) xs texts)
    (hstart : ∀ text ∈ texts, ∀ rest, peek (skipWs (text ++ rest)) ≠ ']') :
    Parses (parseArray item) ('[' :: (first ++ (separated (',' :: ws) texts ++
      (trail ++ [']'])))) xs := by
  intro rest _
  have hitems := parseItems_separated hskip hws htrail hparse
  have hlength := hparse.length_eq
  unfold parseArray
  rw [List.cons_append, expect_cons (by decide)]
  dsimp only [bind, Except.bind]
  simp only [List.append_assoc, List.singleton_append]
  rw [skipWs_append hfirst]
  cases texts with
  | nil =>
      cases hparse
      rw [separated, List.nil_append, skipWs_append htrail,
        skipWs_cons (by decide)]
      simp [pure, Except.pure]
  | cons text texts =>
      have hne : xs ≠ [] := by
        rintro rfl
        cases hparse
      have hbracket : peek (skipWs (separated (',' :: ws) (text :: texts) ++
          (trail ++ ']' :: rest))) ≠ ']' := by
        cases texts with
        | nil => exact hstart text (by simp) _
        | cons text' texts =>
            rw [separated_cons, List.append_assoc]
            exact hstart text (by simp) _
      rw [if_neg hbracket, parseItems_skipsBlanks hskip]
      apply hitems hne
      have hcount := length_le_separated (List.cons_ne_nil ',' ws)
        (text :: texts)
      simp only [List.length_append] at hcount ⊢
      omega

end Items

theorem blank_nil : Blank [] := by
  simp [Blank]

theorem parses_listText (nbrs : List ℕ) :
    Parses parseU32Array (listText nbrs) (nbrs.map UInt32.ofNat) := by
  have hparse : List.Forall₂ (fun x text => Parses parseU32 text x)
      (nbrs.map UInt32.ofNat) (nbrs.map natText) := by
    rw [List.forall₂_map_left_iff, List.forall₂_map_right_iff,
      List.forall₂_same]
    exact fun n _ => parses_natText n
  apply parseArray_separated parseU32_skipsBlanks blank_nil blank_nil blank_nil
    hparse
  intro text htext rest
  obtain ⟨n, _, rfl⟩ := List.mem_map.mp htext
  obtain ⟨d, ds, hcons, hd⟩ := natText_eq_cons n
  rw [hcons, List.cons_append, skipWs_cons (isWs_of_isDigit hd), peek_cons]
  rintro rfl
  simp at hd

theorem parseNodeAdj_skipsBlanks : SkipsBlanks parseNodeAdj := by
  intro p
  unfold parseNodeAdj
  rw [expect_skipsBlanks]

/-- The lists of a node, layer by layer. -/
def nodeLists {V : Type} (index : HNSWIndex V) (node : ℕ) : List (List ℕ) :=
  (List.range (index.layerCountFor node)).map (index.neighboursAt node)

/-- The lists of a node as the parser returns them. -/
def nodeAdj {V : Type} (index : HNSWIndex V) (node : ℕ) :
    List (List UInt32) :=
  (nodeLists index node).map fun nbrs => nbrs.map UInt32.ofNat

theorem nodeText_eq {V : Type} (index : HNSWIndex V) (node : ℕ) :
    nodeText index node = "    ".toList ++ ('\x7b' :: '"' :: ("l".toList ++
      '"' :: ':' :: ('[' :: ([] ++ (separated [',']
        ((nodeLists index node).map listText) ++ ([] ++ [']']))) ++
          ['\x7d']))) := by
  unfold nodeText nodeLists
  rw [List.map_map]
  simp [Function.comp_def]

theorem parses_nodeText {V : Type} (index : HNSWIndex V) (node : ℕ) :
    Parses parseNodeAdj (nodeText index node) (nodeAdj index node) := by
  intro rest _
  have hparse : List.Forall₂ (fun x text => Parses parseU32Array text x)
      (nodeAdj index node) ((nodeLists index node).map listText) := by
    unfold nodeAdj
    rw [List.forall₂_map_left_iff, List.forall₂_map_right_iff,
      List.forall₂_same]
    exact fun nbrs _ => parses_listText nbrs
  have hskip : SkipsBlanks parseU32Array := parseArray_skipsBlanks
  have harray := parseArray_separated hskip blank_nil blank_nil
    blank_nil hparse (by
      intro text htext rest
      obtain ⟨nbrs, _, rfl⟩ := List.mem_map.mp htext
      unfold listText
      rw [List.append_assoc]
      change peek (skipWs ('[' :: _)) ≠ ']'
      rw [skipWs_cons (by decide), peek_cons]
      decide)
  have hblank : Blank "    ".toList := blank_of_all (by decide)
  have hkey : ∀ c ∈ "l".toList, isKeyChar c = true :=
    List.all_eq_true.mp (by decide)
  rw [nodeText_eq, List.append_assoc,
    parseNodeAdj_skipsBlanks.append hblank]
  simp only [List.cons_append, List.append_assoc]
  unfold parseNodeAdj
  rw [expect_cons (by decide)]
  dsimp only [bind, Except.bind]
  rw [parseKey_cons hkey]
  dsimp only
  rw [if_neg (by decide), expect_cons (by decide)]
  dsimp only
  have hread := harray ('\x7d' :: rest) (delimited_cons (by decide) rest)
  simp only [List.cons_append, List.append_assoc, List.nil_append] at hread ⊢
  rw [hread]
  dsimp only
  rw [expect_cons (by decide)]
  rfl

theorem rows_eq (nodes : List (List Char)) :
    ∃ trail, Blank trail ∧ rows nodes ++ "  ]".toList =
      separated (',' :: "\n".toList) nodes ++ (trail ++ [']']) := by
  unfold rows
  split_ifs with hnodes
  · subst hnodes
    refine ⟨"  ".toList, ?_, rfl⟩
    exact blank_of_all (by decide)
  · refine ⟨"\n  ".toList, ?_, ?_⟩
    · exact blank_of_all (by decide)
    · rw [List.append_assoc]
      rfl

theorem parses_adj {V : Type} (index : HNSWIndex V) (nodes : List ℕ) :
    Parses (parseArray parseNodeAdj) ("[\n".toList ++
      (rows (nodes.map (nodeText index)) ++ "  ]".toList))
      (nodes.map (nodeAdj index)) := by
  have hblank : Blank "\n".toList := blank_of_all (by decide)
  obtain ⟨trail, htrail, hrows⟩ := rows_eq (nodes.map (nodeText index))
  have hparse : List.Forall₂ (fun x text => Parses parseNodeAdj text x)
      (nodes.map (nodeAdj index)) (nodes.map (nodeText index)) := by
    rw [List.forall₂_map_left_iff, List.forall₂_map_right_iff,
      List.forall₂_same]
    exact fun node _ => parses_nodeText index node
  rw [hrows]
  apply parseArray_separated parseNodeAdj_skipsBlanks hblank hblank htrail
    hparse
  intro text htext rest
  obtain ⟨node, _, rfl⟩ := List.mem_map.mp htext
  have hspaces : Blank "    ".toList := blank_of_all (by decide)
  rw [nodeText_eq, List.append_assoc, skipWs_append hspaces, List.cons_append,
    skipWs_cons (by decide), peek_cons]
  decide

/-! ## Members -/

/-- What stands before a member: the opening brace is followed by blanks, and
every value by a comma and blanks. -/
def Lead (lead : List Char) : Prop :=
  Blank lead ∨ ∃ blanks, Blank blanks ∧ lead = ',' :: blanks

theorem parseMember_cons {key : String}
    (hkey : ∀ c ∈ key.toList, isKeyChar c = true) (g : JsonGraph)
    (p : List Char) :
    parseMember g ('"' :: (key.toList ++ '"' :: ':' :: p)) =
      parseValue g key (skipWs p) := by
  unfold parseMember
  rw [parseKey_cons hkey]
  dsimp only [bind, Except.bind]
  rw [expect_cons (by decide)]

theorem parseMembers_append {lead : List Char} (hlead : Lead lead) (fuel : ℕ)
    {g g' : JsonGraph} {p p' : List Char}
    (hmember : parseMember g ('"' :: p) = .ok (g', p')) :
    parseMembers (fuel + 1) g (lead ++ '"' :: p) =
      parseMembers fuel g' p' := by
  rw [parseMembers]
  dsimp only [bind, Except.bind]
  rcases hlead with hblank | ⟨blanks, hblank, rfl⟩
  · rw [skipWs_append hblank, skipWs_cons (by decide), peek_cons,
      if_neg (by decide), if_neg (by decide), hmember]
  · rw [List.cons_append, skipWs_cons (by decide), peek_cons,
      if_neg (by decide), if_pos rfl, List.tail_cons, skipWs_append hblank,
      skipWs_cons (by decide), hmember]

/-- The graph after scalar members. -/
def assignAll (g : JsonGraph) (members : List (String × ℤ)) : JsonGraph :=
  members.foldl (fun g member =>
    match scalarField member.1 with
    | some assign => assign g (Int64.ofInt member.2)
    | none => g) g

theorem parseMember_scalar {key : String}
    (hkey : ∀ c ∈ key.toList, isKeyChar c = true)
    {assign : JsonGraph → Int64 → JsonGraph}
    (hassign : scalarField key = some assign) (g : JsonGraph) (value : ℤ)
    (p : List Char) :
    parseMember g ('"' :: (key.toList ++ ("\": ".toList ++
        (intText value ++ ',' :: p)))) =
      .ok (assign g (Int64.ofInt value), ',' :: p) := by
  have hcolon : "\": ".toList ++ (intText value ++ ',' :: p) =
      '"' :: ':' :: (" ".toList ++ (intText value ++ ',' :: p)) := rfl
  have hblank : Blank " ".toList := blank_of_all (by decide)
  rw [hcolon, parseMember_cons hkey, parseValue, hassign]
  dsimp only
  rw [parseInt_skipsBlanks, parseInt_skipsBlanks.append hblank,
    parseInt_intText value (delimited_cons (by decide) p)]

theorem parseMembers_scalars {members : List (String × ℤ)}
    (hkeys : ∀ member ∈ members,
      (∀ c ∈ member.1.toList, isKeyChar c = true) ∧
        ∃ assign, scalarField member.1 = some assign)
    {lead : List Char} (hlead : lead = "\n".toList ∨ lead = ",\n".toList)
    (fuel : ℕ) (g : JsonGraph) (p : List Char) :
    ∃ lead', (lead' = "\n".toList ∨ lead' = ",\n".toList) ∧
      parseMembers (fuel + members.length) g (lead ++
        (members.flatMap (fun member => memberText member.1 member.2) ++ p)) =
      parseMembers fuel (assignAll g members) (lead' ++ p) := by
  induction members generalizing lead g with
  | nil => exact ⟨lead, hlead, rfl⟩
  | cons member members ih =>
      obtain ⟨key, value⟩ := member
      obtain ⟨hkey, assign, hassign⟩ := hkeys (key, value) (by simp)
      obtain ⟨lead', hlead', hrest⟩ := ih
        (fun other hother => hkeys other (by simp [hother]))
        (Or.inr rfl) (assign g (Int64.ofInt value))
      refine ⟨lead', hlead', ?_⟩
      have hspaces : Lead (lead ++ "  ".toList) := by
        rcases hlead with rfl | rfl
        · exact Or.inl (blank_of_all (by decide))
        · exact Or.inr ⟨"\n  ".toList, blank_of_all (by decide), rfl⟩
      have hmember := parseMember_scalar hkey hassign g value
        ("\n".toList ++
          (members.flatMap (fun member => memberText member.1 member.2) ++ p))
      have hstep := parseMembers_append hspaces (fuel + members.length) hmember
      have hassignAll : assignAll g ((key, value) :: members) =
          assignAll (assign g (Int64.ofInt value)) members := by
        unfold assignAll
        rw [List.foldl_cons, hassign]
      have htext : lead ++ (((key, value) :: members).flatMap
          (fun member => memberText member.1 member.2) ++ p) =
          lead ++ "  ".toList ++ '"' :: (key.toList ++ ("\": ".toList ++
            (intText value ++ ',' :: ("\n".toList ++ (members.flatMap
              (fun member => memberText member.1 member.2) ++ p))))) := by
        rw [List.flatMap_cons, memberText]
        simp only [List.append_assoc]
        rfl
      rw [hassignAll, htext, List.length_cons, ← Nat.add_assoc, hstep]
      exact hrest

/-- The graph the writer writes. -/
def graphOf {V : Type} (index : HNSWIndex V) : JsonGraph where
  version := 1
  dim := index.cfg.dim
  vecCount := UInt32.ofNat index.size
  M := index.cfg.M
  Mmax0 := index.cfg.Mmax0
  efConstruction := index.cfg.efConstruction
  efSearch := index.cfg.efSearch
  maxLayers := index.cfg.maxLayers
  entryPoint := UInt32.ofNat index.entryPoint
  maxLayer := Int32.ofInt index.maxLayer
  adj := (List.range index.size).map (nodeAdj index)

theorem assignAll_scalars {V : Type} (index : HNSWIndex V) :
    assignAll {} (scalars index) = { graphOf index with adj := [] } := by
  have hcount : ∀ n : ℕ, (Int64.ofInt (n : ℤ)).toUInt64.toUInt32 =
      UInt32.ofNat n := by
    intro n
    rw [Int64.ofInt_eq_ofNat, Int64.toUInt64_ofNat', UInt64.toUInt32_ofNat']
  simp only [assignAll, scalars, scalarField, List.foldl_cons, List.foldl_nil,
    Int64.toInt32_ofInt, Int32.ofInt_toInt, hcount, graphOf]
  rfl

theorem scalars_keys {V : Type} (index : HNSWIndex V) :
    ∀ member ∈ scalars index,
      (∀ c ∈ member.1.toList, isKeyChar c = true) ∧
        ∃ assign, scalarField member.1 = some assign := by
  intro member hmember
  simp only [scalars, List.mem_cons, List.not_mem_nil, or_false] at hmember
  rcases hmember with rfl | rfl | rfl | rfl | rfl | rfl | rfl | rfl | rfl | rfl
  all_goals
    constructor
    · apply List.all_eq_true.mp
      dsimp only
      decide
    · simp [scalarField]

/-- What the writer writes behind the scalar members, up to the closing
brace. -/
def adjText (lines rest : List Char) : List Char :=
  "  \"adj\": [\n".toList ++ (lines ++ ("  ]\n\x7d".toList ++ rest))

/-- The text up to the closing brace, and what follows it. -/
def graphText {V : Type} (index : HNSWIndex V) (rest : List Char) :
    List Char :=
  '\x7b' :: ("\n".toList ++
    ((scalars index).flatMap (fun member => memberText member.1 member.2) ++
      adjText (rows ((List.range index.size).map (nodeText index))) rest))

theorem writeJsonGraph_eq {V : Type} (index : HNSWIndex V) :
    writeJsonGraph index = graphText index "\n".toList := by
  unfold writeJsonGraph graphText adjText
  rfl

theorem parseMember_adj {V : Type} (index : HNSWIndex V)
    (rest : List Char) :
    parseMember (assignAll {} (scalars index)) ('"' ::
      ("adj".toList ++ '"' :: ':' :: (" ".toList ++ ("[\n".toList ++
        (rows ((List.range index.size).map (nodeText index)) ++
          "  ]".toList) ++ ("\n\x7d".toList ++ rest))))) =
      .ok (graphOf index, "\n\x7d".toList ++ rest) := by
  have hkey : ∀ c ∈ "adj".toList, isKeyChar c = true :=
    List.all_eq_true.mp (by decide)
  have hblank : Blank " ".toList := blank_of_all (by decide)
  have hnone : scalarField "adj" = none := by simp [scalarField]
  have harray := parses_adj index (List.range index.size)
    ("\n\x7d".toList ++ rest) (delimited_cons (by decide) _)
  rw [parseMember_cons hkey, parseValue, hnone]
  dsimp only [bind, Except.bind]
  rw [if_pos rfl, parseArray_skipsBlanks, parseArray_skipsBlanks.append hblank,
    harray, assignAll_scalars]
  rfl

theorem parseMembers_graphText {V : Type} (index : HNSWIndex V)
    (rest : List Char) (fuel : ℕ) :
    parseMembers (fuel + 1 + 1 + (scalars index).length) {} ("\n".toList ++
      ((scalars index).flatMap (fun member => memberText member.1 member.2) ++
        adjText (rows ((List.range index.size).map (nodeText index))) rest)) =
      .ok (graphOf index, rest) := by
  have hmember := parseMember_adj index rest
  generalize rows ((List.range index.size).map (nodeText index)) = lines
    at hmember ⊢
  obtain ⟨lead, hlead, hscalars⟩ := parseMembers_scalars (scalars_keys index)
    (Or.inl rfl) (fuel + 1 + 1) {} (adjText lines rest)
  have hspaces : Lead (lead ++ "  ".toList) := by
    rcases hlead with rfl | rfl
    · exact Or.inl (blank_of_all (by decide))
    · exact Or.inr ⟨"\n  ".toList, blank_of_all (by decide), rfl⟩
  have hlast := parseMembers_append hspaces (fuel + 1) hmember
  have htext : lead ++ adjText lines rest = lead ++ "  ".toList ++ '"' ::
      ("adj".toList ++ '"' :: ':' :: (" ".toList ++ ("[\n".toList ++
        (lines ++ "  ]".toList) ++ ("\n\x7d".toList ++ rest)))) := by
    unfold adjText
    simp
  rw [hscalars, htext, hlast, parseMembers]
  rfl

theorem parseText_of_expect {p q : List Char}
    (hopen : expect '\x7b' p = .ok q) :
    parseText p = parseMembers (q.length + 1) {} q := by
  unfold parseText
  rw [hopen]
  rfl

/-- The parser returns the graph that was written, and stops behind the
closing brace. -/
theorem parseText_graphText {V : Type} (index : HNSWIndex V)
    (rest : List Char) :
    parseText (graphText index rest) = .ok (graphOf index, rest) := by
  have hmembers := parseMembers_graphText index rest
  have hscalars : (scalars index).length = 10 := rfl
  rw [hscalars] at hmembers
  unfold graphText
  generalize (scalars index).flatMap
    (fun member => memberText member.1 member.2) = before at hmembers ⊢
  generalize rows ((List.range index.size).map (nodeText index)) = lines
    at hmembers ⊢
  have hadj : (adjText lines rest).length = 11 + (lines ++
      ("  ]\n\x7d".toList ++ rest)).length := by
    unfold adjText
    rw [List.length_append]
    rfl
  have hle : 12 ≤ ("\n".toList ++
      (before ++ adjText lines rest)).length + 1 := by
    simp only [List.length_append] at hadj ⊢
    omega
  obtain ⟨fuel, hfuel⟩ := Nat.exists_eq_add_of_le' hle
  have hopen := expect_cons (c := '\x7b') (by decide)
    ("\n".toList ++ (before ++ adjText lines rest))
  rw [parseText_of_expect hopen, hfuel]
  exact hmembers fuel

end GraphText
end VecDB
