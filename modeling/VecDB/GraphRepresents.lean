import VecDB.GraphObjects
import Mathlib.Tactic

/-!
# What the graph parser accepts

The parser takes missing digits for a zero, cuts numerals that are too large,
passes over keys that it does not know and does not insist on commas.  A text
whose reading has none of this is the text of the graph that is returned.
-/

namespace VecDB
namespace GraphText

/-! ## Fields -/

theorem toInt32_ofInt {i : ℤ} (hle : intRange.1 ≤ i) (hge : i ≤ intRange.2) :
    (Int64.ofInt i).toInt32.toInt = i := by
  unfold intRange at hle hge
  rw [Int64.toInt32_ofInt, Int32.toInt_ofInt_of_le hle (by omega)]

theorem toUInt32_ofInt {i : ℤ} (hle : u32Range.1 ≤ i)
    (hge : i ≤ u32Range.2) :
    u32Int (Int64.ofInt i).toUInt64.toUInt32 = i := by
  unfold u32Range at hle hge
  obtain ⟨n, rfl⟩ := Int.eq_ofNat_of_zero_le hle
  unfold u32Int
  rw [Int64.ofInt_eq_ofNat, Int64.toUInt64_ofNat', UInt64.toUInt32_ofNat',
    UInt32.toNat_ofNat_of_lt' (by change n < 2 ^ 32; omega)]

/-- A scalar member sets its field and leaves the others alone. -/
theorem written_assign {key : String}
    {assign : JsonGraph → Int64 → JsonGraph} {range : ℤ × ℤ} {i : ℤ}
    (hassign : scalarField key = some assign)
    (hrange : fieldRange key = some range) (hle : range.1 ≤ i)
    (hge : i ≤ range.2) (g : JsonGraph) (other : String) :
    (assign g (Int64.ofInt i)).written other =
      if other = key then some (.int i) else g.written other := by
  unfold scalarField at hassign
  split at hassign
  case h_11 => cases hassign
  all_goals
    cases hassign
    obtain rfl := Option.some.inj hrange
    split_ifs with hkey
    · subst hkey
      first
        | simp only [JsonGraph.written, toInt32_ofInt hle hge]
        | simp only [JsonGraph.written, toUInt32_ofInt hle hge]
    · unfold JsonGraph.written
      split
      all_goals first
        | rfl
        | exact absurd rfl hkey

theorem adj_assign {key : String} {assign : JsonGraph → Int64 → JsonGraph}
    (hassign : scalarField key = some assign) (g : JsonGraph) (v : Int64) :
    (assign g v).adj = g.adj := by
  unfold scalarField at hassign
  split at hassign
  case h_11 => cases hassign
  all_goals
    cases hassign
    rfl

theorem written_adj_ne {g : JsonGraph} {other : String} (hne : other ≠ "adj")
    (adj : List (List (List UInt32))) :
    ({ g with adj := adj } : JsonGraph).written other = g.written other := by
  unfold JsonGraph.written
  split
  all_goals first
    | rfl
    | exact absurd rfl hne

/-! ## The graph of a reading -/

theorem written_evalMember {member : MemberReading}
    (hshaped : Shaped member.key member.value)
    (hgood : WellWrittenValue member.key member.value) (g : JsonGraph)
    {other : String} (hne : other ≠ "adj") :
    (evalMember g member).written other =
      if other = member.key then some member.value.written
      else g.written other := by
  obtain ⟨comma, key, value⟩ := member
  cases value with
  | numeral text =>
      obtain ⟨range, hrange, htext, hle, hge⟩ := hgood
      have hsome := scalarField_isSome key
      dsimp only at hrange
      rw [hrange, Option.isSome_some, Option.isSome_iff_exists] at hsome
      obtain ⟨assign, hassign⟩ := hsome
      unfold evalMember
      dsimp only
      rw [hassign]
      dsimp only
      rw [parseInt_numeral htext, written_assign hassign hrange hle hge]
      rfl
  | nodes adj =>
      obtain rfl : key = "adj" := hshaped
      rw [if_neg hne]
      exact written_adj_ne hne _
  | skipped => exact hgood.elim

theorem adj_evalMember (g : JsonGraph) (member : MemberReading) :
    (evalMember g member).adj =
      g.adj ++ member.value.nodeList.map nodeValue := by
  obtain ⟨comma, key, value⟩ := member
  cases value with
  | numeral text =>
      unfold evalMember
      dsimp only
      cases hassign : scalarField key with
      | some assign =>
          have hnone : (ValueReading.numeral text).nodeList = [] := rfl
          rw [hnone, List.map_nil, List.append_nil]
          exact adj_assign hassign g _
      | none => simp [ValueReading.nodeList]
  | nodes adj => rfl
  | skipped => simp [evalMember, ValueReading.nodeList]

theorem adj_evalMembers (g : JsonGraph) (members : List MemberReading) :
    (evalMembers g members).adj =
      g.adj ++ (allNodes members).map nodeValue := by
  induction members generalizing g with
  | nil => simp [evalMembers, allNodes]
  | cons member members ih =>
      have hstep : evalMembers g (member :: members) =
          evalMembers (evalMember g member) members := rfl
      rw [hstep, ih, adj_evalMember]
      simp [allNodes]

section Members

variable {members : List MemberReading}

theorem written_evalMembers_of_not_mem
    (hshaped : ∀ member ∈ members, Shaped member.key member.value)
    (hgood : ∀ member ∈ members, WellWrittenValue member.key member.value)
    (g : JsonGraph) {key : String} (hne : key ≠ "adj")
    (hnone : ∀ member ∈ members, member.key ≠ key) :
    (evalMembers g members).written key = g.written key := by
  induction members generalizing g with
  | nil => rfl
  | cons member members ih =>
      have hkey : key ≠ member.key := (hnone member (by simp)).symm
      have hrest := ih (fun m hm => hshaped m (List.mem_cons_of_mem _ hm))
        (fun m hm => hgood m (List.mem_cons_of_mem _ hm))
        (evalMember g member)
        (fun m hm => hnone m (List.mem_cons_of_mem _ hm))
      rw [written_evalMember (hshaped member (by simp))
        (hgood member (by simp)) g hne, if_neg hkey] at hrest
      exact hrest

/-- A key that is written with one value only has this value at the end. -/
theorem written_evalMembers
    (hshaped : ∀ member ∈ members, Shaped member.key member.value)
    (hgood : ∀ member ∈ members, WellWrittenValue member.key member.value)
    (g : JsonGraph) {key : String} {written : Written} (hne : key ≠ "adj")
    (hsame : ∀ member ∈ members, member.key = key →
      member.value.written = written)
    (hsome : (∃ member ∈ members, member.key = key) ∨
      g.written key = some written) :
    (evalMembers g members).written key = some written := by
  induction members generalizing g with
  | nil =>
      rcases hsome with ⟨member, hmember, _⟩ | hsome
      · simp at hmember
      · exact hsome
  | cons member members ih =>
      refine ih (fun m hm => hshaped m (List.mem_cons_of_mem _ hm))
        (fun m hm => hgood m (List.mem_cons_of_mem _ hm))
        (evalMember g member)
        (fun m hm => hsame m (List.mem_cons_of_mem _ hm)) ?_
      rw [written_evalMember (hshaped member (by simp))
        (hgood member (by simp)) g hne]
      by_cases hkey : key = member.key
      · rw [if_pos hkey, hsame member (by simp) hkey.symm]
        exact Or.inr rfl
      · rw [if_neg hkey]
        rcases hsome with ⟨m, hm, hmkey⟩ | hsome
        · rcases List.mem_cons.mp hm with rfl | hm
          · exact absurd hmkey.symm hkey
          · exact Or.inl ⟨m, hm, hmkey⟩
        · exact Or.inr hsome

theorem u32Int_u32Value {text : List Char} (h : WellWrittenU32 text) :
    u32Int (u32Value text) = numeralValue text := by
  obtain ⟨htext, hle, hlt⟩ := h
  unfold u32Value
  rw [parseInt_numeral htext]
  exact toUInt32_ofInt hle (by unfold u32Range; omega)

theorem nodeValue_written {node : NodeReading} (h : WellWrittenNode node) :
    ((nodeValue node).map fun layer => layer.map u32Int) =
      writtenNode node := by
  unfold nodeValue writtenNode
  rw [List.map_map]
  refine List.map_congr_left fun layer hlayer => ?_
  simp only [Function.comp_apply, List.map_map]
  exact List.map_congr_left fun text htext =>
    u32Int_u32Value (h layer hlayer text htext)

theorem wellWritten_allNodes
    (hgood : ∀ member ∈ members, WellWrittenValue member.key member.value) :
    ∀ node ∈ allNodes members, WellWrittenNode node := by
  intro node hnode
  obtain ⟨⟨comma, key, value⟩, hmember, hnode⟩ := List.mem_flatMap.mp hnode
  have hvalue := hgood _ hmember
  cases value with
  | numeral text => simp [ValueReading.nodeList] at hnode
  | nodes adj => exact hvalue node hnode
  | skipped => exact hvalue.elim

/-- All that the `adj` members write. -/
theorem written_adj
    (hgood : ∀ member ∈ members, WellWrittenValue member.key member.value) :
    (evalMembers {} members).written "adj" =
      some (.nodes ((allNodes members).map writtenNode)) := by
  have hadj := adj_evalMembers {} members
  have hnodes : ((allNodes members).map nodeValue).map
      (fun node => node.map fun layer => layer.map u32Int) =
        (allNodes members).map writtenNode := by
    rw [List.map_map]
    exact List.map_congr_left fun node hnode =>
      nodeValue_written (wellWritten_allNodes hgood node hnode)
  rw [← hnodes]
  exact congrArg (fun adj => some (Written.nodes (adj.map fun node =>
    node.map fun layer => layer.map u32Int))) hadj

/-- The value that a member writes is in the graph when repeated members
agree. -/
theorem agrees_of_wellWritten
    (hshaped : ∀ member ∈ members, Shaped member.key member.value)
    (h : WellWritten members) :
    Agrees (evalMembers {} members) (members.map MemberReading.written) := by
  constructor
  · intro written hwritten
    obtain ⟨member, hmember, rfl⟩ := List.mem_map.mp hwritten
    obtain ⟨comma, key, value⟩ := member
    by_cases hadj : key = "adj"
    · subst hadj
      change (evalMembers {} members).written "adj" = some value.written
      rw [written_adj h.values]
      have hshape := hshaped _ hmember
      have hvalue := h.values _ hmember
      cases value with
      | numeral text =>
          have hscalar : (fieldRange "adj").isSome = true := hshape
          cases hscalar
      | nodes adj =>
          have hall := h.nodes _ hmember adj rfl
          change _ = some (Written.nodes (adj.map writtenNode))
          rw [hall]
      | skipped => exact hvalue.elim
    · exact written_evalMembers hshaped h.values {} hadj
        (fun other hother hkey => h.repeated other hother _ hmember hkey)
        (Or.inl ⟨_, hmember, rfl⟩)
  · intro key hnone
    have hnone' : ∀ member ∈ members, member.key ≠ key :=
      fun member hmember => hnone _ (List.mem_map_of_mem hmember)
    by_cases hadj : key = "adj"
    · subst hadj
      have hnodes : allNodes members = [] := by
        rw [allNodes, List.flatMap_eq_nil_iff]
        rintro ⟨comma, key, value⟩ hmember
        have hshape := hshaped _ hmember
        cases value with
        | numeral text => rfl
        | nodes adj => exact absurd hshape (hnone' _ hmember)
        | skipped => rfl
      rw [written_adj h.values, hnodes]
      rfl
    · exact written_evalMembers_of_not_mem hshaped h.values {} hadj hnone'

theorem wellWritten_of_agrees (hcommas : CommasBetween members)
    (hvalues : ∀ member ∈ members, WellWrittenValue member.key member.value)
    (hshaped : ∀ member ∈ members, Shaped member.key member.value)
    (h : Agrees (evalMembers {} members)
      (members.map MemberReading.written)) : WellWritten members := by
  have hwritten : ∀ member ∈ members, (evalMembers {} members).written
      member.key = some member.value.written :=
    fun member hmember => h.1 _ (List.mem_map_of_mem hmember)
  refine ⟨hcommas, hvalues, ?_, ?_⟩
  · intro member hmember other hother hkey
    have hfirst := hwritten member hmember
    rw [hkey, hwritten other hother] at hfirst
    exact (Option.some.inj hfirst).symm
  · rintro ⟨comma, key, value⟩ hmember adj rfl
    obtain rfl : key = "adj" := hshaped _ hmember
    have hadj := hwritten _ hmember
    rw [written_adj hvalues] at hadj
    exact (Written.nodes.inj (Option.some.inj hadj)).symm

end Members

/-! ## Accepted texts -/

theorem readText_shaped {p r : List Char} {members : List MemberReading}
    (h : readText p = .ok (members, r)) :
    ∀ member ∈ members, Shaped member.key member.value := by
  obtain ⟨q, _, h⟩ := except_bind_eq_ok.mp h
  exact readMembers_shaped _ h

/-- A text that represents a graph reads without slips. -/
theorem wellWritten_of_represents {text r r' : List Char}
    {members : List MemberReading}
    (hread : readText text = .ok (members, r))
    (h : Represents text (evalMembers {} members) r') :
    WellWritten members := by
  obtain ⟨written, hobject, hagrees⟩ := h
  obtain ⟨readings, rfl, hcommas, hvalues, hread'⟩ :=
    readText_of_object hobject
  rw [hread] at hread'
  cases hread'
  exact wellWritten_of_agrees hcommas hvalues (readText_shaped hread) hagrees

/-- What the parser accepts is what it represents. -/
def AcceptsOnlyGraphs (text : List Char) : Prop :=
  (∀ g r, parseText text = .ok (g, r) → Represents text g r) ∧
    ((¬ ∃ g r, Represents text g r) →
      ∃ e, parseText text = .error e ∧ e.Thrown)

/-- The parser is right about a text exactly when what it reads there is
written in full. -/
theorem acceptsOnlyGraphs_iff (text : List Char) :
    AcceptsOnlyGraphs text ↔
      ∀ members r, readText text = .ok (members, r) → WellWritten members := by
  have hparse := parseText_evaluates text
  constructor
  · rintro ⟨haccepts, _⟩ members r hread
    rw [hread] at hparse
    exact wellWritten_of_represents hread (haccepts _ _ hparse)
  · intro hwell
    have haccepts : ∀ g r, parseText text = .ok (g, r) →
        Represents text g r := by
      intro g r hok
      rw [hok] at hparse
      cases hread : readText text with
      | error e =>
          rw [hread] at hparse
          cases hparse
      | ok reading =>
          obtain ⟨members, r'⟩ := reading
          rw [hread] at hparse
          cases hparse
          have h := hwell members r' hread
          exact ⟨_, object_of_reading h.commas h.values hread,
            agrees_of_wellWritten (readText_shaped hread) h⟩
    refine ⟨haccepts, fun hnone => ?_⟩
    cases hok : parseText text with
    | ok result => exact absurd ⟨_, _, haccepts _ _ hok⟩ hnone
    | error e => exact ⟨e, rfl, parseText_thrown hok⟩

/-- A member without a value is read as a zero. -/
theorem not_acceptsOnlyGraphs_empty_numeral :
    ¬ AcceptsOnlyGraphs "\x7b\"dim\":\x7d".toList := by
  rintro ⟨haccepts, _⟩
  have hread : readText "\x7b\"dim\":\x7d".toList =
      .ok ([⟨false, "dim", .numeral []⟩], []) := rfl
  have hparse := parseText_evaluates "\x7b\"dim\":\x7d".toList
  rw [hread] at hparse
  have hwell := wellWritten_of_represents hread (haccepts _ _ hparse)
  obtain ⟨_, _, htext, _⟩ :=
    hwell.values ⟨false, "dim", .numeral []⟩ (by simp)
  cases htext

end GraphText
end VecDB
