import VecDB.GraphText
import VecDB.HttpInserts
import VecDB.HttpText
import Mathlib.Data.UInt
import Mathlib.Tactic

/-!
# The node inspector

`/api/node` describes a node of a shard.  A parameter is searched for as a
text in the whole query string, so that the end of another name or a part of a
value may be taken for it, and its numeral is cut to 32 bits.
-/

namespace VecDB

open FloatNumeral StateRules Running

namespace HttpApi

/-! ## Parameters -/

def parameterText (key : String) : List Char := key.toList ++ ['=']

def parseQueryParam (qstr : List Char) (key : String) : List Char :=
  match findText (parameterText key) qstr with
  | none => []
  | some p => (p.drop (parameterText key).length).takeWhile (· ≠ '&')

/-- `std::stoul`; a sign is read, and the value comes round. -/
def stoul (t : List Char) : Option UInt64 := do
  let t := t.dropWhile isBlank
  let n ← stollDigits (dropSign t)
  if n < 2 ^ 64 then
    some (if t.head? = some '-' then -UInt64.ofNat n else UInt64.ofNat n)
  else none

/-! ## Nodes -/

/-- What the response says of a node; `layers` has the neighbours from layer
zero on. -/
structure NodeReport where
  nodeId : ℕ
  shardId : ℕ
  maxLayer : ℤ
  totalNodes : ℕ
  preview : List UInt32
  layers : List (List ℕ)
  deriving DecidableEq, Repr

section Reports

variable {dim : UInt32}

/-- The response that has been found for a node, or the text of a refusal. -/
abbrev NodeAnswer := Except Failure (Except String NodeReport)

def errorText (error : String) : String :=
  "\x7b\"error\":\"" ++ error ++ "\"\x7d"

def refusal (error : String) : NodeAnswer := .ok (.error (errorText error))

def describeNode (index : HNSWIndex (Vec dim)) (shardId nodeId : ℕ) :
    NodeAnswer := do
  let vec ← index.getVector nodeId
  return .ok {
    nodeId := nodeId
    shardId := shardId
    maxLayer := index.maxLayer
    totalNodes := index.size
    preview := vec.words.take (min 8 index.cfg.dim.toInt).toNat
    layers := (List.range (index.maxLayer + 1).toNat).map
      (index.neighboursAt nodeId) }

/-- `get_shard_index`; there is an index for every shard. -/
def getShardIndex (m : ShardManager dim) (shardId : ℕ) :
    Except Failure (Option (HNSWIndex (Vec dim))) :=
  if m.shardCount.toNat ≤ shardId then .ok none
  else match m.shards[shardId]? with
    | some ss => .ok (some ss.index)
    | none => .error .accessViolation

/-- `handle_node`, once the ids have been read. -/
def inspect (m : ShardManager dim) (shardId nodeId : ℕ) : NodeAnswer :=
  if m.shardCount.toNat ≤ shardId then refusal "invalid shard_id"
  else do
    match ← getShardIndex m shardId with
    | none => refusal "shard not available"
    | some index =>
        if index.size ≤ nodeId then refusal "node_id out of range"
        else describeNode index shardId nodeId

/-- The shard that the inspector takes; no text and no value mean zero. -/
def shardParam (qstr : List Char) : ℕ :=
  ((stoul (parseQueryParam qstr "shard")).map fun n => n.toUInt32.toNat).getD 0

def inspectQuery (m : ShardManager dim) (qstr : List Char) : NodeAnswer :=
  let idStr := parseQueryParam qstr "id"
  if idStr = [] then refusal "missing id parameter e.g. /api/node?id=42"
  else match stoul idStr with
    | none => refusal "invalid id"
    | some n => inspect m (shardParam qstr) n.toUInt32.toNat

def neighboursText (layer : ℕ) (neighbours : List ℕ) : String :=
  "\x7b\"layer\":" ++ toString layer ++ ",\"neighbours\":[" ++
    ",".intercalate (neighbours.map toString) ++ "]\x7d"

/-- `floatText` is a component, as a stream writes it. -/
def NodeReport.text (floatText : UInt32 → String) (report : NodeReport) :
    String :=
  "\x7b\"node_id\":" ++ toString report.nodeId ++ ",\"shard_id\":" ++
    toString report.shardId ++ ",\"max_layer\":" ++
    toString report.maxLayer ++ ",\"total_nodes\":" ++
    toString report.totalNodes ++ ",\"vector_preview\":[" ++
    ",".intercalate (report.preview.map floatText) ++ "],\"layers\":[" ++
    ",".intercalate ((report.layers.zipIdx).map fun layer =>
      neighboursText layer.2 layer.1) ++ "]\x7d"

def handleNode (floatText : UInt32 → String) (qstr : List Char)
    (m : ShardManager dim) : Except Failure String := do
  match ← inspectQuery m qstr with
  | .ok report => return report.text floatText
  | .error text => return text

end Reports

/-! ## Query strings -/

/-- A name and its value. -/
abbrev Parameter := List Char × List Char

def Parameter.text (param : Parameter) : List Char :=
  param.1 ++ '=' :: param.2

structure WellFormed (params : List Parameter) : Prop where
  names : ∀ param ∈ params, '=' ∉ param.1 ∧ '&' ∉ param.1
  values : ∀ param ∈ params, '&' ∉ param.2

/-- What the search for a key finds in one parameter: its value, if the name
ends in the key, or what follows the key in the value. -/
def hit (key : String) (param : Parameter) : Option (List Char) :=
  if key.toList <:+ param.1 then some param.2
  else (findText (parameterText key) param.2).map
    (List.drop (parameterText key).length)

/-! ## What a search for a key finds -/

section Searches

variable {needle p rest : List Char} {c : Char} {key : String}

theorem WellFormed.tail {param : Parameter} {params : List Parameter}
    (h : WellFormed (param :: params)) : WellFormed params where
  names := fun other hother => h.names other (List.mem_cons_of_mem _ hother)
  values := fun other hother => h.values other (List.mem_cons_of_mem _ hother)

end Searches

/-! ## The node that is asked for -/

section Answers

variable {dim : UInt32} {m : ShardManager dim} {params : List Parameter}
  {s s' N n : ℕ} {answer : Except Failure String} {key : String}
  {floatText : UInt32 → String}

/-- There is no such shard, or no such node in it. -/
def Missing (m : ShardManager dim) (s N : ℕ) : Prop :=
  m.shardCount.toNat ≤ s ∨
    ∃ ss, m.shards[s]? = some ss ∧ ss.index.size ≤ N

/-- Node `N` of shard `s` is described, or missing and refused. -/
inductive Answers (floatText : UInt32 → String) (m : ShardManager dim)
    (s N : ℕ) : Except Failure String → Prop
  | refused (error : String) (hmissing : Missing m s N) :
      Answers floatText m s N (.ok (errorText error))
  | described {ss : ShardState dim} {vec : Vec dim}
      (hthere : ¬ Missing m s N) (hshard : m.shards[s]? = some ss)
      (hvec : ss.index.vectors[N]? = some vec) :
      Answers floatText m s N (.ok (NodeReport.text floatText {
        nodeId := N
        shardId := s
        maxLayer := ss.index.maxLayer
        totalNodes := ss.index.size
        preview := vec.words.take (min 8 ss.index.cfg.dim.toInt).toNat
        layers := (List.range (ss.index.maxLayer + 1).toNat).map
          (ss.index.neighboursAt N) }))

/-- The manager has its shards, and they have a vector for every node. -/
structure Inspectable (m : ShardManager dim) : Prop where
  length_eq : m.shards.length = m.shardCount.toNat
  vectors_le : ∀ ss ∈ m.shards, ss.index.nextId ≤ ss.index.vectors.length

theorem inspectable_of_refines {D : Type} [Preorder D] [DecidableLT D]
    {dep : Deployment D} {ring : ConsistentHashRing}
    {states : ℕ → Stored dep.Dim} {m : ShardManager dep.Dim}
    (h : dep.Refines ring states m) : Inspectable m where
  length_eq := by rw [h.length_eq, h.shardCount_eq]
  vectors_le := h.vectors_le

/-! ### Reading a response -/

/-- The text of an answer. -/
def render (floatText : UInt32 → String) : NodeAnswer → Except Failure String
  | .error e => .error e
  | .ok (.ok report) => .ok (report.text floatText)
  | .ok (.error text) => .ok text

theorem handleNode_eq (qstr : List Char) :
    handleNode floatText qstr m = render floatText (inspectQuery m qstr) := by
  unfold handleNode
  cases inspectQuery m qstr with
  | error e => rfl
  | ok answer =>
      cases answer with
      | ok report => rfl
      | error text => rfl

theorem inspect_answers (hm : Inspectable m) (s N : ℕ) :
    Answers floatText m s N (render floatText (inspect m s N)) := by
  unfold inspect
  by_cases hs : m.shardCount.toNat ≤ s
  · rw [if_pos hs]
    exact .refused _ (Or.inl hs)
  · have hlt : s < m.shards.length := by
      rw [hm.length_eq]
      omega
    have hshard := List.getElem?_eq_getElem hlt
    have hindex : getShardIndex m s = .ok (some m.shards[s].index) := by
      rw [getShardIndex, if_neg hs, hshard]
    rw [if_neg hs, hindex]
    change Answers floatText m s N (render floatText
      (if m.shards[s].index.size ≤ N then _ else _))
    by_cases hN : m.shards[s].index.size ≤ N
    · rw [if_pos hN]
      exact .refused _ (Or.inr ⟨_, hshard, hN⟩)
    · have hvec : N < m.shards[s].index.vectors.length := by
        have hle := hm.vectors_le _ (List.getElem_mem hlt)
        unfold HNSWIndex.size at hN
        omega
      have hget := HNSWIndex.getVector_eq_ok.mpr (List.getElem?_eq_getElem hvec)
      have hthere : ¬ Missing m s N := by
        rintro (hs' | ⟨ss, hss, hN'⟩)
        · exact hs hs'
        · rw [hshard] at hss
          cases hss
          exact hN hN'
      rw [if_neg hN, describeNode, hget]
      exact .described hthere hshard (List.getElem?_eq_getElem hvec)

/-- The number that is taken for a key: that of the first parameter with
something for it, cut to 32 bits. -/
def lookup (key : String) (params : List Parameter) : Option ℕ :=
  ((params.findSome? (hit key)).bind stoul).map fun n => n.toUInt32.toNat

theorem Numeral.stoul {digits : List Char} (h : Numeral digits N) :
    stoul digits = if N < 2 ^ 64 then some (UInt64.ofNat N) else none := by
  have hends : Ends [] := by
    intro c hc
    cases hc
  have hdrop := h.dropWhile_isBlank (p := [])
  have hsign := h.dropSign (p := [])
  have hunsigned := h.unsigned (p := [])
  have hdigits := h.stollDigits hends
  rw [List.append_nil] at hdrop hsign hunsigned hdigits
  unfold HttpApi.stoul
  dsimp only
  rw [hdrop, hsign, hdigits, Option.bind_eq_bind, Option.bind_some,
    if_neg hunsigned]

end Answers

/-! ## A store with one node -/

section Examples

open Deployment

/-- A component, by its bits. -/
def wordText (w : UInt32) : String := toString w.toNat

end Examples

end HttpApi
end VecDB
