import VecDB.FloatNumeral
import VecDB.ShardFailedInsert
import VecDB.ShardSearch
import Mathlib.Tactic

/-!
# The HTTP API

`handle_insert` and `handle_search` of `HttpApiServer`, and how they read a
request body.  The body is searched for a quoted key, then for the next
bracket or colon; it is not parsed as JSON.  The response is the text behind
the headers, and its latency is given.
-/

namespace VecDB
namespace HttpApi

open FloatNumeral StateRules Running

/-! ## Reading a body -/

def quoted (key : String) : List Char := '"' :: (key.toList ++ ['"'])

/-- The text from the first occurrence of `needle` on. -/
def findText (needle : List Char) : List Char → Option (List Char)
  | [] => if needle = [] then some [] else none
  | c :: p =>
      if needle.isPrefixOf (c :: p) = true then some (c :: p)
      else findText needle p

/-- The text behind the first `c`. -/
def findChar (c : Char) (p : List Char) : Option (List Char) :=
  match p.dropWhile (· ≠ c) with
  | [] => none
  | _ :: p => some p

/-- The text between the brackets that `parse_float_array` finds. -/
def arrayText (json : List Char) (key : String) : Option (List Char) := do
  let p ← findText (quoted key) json
  let p ← findChar '[' p
  if ']' ∈ p then some (p.takeWhile (· ≠ ']')) else none

/-- What the calls of `std::getline` return: nothing for an empty last
token. -/
def getlines (arr : List Char) : List (List Char) :=
  let tokens := arr.splitOn ','
  if tokens.getLast? = some [] then tokens.dropLast else tokens

variable (convert : List Char → Option UInt32)

def parseFloatArray (json : List Char) (key : String) : List UInt32 :=
  match arrayText json key with
  | none => []
  | some arr => (getlines arr).filterMap (stof convert)

/-- The digits that `std::stoll` converts. -/
def stollDigits (t : List Char) : Option ℕ :=
  let digits := t.takeWhile Char.isDigit
  if digits = [] then none
  else some (digits.foldl (fun n c => n * 10 + (c.toNat - '0'.toNat)) 0)

def stoll (t : List Char) : Option Int64 := do
  let t := t.dropWhile isBlank
  let n ← stollDigits (dropSign t)
  let value : ℤ := if t.head? = some '-' then -n else n
  if -2 ^ 63 ≤ value ∧ value < 2 ^ 63 then some (Int64.ofInt value) else none

def parseInt64Field (json : List Char) (key : String) (dflt : Int64) : Int64 :=
  ((findText (quoted key) json >>= findChar ':') >>= stoll).getD dflt

/-! ## The vector of a request -/

section ReadVector

variable {dim : UInt32}

theorem length_take_of_cast {values : List UInt32}
    (hdim : Int32.ofNat values.length = dim.toInt32) :
    (values.take dim.toNat).length = dim.toNat := by
  have hbits := congrArg (fun i : Int32 => i.toUInt32.toNat) hdim
  simp at hbits
  rw [List.length_take]
  omega

def missingText (key : String) : String :=
  "\x7b\"error\":\"missing " ++ key ++ " array\"\x7d"

def dimText (dim : UInt32) (key : String) (size : ℕ) : String :=
  "\x7b\"error\":\"" ++ key ++ " dim=" ++ toString size ++
    " but index dim=" ++ toString dim.toInt32.toInt ++ "\"\x7d"

/-- What a handler reads before it calls the manager: the floats at
`data()`, or the text of its refusal. -/
def readVector (dim : UInt32) (key : String) (body : List Char) :
    Except String (Vec dim) :=
  let values := parseFloatArray convert body key
  if values = [] then .error (missingText key)
  else if hdim : Int32.ofNat values.length = dim.toInt32 then
    .ok ⟨values.take dim.toNat, length_take_of_cast hdim⟩
  else .error (dimText dim key values.length)

end ReadVector

/-! ## The handlers -/

section Handlers

variable {dim : UInt32} {D : Type} [Preorder D] [DecidableLT D]

def insertText (shardId nodeId : ℕ) (vid : Int64) (us : ℕ) (total : ℕ) :
    String :=
  "\x7b\"shard_id\":" ++ toString shardId ++ ",\"node_id\":" ++
    toString nodeId ++ ",\"vector_id\":" ++ toString vid.toInt ++
    ",\"latency_us\":" ++ toString us ++ ",\"total_vectors\":" ++
    toString total ++ "\x7d"

/-- The id of the new vector: that of the request, or the number of vectors
there are. -/
def insertId (body : List Char) (m : ShardManager dim) : Int64 :=
  let vid := parseInt64Field body "vector_id" (-1)
  if vid < 0 then Int64.ofNat m.totalVectors else vid

def handleInsert (os : OS) (rt : Runtime (Vec dim) D) (us : ℕ)
    (body : List Char) :
    EStateM Failure (Running (ShardManager dim)) String :=
  match readVector convert dim "vector" body with
  | .error text => return text
  | .ok vec => do
      let vid ← compute fun m => .ok (insertId body m)
      let (shardId, nodeId) ← ShardManager.tryInsert os rt vid.toUInt64 vec
      let total ← compute fun m => .ok m.totalVectors
      return insertText shardId nodeId vid us total

def searchTopK (body : List Char) : Int32 :=
  let topK := (parseInt64Field body "top_k" 5).toInt32
  if topK ≤ 0 ∨ 1000 < topK then 5 else topK

/-- `distanceText` is the square root of a distance, as a stream writes it. -/
def resultText (distanceText : D → String) (r : HNSWSearchResult D) : String :=
  "\x7b\"node_id\":" ++ toString r.nodeId ++ ",\"distance\":" ++
    distanceText r.dist ++ "\x7d"

def searchText (distanceText : D → String) (us : ℕ)
    (sr : ShardSearchResult D) : String :=
  "\x7b\"latency_us\":" ++ toString us ++ ",\"degraded\":" ++
    (if sr.degraded then "true" else "false") ++ ",\"shards_ok\":" ++
    toString sr.shardsOk ++ ",\"shards_err\":" ++ toString sr.shardsErr ++
    ",\"results\":[" ++
    ",".intercalate (sr.results.map (resultText distanceText)) ++ "]\x7d"

/-- `ef` has its default. -/
def handleSearch (rt : Runtime (Vec dim) D)
    (ps : PartialSorter (HNSWSearchResult D)) (throws : ℕ → Bool)
    (distanceText : D → String) (us : ℕ) (body : List Char)
    (m : ShardManager dim) : Except Failure String × ShardManager dim :=
  match readVector convert dim "query" body with
  | .error text => (.ok text, m)
  | .ok query =>
      let (sr, m) := m.search rt ps query (searchTopK body) 0 throws
      (sr.map (searchText distanceText us), m)

end Handlers

end HttpApi
end VecDB
