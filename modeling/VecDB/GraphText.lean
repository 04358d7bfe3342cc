import VecDB.HnswModel
import Mathlib.Tactic

/-!
# The graph file

The JSON text of `.graph`: `write_json_graph` and the recursive-descent parser
of `snapshot.cpp`.  A text is the list of its bytes, a cursor is the rest of
the text, and a cursor at the end reads the terminating NUL.  A loop of the
parser has one unit of fuel more than there are characters.
-/

namespace VecDB

/-! ## The writer -/

namespace HNSWIndex

variable {V : Type}

def layerCountFor (index : HNSWIndex V) (nodeId : ℕ) : ℕ :=
  index.neighbours.layerCount nodeId

def neighboursAt (index : HNSWIndex V) (nodeId layer : ℕ) : List ℕ :=
  index.neighbours.getNeighbours nodeId layer

end HNSWIndex

namespace GraphText

def natText (n : ℕ) : List Char := Nat.toDigits 10 n

def intText : ℤ → List Char
  | .ofNat n => natText n
  | .negSucc n => '-' :: natText (n + 1)

/-- A `for` loop that writes `sep` between the pieces. -/
def separated (sep : List Char) : List (List Char) → List Char
  | [] => []
  | [piece] => piece
  | piece :: pieces => piece ++ (sep ++ separated sep pieces)

def listText (nbrs : List ℕ) : List Char :=
  "[".toList ++ (separated ",".toList (nbrs.map natText) ++ "]".toList)

/-- One line of `adj`, without what ends it. -/
def nodeText {V : Type} (index : HNSWIndex V) (node : ℕ) : List Char :=
  "    \x7b\"l\":[".toList ++ (separated ",".toList
    ((List.range (index.layerCountFor node)).map fun l =>
      listText (index.neighboursAt node l)) ++ "]\x7d".toList)

/-- The lines of `adj`: every one but the last ends in a comma. -/
def rows (nodes : List (List Char)) : List Char :=
  separated ",\n".toList nodes ++ if nodes = [] then [] else "\n".toList

def memberText (key : String) (value : ℤ) : List Char :=
  "  \"".toList ++ (key.toList ++ ("\": ".toList ++
    (intText value ++ ",\n".toList)))

/-- The members before `adj`. -/
def scalars {V : Type} (index : HNSWIndex V) : List (String × ℤ) :=
  [("version", 1),
    ("dim", index.cfg.dim.toInt),
    ("vec_count", index.size),
    ("M", index.cfg.M.toInt),
    ("M_max0", index.cfg.Mmax0.toInt),
    ("ef_construction", index.cfg.efConstruction.toInt),
    ("ef_search", index.cfg.efSearch.toInt),
    ("max_layers", index.cfg.maxLayers.toInt),
    ("entry_point", index.entryPoint),
    ("max_layer", index.maxLayer)]

def writeJsonGraph {V : Type} (index : HNSWIndex V) : List Char :=
  "\x7b\n".toList ++
    ((scalars index).flatMap (fun member => memberText member.1 member.2) ++
      ("  \"adj\": [\n".toList ++
        (rows ((List.range index.size).map (nodeText index)) ++
          "  ]\n\x7d\n".toList)))

/-! ## The parser -/

structure JsonGraph where
  version : Int32 := 0
  dim : Int32 := 0
  vecCount : UInt32 := 0
  M : Int32 := 0
  Mmax0 : Int32 := 0
  efConstruction : Int32 := 0
  efSearch : Int32 := 0
  maxLayers : Int32 := 0
  entryPoint : UInt32 := 0
  maxLayer : Int32 := 0
  adj : List (List (List UInt32)) := []
  deriving DecidableEq, Repr

/-- The character a cursor points at. -/
def peek (p : List Char) : Char := p.headD '\x00'

def isWs (c : Char) : Bool := c = ' ' ∨ c = '\n' ∨ c = '\r' ∨ c = '\t'

def skipWs (p : List Char) : List Char := p.dropWhile isWs

def expect (c : Char) (p : List Char) : Except Failure (List Char) :=
  let p := skipWs p
  if peek p = c then .ok p.tail
  else .error (.runtimeError ("Snapshot JSON: expected '" ++
    (String.singleton c ++ ("' got '" ++ (String.singleton (peek p) ++ "'")))))

def isKeyChar (c : Char) : Bool := c ≠ '\x00' ∧ c ≠ '"'

def parseKey (p : List Char) : Except Failure (String × List Char) := do
  let p ← expect '"' (skipWs p)
  let key := String.ofList (p.takeWhile isKeyChar)
  let p ← expect '"' (p.dropWhile isKeyChar)
  return (key, p)

/-- The digits from the cursor on; `int64_t` wraps. -/
def readDigits : Int64 → List Char → Int64 × List Char
  | v, [] => (v, [])
  | v, c :: p =>
      if c.isDigit then readDigits (v * 10 + Int64.ofNat (c.toNat - '0'.toNat)) p
      else (v, c :: p)

def parseInt (p : List Char) : Int64 × List Char :=
  let p := skipWs p
  if peek p = '-' then
    let (v, p) := readDigits 0 p.tail
    (-v, p)
  else readDigits 0 p

def parseU32 (p : List Char) : Except Failure (UInt32 × List Char) :=
  let (v, p) := parseInt p
  .ok (v.toUInt64.toUInt32, p)

/-- The `while (true)` of the three array parsers.  The blanks that two of
them skip before an item are the ones the item skips first. -/
def parseItems {α : Type} (item : List Char → Except Failure (α × List Char)) :
    ℕ → List Char → Except Failure (List α × List Char)
  | 0, _ => .error .nonTermination
  | fuel + 1, p => do
      let (x, p) ← item p
      let p := skipWs p
      if peek p = ']' then return ([x], p.tail)
      let p ← expect ',' p
      let (xs, p) ← parseItems item fuel p
      return (x :: xs, p)

/-- `[`, then items up to the `]`. -/
def parseArray {α : Type} (item : List Char → Except Failure (α × List Char))
    (p : List Char) : Except Failure (List α × List Char) := do
  let p ← expect '[' p
  if peek (skipWs p) = ']' then return ([], (skipWs p).tail)
  parseItems item (p.length + 1) (skipWs p)

def parseU32Array : List Char → Except Failure (List UInt32 × List Char) :=
  parseArray parseU32

def parseNodeAdj (p : List Char) :
    Except Failure (List (List UInt32) × List Char) := do
  let p ← expect '{' p
  let (key, p) ← parseKey p
  if key ≠ "l" then
    throw (.runtimeError "Snapshot JSON: expected key 'l'")
  let p ← expect ':' p
  let (layers, p) ← parseArray parseU32Array p
  let p ← expect '}' p
  return (layers, p)

/-- The members whose value is one integer. -/
def scalarField : String → Option (JsonGraph → Int64 → JsonGraph)
  | "version" => some fun g v => { g with version := v.toInt32 }
  | "dim" => some fun g v => { g with dim := v.toInt32 }
  | "vec_count" => some fun g v => { g with vecCount := v.toUInt64.toUInt32 }
  | "M" => some fun g v => { g with M := v.toInt32 }
  | "M_max0" => some fun g v => { g with Mmax0 := v.toInt32 }
  | "ef_construction" => some fun g v => { g with efConstruction := v.toInt32 }
  | "ef_search" => some fun g v => { g with efSearch := v.toInt32 }
  | "max_layers" => some fun g v => { g with maxLayers := v.toInt32 }
  | "entry_point" => some fun g v =>
      { g with entryPoint := v.toUInt64.toUInt32 }
  | "max_layer" => some fun g v => { g with maxLayer := v.toInt32 }
  | _ => none

/-- The value of a member; that of an unknown key is left where it is. -/
def parseValue (g : JsonGraph) (key : String) (p : List Char) :
    Except Failure (JsonGraph × List Char) :=
  match scalarField key with
  | some assign =>
      let (v, p) := parseInt p
      .ok (assign g v, p)
  | none =>
      if key = "adj" then do
        let (adj, p) ← parseArray parseNodeAdj p
        return ({ g with adj := g.adj ++ adj }, p)
      else .ok (g, p)

def parseMember (g : JsonGraph) (p : List Char) :
    Except Failure (JsonGraph × List Char) := do
  let (key, p) ← parseKey p
  let p ← expect ':' p
  parseValue g key (skipWs p)

/-- The top-level loop. -/
def parseMembers : ℕ → JsonGraph → List Char →
    Except Failure (JsonGraph × List Char)
  | 0, _, _ => .error .nonTermination
  | fuel + 1, g, p => do
      let p := skipWs p
      if peek p = '}' then return (g, p.tail)
      let (g, p) ← parseMember g (if peek p = ',' then skipWs p.tail else p)
      parseMembers fuel g p

/-- The graph at the front of a text, and what follows it. -/
def parseText (p : List Char) : Except Failure (JsonGraph × List Char) := do
  let p ← expect '{' p
  parseMembers (p.length + 1) {} p

/-- `content` is what is in the file at the path. -/
def parseJsonGraph (path : String) (content : Option (List Char)) :
    Except Failure JsonGraph :=
  match content with
  | none =>
      .error (.runtimeError ("Snapshot: cannot open graph file: " ++ path))
  | some p => do
      let (g, _) ← parseText p
      return g

end GraphText
end VecDB
