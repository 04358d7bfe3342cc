import VecDB.HttpInserts
import VecDB.HttpText
import VecDB.ServerRuns
import VecDB.WalSealed
import Mathlib.Data.UInt
import Mathlib.Tactic

/-!
# Ids that a client chooses

A body with a vector and an id, as JSON writes them.  `handle_insert` reads
the id as a signed 64-bit value: from `2 ^ 63` on the conversion throws, and
the id that the client chose is taken for a missing one.
-/

namespace VecDB

open FloatNumeral StateRules Running

namespace HttpApi

/-! ## Bodies -/

def isJsonBlank (c : Char) : Bool := c ∈ [' ', '\t', '\n', '\r']

def Blanks (p : List Char) : Prop := ∀ c ∈ p, isJsonBlank c = true

/-- A member of an object, with the blanks around its parts. -/
inductive Member (key : String) (value : List Char) : List Char → Prop
  | intro {a b c d : List Char} (ha : Blanks a) (hb : Blanks b)
      (hc : Blanks c) (hd : Blanks d) :
      Member key value (a ++ (quoted key ++ (b ++ ':' :: (c ++ (value ++ d)))))

/-- An object of two members. -/
inductive Pair (key other : String) (value value' : List Char) :
    List Char → Prop
  | intro {a p q d : List Char} (ha : Blanks a) (hp : Member key value p)
      (hq : Member other value' q) (hd : Blanks d) :
      Pair key other value value'
        (a ++ '\x7b' :: (p ++ ',' :: (q ++ '\x7d' :: d)))

def bracketed (arr : List Char) : List Char := '[' :: (arr ++ [']'])

/-- The characters of numbers, and what is between them in an array. -/
def arrayChars : List Char := "0123456789+-.eE, \t\n\r".toList

/-- The text between the brackets of an array of floats. -/
structure Components (convert : List Char → Option UInt32) {dim : UInt32}
    (arr : List Char) (vec : Vec dim) : Prop where
  chars : ∀ c ∈ arr, c ∈ arrayChars
  floats : (arr.splitOn ',').map (exactFloat convert) = vec.words.map some

/-- A body with a vector and an id, in either order. -/
def ValidBody (convert : List Char → Option UInt32) {dim : UInt32}
    (vec : Vec dim) (v : UInt64) (body : List Char) : Prop :=
  ∃ arr digits, Components convert arr vec ∧ Numeral digits v.toNat ∧
    (Pair "vector" "vector_id" (bracketed arr) digits body ∨
      Pair "vector_id" "vector" digits (bracketed arr) body)

/-! ## What the searches find -/

section Searches

variable {key other : String} {value value' a b c d p q rest : List Char}

theorem Blanks.isBlank (h : Blanks p) : ∀ c ∈ p, isBlank c = true := by
  intro c hc
  have hmem := of_decide_eq_true (h c hc)
  simp only [List.mem_cons, List.not_mem_nil, or_false] at hmem
  rcases hmem with rfl | rfl | rfl | rfl <;> decide

/-- A character that is no blank is not among blanks. -/
theorem Blanks.not_mem (h : Blanks p) {e : Char}
    (he : isJsonBlank e = false) : e ∉ p := by
  intro hmem
  rw [h e hmem] at he
  cases he

/-- No character of the key is one that the searches look for. -/
structure Plain (key : String) : Prop where
  quote : '"' ∉ key.toList
  colon : ':' ∉ key.toList
  bracket : '[' ∉ key.toList
  blank : key.toList.all (fun c => !isJsonBlank c) = true

theorem plain_vector : Plain "vector" where
  quote := by decide
  colon := by decide
  bracket := by decide
  blank := by decide

theorem plain_vectorId : Plain "vector_id" where
  quote := by decide
  colon := by decide
  bracket := by decide
  blank := by decide

/-- What stands behind a member's key is not what a key begins with. -/
theorem Plain.not_mem_head (hkey : Plain key) (hb : Blanks b) :
    ∀ c ∈ (b ++ ':' :: p).head?, c ∉ quoted key := by
  intro c hc
  have hstart : isJsonBlank c = true ∨ c = ':' := by
    cases b with
    | nil =>
        simp at hc
        exact Or.inr hc.symm
    | cons e b =>
        simp at hc
        exact Or.inl (hb c (by simp [hc]))
  unfold quoted
  rcases hstart with hstart | rfl
  · simp only [List.mem_cons, List.mem_append, List.not_mem_nil, or_false,
      not_or]
    refine ⟨?_, fun hmem => ?_, ?_⟩
    · rintro rfl
      cases hstart
    · have hblank := List.all_eq_true.mp hkey.blank c hmem
      rw [hstart] at hblank
      cases hblank
    · rintro rfl
      cases hstart
  · simp [hkey.colon]

/-- From the key of the first member on. -/
theorem findText_first (ha : Blanks a) (hp : Member key value p) :
    ∃ b c d, Blanks b ∧ Blanks c ∧ Blanks d ∧
      findText (quoted key) (a ++ '\x7b' :: (p ++ rest)) =
        some (quoted key ++ (b ++ ':' :: (c ++ (value ++ (d ++ rest))))) := by
  obtain ⟨ha', hb, hc, hd⟩ := hp
  refine ⟨_, _, _, hb, hc, hd, ?_⟩
  rename_i a' b c d
  have hskip : '"' ∉ a ++ '\x7b' :: a' := by
    simp [ha.not_mem (by decide : isJsonBlank '"' = false),
      ha'.not_mem (by decide : isJsonBlank '"' = false)]
  have htext : a ++ '\x7b' :: (a' ++ (quoted key ++
      (b ++ ':' :: (c ++ (value ++ d)))) ++ rest) =
      (a ++ '\x7b' :: a') ++ (quoted key ++
        (b ++ ':' :: (c ++ (value ++ (d ++ rest))))) := by
    simp
  rw [htext, findText_skip_unquoted hskip,
    findText_of_starts (List.prefix_append _ _)]

/-- From the key of the second member on. -/
theorem findText_second (hkey : Plain key) (hother : Plain other)
    (hne : key ≠ other) (hvalue : '"' ∉ value) (ha : Blanks a)
    (hp : Member other value p) (hq : Member key value' q) :
    ∃ b c d, Blanks b ∧ Blanks c ∧ Blanks d ∧
      findText (quoted key) (a ++ '\x7b' :: (p ++ ',' :: (q ++ rest))) =
        some (quoted key ++ (b ++ ':' :: (c ++ (value' ++ (d ++ rest))))) := by
  obtain ⟨ha₁, hb₁, hc₁, hd₁⟩ := hp
  obtain ⟨ha₂, hb₂, hc₂, hd₂⟩ := hq
  refine ⟨_, _, _, hb₂, hc₂, hd₂, ?_⟩
  rename_i a₁ b₁ c₁ d₁ a₂ b₂ c₂ d₂
  have hquote : isJsonBlank '"' = false := by decide
  have hfirst : '"' ∉ a ++ '\x7b' :: a₁ := by
    simp [ha.not_mem hquote, ha₁.not_mem hquote]
  have hbetween : '"' ∉ b₁ ++ ':' :: (c₁ ++ (value ++ (d₁ ++ ',' :: a₂))) := by
    simp [hb₁.not_mem hquote, hc₁.not_mem hquote, hvalue,
      hd₁.not_mem hquote, ha₂.not_mem hquote]
  have htext : a ++ '\x7b' :: (a₁ ++ (quoted other ++
      (b₁ ++ ':' :: (c₁ ++ (value ++ d₁)))) ++ ',' :: (a₂ ++ (quoted key ++
        (b₂ ++ ':' :: (c₂ ++ (value' ++ d₂)))) ++ rest)) =
      (a ++ '\x7b' :: a₁) ++ (quoted other ++
        ((b₁ ++ ':' :: (c₁ ++ (value ++ (d₁ ++ ',' :: a₂)))) ++
          (quoted key ++ (b₂ ++ ':' :: (c₂ ++ (value' ++ (d₂ ++ rest))))))) := by
    simp
  have hhead : ∀ e ∈ ((b₁ ++ ':' :: (c₁ ++ (value ++ (d₁ ++ ',' :: a₂)))) ++
      (quoted key ++ (b₂ ++ ':' :: (c₂ ++ (value' ++ (d₂ ++ rest)))))).head?,
      e ∉ quoted key := by
    rw [List.append_assoc, List.cons_append]
    exact hkey.not_mem_head hb₁
  rw [htext, findText_skip_unquoted hfirst,
    findText_skip_quoted hkey.quote hother.quote hne hhead,
    findText_skip_unquoted hbetween,
    findText_of_starts (List.prefix_append _ _)]

/-! ### What is read -/

theorem arrayText_of_member (hkey : Plain key) (hb : Blanks b) (hc : Blanks c)
    (harr : ']' ∉ value)
    (hfind : findText (quoted key) p =
      some (quoted key ++ (b ++ ':' :: (c ++ (bracketed value ++ rest))))) :
    arrayText p key = some value := by
  have hopen : isJsonBlank '[' = false := by decide
  have htext : quoted key ++ (b ++ ':' :: (c ++ (bracketed value ++ rest))) =
      (quoted key ++ (b ++ ':' :: c)) ++ '[' :: (value ++ ']' :: rest) := by
    simp [bracketed]
  rw [htext] at hfind
  refine arrayText_of_find hfind ?_ harr
  simp [quoted, hkey.bracket, hb.not_mem hopen, hc.not_mem hopen]

theorem parseInt64Field_of_member {n : ℕ} (hkey : Plain key) (hb : Blanks b)
    (hc : Blanks c) (hvalue : Numeral value n) (hrest : Ends rest)
    (hfind : findText (quoted key) p =
      some (quoted key ++ (b ++ ':' :: (c ++ (value ++ rest)))))
    (dflt : Int64) :
    parseInt64Field p key dflt =
      if n < 2 ^ 63 then Int64.ofNat n else dflt := by
  have hcolon : isJsonBlank ':' = false := by decide
  have hskip : ':' ∉ quoted key ++ b := by
    simp [quoted, hkey.colon, hb.not_mem hcolon]
  rw [← List.append_assoc] at hfind
  unfold parseInt64Field
  simp only [hfind, Option.bind_eq_bind, Option.bind_some,
    findChar_skip hskip, hvalue.stoll hc.isBlank hrest]
  split_ifs
  · rfl
  · rfl

theorem ends_of_blanks {e : Char} (hd : Blanks d) (he : e.isDigit = false) :
    Ends (d ++ e :: rest) := by
  intro c hc
  cases d with
  | nil =>
      simp at hc
      rwa [← hc]
  | cons f d =>
      simp at hc
      have hblank := hd c (by simp [hc])
      by_contra hdigit
      have hnone := not_isBlank_of_isDigit (by simpa using hdigit)
      rw [hd.isBlank c (by simp [hc])] at hnone
      cases hnone

end Searches

/-! ## Reading a valid body -/

section ValidBody

variable {convert : List Char → Option UInt32} {dim : UInt32}
  {vec : Vec dim} {v : UInt64} {body arr digits : List Char}

theorem Components.leadingFloats (h : Components convert arr vec) :
    leadingFloats convert arr = vec.words := by
  have hexact : ∀ token ∈ arr.splitOn ',',
      (exactFloat convert token).isSome = true := by
    intro token htoken
    have hmem := List.mem_map_of_mem (f := exactFloat convert) htoken
    rw [h.floats] at hmem
    obtain ⟨w, _, hw⟩ := List.mem_map.mp hmem
    rw [← hw]
    rfl
  have hfloats := leadingFloats_of_exact hexact
  rw [h.floats] at hfloats
  exact (List.map_injective_iff.mpr (Option.some_injective _) hfloats).symm

theorem ofNat_toNat_toInt32 (dim : UInt32) :
    Int32.ofNat dim.toNat = dim.toInt32 := by
  rw [← Int32.toBitVec_inj]
  simp [Int32.ofNat]
  rfl

theorem Components.readVector (h : Components convert arr vec)
    (harray : arrayText body "vector" = some arr) :
    readVector convert dim "vector" body = .ok vec := by
  have hne : vec.words ≠ [] := by
    intro hnil
    have hlength := congrArg List.length h.floats
    rw [hnil, List.length_map, List.map_nil, List.length_nil,
      List.length_eq_zero_iff] at hlength
    exact List.splitOn_ne_nil ',' arr hlength
  rw [readVector_eq_ok]
  refine ⟨arr, harray, ?_, ?_⟩
  · rw [h.leadingFloats]
    refine ⟨fun hnil => hne (List.length_eq_zero_iff.mp hnil), ?_⟩
    rw [vec.length_eq]
    exact ofNat_toNat_toInt32 dim
  · rw [h.leadingFloats, List.take_of_length_le vec.length_eq.le]

theorem Components.not_mem (h : Components convert arr vec) {c : Char}
    (hc : c ∉ arrayChars) : c ∉ arr :=
  fun hmem => hc (h.chars c hmem)

theorem Numeral.not_mem {n : ℕ} (h : Numeral digits n) {c : Char}
    (hc : c.isDigit = false) : c ∉ digits := by
  intro hmem
  rw [h.isDigit c hmem] at hc
  cases hc

/-- The vector of a valid body is read as it stands, and its id if a signed
64-bit value holds it. -/
theorem ValidBody.read (h : ValidBody convert vec v body) :
    readVector convert dim "vector" body = .ok vec ∧
      ∀ dflt, parseInt64Field body "vector_id" dflt =
        if v.toNat < 2 ^ 63 then Int64.ofNat v.toNat else dflt := by
  obtain ⟨arr, digits, hvec, hdigits, hpair⟩ := h
  have hclose : ']' ∉ arr := hvec.not_mem (by decide)
  rcases hpair with ⟨ha, hp, hq, hd⟩ | ⟨ha, hp, hq, hd⟩
  · obtain ⟨b, c, d, hb, hc, _, hfirst⟩ := findText_first ha hp
    have hquote : '"' ∉ bracketed arr := by
      simp [bracketed, hvec.not_mem (by decide : '"' ∉ arrayChars)]
    obtain ⟨b', c', d', hb', hc', hd', hsecond⟩ := findText_second
      plain_vectorId plain_vector (by decide) hquote ha hp hq
    exact ⟨hvec.readVector
      (arrayText_of_member plain_vector hb hc hclose hfirst),
      parseInt64Field_of_member plain_vectorId hb' hc' hdigits
        (ends_of_blanks hd' (by decide)) hsecond⟩
  · obtain ⟨b, c, d, hb, hc, hd₁, hfirst⟩ := findText_first ha hp
    obtain ⟨b', c', d', hb', hc', _, hsecond⟩ := findText_second
      plain_vector plain_vectorId (by decide)
      (hdigits.not_mem (by decide)) ha hp hq
    exact ⟨hvec.readVector
      (arrayText_of_member plain_vector hb' hc' hclose hsecond),
      parseInt64Field_of_member plain_vectorId hb hc hdigits
        (ends_of_blanks hd₁ (by decide)) hfirst⟩

end ValidBody

/-! ## Keeping the id -/

section Keeps

variable {dim : UInt32} {D : Type} [Preorder D] [DecidableLT D]

/-- The response that reports a 64-bit id. -/
def reportText (shardId nodeId : ℕ) (vectorId : UInt64) (us total : ℕ) :
    String :=
  "\x7b\"shard_id\":" ++ toString shardId ++ ",\"node_id\":" ++
    toString nodeId ++ ",\"vector_id\":" ++ toString vectorId.toNat ++
    ",\"latency_us\":" ++ toString us ++ ",\"total_vectors\":" ++
    toString total ++ "\x7d"

/-- Memory that grants one request more. -/
def grantingOne (memory : ℕ → Bool) : ℕ → Bool
  | 0 => true
  | i + 1 => memory i

/-- `handle_insert` has inserted under the id of the body. -/
def InsertedUnder (v : UInt64) (vec : Vec dim) (us : ℕ) (text : String)
    (m m' : ShardManager dim) : Prop :=
  ∃ shardId nodeId ss ss' lsn, m.Owns v shardId ss ∧
    m' = { m with shards := m.shards.set shardId ss' } ∧
    (ss.wal.Tidy → WAL.entryAt dim ss'.wal.file lsn =
      ⟨lsn, v, dim.toNat, vec⟩) ∧
    text = reportText shardId nodeId v us m'.totalVectors

/-- The id of the body comes through: it is what `handle_insert` goes by and
reports, and a gRPC call with this id that the gate admits leaves the same
store. -/
structure KeepsId (convert : List Char → Option UInt32) (os : OS)
    (rt : Runtime (Vec dim) D) (us : ℕ) (body : List Char) (vec : Vec dim)
    (v : UInt64) (s : Running (ShardManager dim)) : Prop where
  passed : (insertId body s.obj).toUInt64 = v
  reported : (insertId body s.obj).toInt = v.toNat
  inserted : ∀ text s', (handleInsert convert os rt us body).run s =
    .ok text s' → InsertedUnder v vec us text s.obj s'.obj
  agrees : ∀ (svc : VectorDBService dim) ctx req,
    (svc.gate ctx).1.isOk = true → svc.shardMgr = s.obj → req.vectorId = v →
      VectorDBService.decodeVector dim req.vector = some vec →
      (after (VectorDBService.insert rt ctx os req)
        ⟨svc, grantingOne s.memory⟩).obj.shardMgr =
        (after (handleInsert convert os rt us body) s).obj

variable {convert : List Char → Option UInt32} {os : OS}
  {rt : Runtime (Vec dim) D} {us : ℕ} {body : List Char} {vec : Vec dim}
  {v : UInt64} {s s' : Running (ShardManager dim)} {text : String}

theorem ValidBody.insertId_eq (h : ValidBody convert vec v body)
    (hv : v.toNat < 2 ^ 63) (m : ShardManager dim) :
    insertId body m = Int64.ofNat v.toNat := by
  have hneg : ¬ Int64.ofNat v.toNat < 0 := by
    rw [Int64.lt_iff_toInt_lt, Int64.toInt_ofNat_of_lt hv]
    simp
  unfold insertId
  rw [h.read.2, if_pos hv]
  exact if_neg hneg

theorem insertText_eq (hv : v.toNat < 2 ^ 63) (shardId nodeId us total : ℕ) :
    insertText shardId nodeId (Int64.ofNat v.toNat) us total =
      reportText shardId nodeId v us total := by
  unfold insertText reportText
  rw [Int64.toInt_ofNat_of_lt hv]
  rfl

theorem insertedUnder_of_ok {out : ℕ × ℕ}
    (hok : (ShardManager.tryInsert os rt v vec).run s = .ok out s') :
    InsertedUnder v vec us
      (reportText out.1 out.2 v us s'.obj.totalVectors) s.obj s'.obj := by
  obtain ⟨ss, t, howns, hshard, rfl⟩ := ShardManager.tryInsert_eq_ok hok
  obtain ⟨_, lsn, happend⟩ := ShardState.tryInsert_eq_ok hshard
  exact ⟨out.1, out.2, ss, t.obj, lsn, howns, rfl,
    fun htidy => htidy.append_entryAt happend, rfl⟩

/-- The manager behind a gRPC insert, once the vector has been decoded. -/
theorem insert_shardMgr {svc : VectorDBService dim} {ctx : ServerContext}
    {req : InsertRequest} (hgate : (svc.gate ctx).1.isOk = true)
    (hdecode : VectorDBService.decodeVector dim req.vector = some vec)
    (memory : ℕ → Bool) :
    (after (VectorDBService.insert rt ctx os req)
        ⟨svc, grantingOne memory⟩).obj.shardMgr =
      (after (ShardManager.tryInsert os rt req.vectorId vec)
        ⟨svc.shardMgr, memory⟩).obj := by
  unfold VectorDBService.insert
  rw [after_bind_of_ok (compute_run _ _), after_bind_of_ok (update_run _ _),
    if_neg (by simp [hgate]), hdecode]
  dsimp only
  have hrequest : (request : EStateM Failure (Running (VectorDBService dim))
      Unit).run ⟨(svc.gate ctx).2, grantingOne memory⟩ =
        .ok () ⟨(svc.gate ctx).2, memory⟩ := rfl
  rw [after_bind_of_ok hrequest, after_bind_pure, VectorDBService.onManager,
    after_onPart, VectorDBService.gate_shardMgr]

/-- The manager behind an HTTP insert that reads its body. -/
theorem after_handleInsert
    (hread : readVector convert dim "vector" body = .ok vec) :
    after (handleInsert convert os rt us body) s =
      after (ShardManager.tryInsert os rt (insertId body s.obj).toUInt64 vec)
        s := by
  cases hinsert : (ShardManager.tryInsert os rt
      (insertId body s.obj).toUInt64 vec).run s with
  | ok out t =>
      rw [after_of_ok hinsert, after_of_ok (handleInsert_of_insert hread hinsert)]
  | error e t =>
      rw [after_of_error hinsert,
        after_of_error (handleInsert_of_insert_error hread hinsert)]

theorem ValidBody.keepsId (h : ValidBody convert vec v body)
    (hv : v.toNat < 2 ^ 63) (os : OS) (rt : Runtime (Vec dim) D) (us : ℕ)
    (s : Running (ShardManager dim)) :
    KeepsId convert os rt us body vec v s where
  passed := by
    rw [h.insertId_eq hv]
    simp
  reported := by
    rw [h.insertId_eq hv]
    exact Int64.toInt_ofNat_of_lt hv
  inserted := by
    intro text s' hok
    obtain ⟨out, hinsert, rfl⟩ := handleInsert_eq_ok h.read.1 hok
    rw [h.insertId_eq hv] at hinsert ⊢
    rw [insertText_eq hv]
    exact insertedUnder_of_ok (by simpa using hinsert)
  agrees := by
    intro svc ctx req hgate hmgr hid hdecode
    rw [insert_shardMgr hgate hdecode, hid, hmgr,
      after_handleInsert h.read.1, h.insertId_eq hv]
    simp

/-- An id that a client chooses comes through exactly if a signed 64-bit value
holds it. -/
theorem keepsId_iff (os : OS) (rt : Runtime (Vec dim) D) (us : ℕ)
    (s : Running (ShardManager dim)) (h : ValidBody convert vec v body) :
    KeepsId convert os rt us body vec v s ↔ v.toNat < 2 ^ 63 := by
  refine ⟨fun hkeeps => ?_, fun hv => h.keepsId hv os rt us s⟩
  have hlt := Int64.toInt_lt (insertId body s.obj)
  rw [hkeeps.reported] at hlt
  exact_mod_cast hlt

end Keeps

/-! ## An id beyond the signed values -/

section Examples

open Deployment

def oneComponent : Vec oneShard.Dim := ⟨[0x3F800000], rfl⟩

def bodyWithId (digits : List Char) : List Char :=
  "\x7b\"vector\":[1],\"vector_id\":".toList ++ (digits ++ "\x7d".toList)

theorem bodyWithId_valid {digits : List Char} {v : UInt64}
    (hdigits : Numeral digits v.toNat) :
    ValidBody digitFloat oneComponent v (bodyWithId digits) := by
  have hchars : ∀ c ∈ ['1'], c ∈ arrayChars := by
    intro c hc
    rw [List.mem_singleton.mp hc]
    decide
  refine ⟨['1'], digits, ⟨hchars, by decide⟩, hdigits, Or.inl ?_⟩
  have hnone : Blanks [] := List.forall_mem_nil _
  have htext : bodyWithId digits = [] ++ '\x7b' ::
      (([] ++ (quoted "vector" ++ ([] ++ ':' ::
        ([] ++ (bracketed ['1'] ++ []))))) ++ ',' ::
      (([] ++ (quoted "vector_id" ++ ([] ++ ':' ::
        ([] ++ (digits ++ []))))) ++ '\x7d' :: [])) := by
    rw [List.append_nil digits]
    rfl
  rw [htext]
  exact .intro hnone (.intro hnone hnone hnone hnone)
    (.intro hnone hnone hnone hnone) hnone

def twelve : List Char := "12".toList

def firstUnsigned : UInt64 := 0x8000000000000000

def firstUnsignedText : List Char := "9223372036854775808".toList

theorem numeral_twelve : Numeral twelve 12 :=
  numeral_of_all (by decide) (by decide) (by decide)

theorem numeral_firstUnsigned :
    Numeral firstUnsignedText firstUnsigned.toNat :=
  numeral_of_all (by decide) (by decide) (by decide)

theorem keepsId_twelve : ∃ m,
    oneShard.start OS.reliable (fun _ i => i) (fun _ => ShardState.noFiles) =
        .ok m ∧
      KeepsId digitFloat .reliable oneShard.rt 0 (bodyWithId twelve)
        oneComponent 12 ⟨m, ample⟩ := by
  obtain ⟨m, hstart⟩ := oneShard_start fun _ i => i
  exact ⟨m, hstart, (keepsId_iff .reliable oneShard.rt 0 ⟨m, ample⟩
    (bodyWithId_valid numeral_twelve)).mpr (by decide)⟩

/-- A store that starts takes the vector under the id 0. -/
theorem not_keepsId_firstUnsigned : ∃ m,
    oneShard.start OS.reliable (fun _ i => i) (fun _ => ShardState.noFiles) =
        .ok m ∧
      ValidBody digitFloat oneComponent firstUnsigned
        (bodyWithId firstUnsignedText) ∧
      (insertId (bodyWithId firstUnsignedText) m).toUInt64 = 0 ∧
      ¬ KeepsId digitFloat .reliable oneShard.rt 0 (bodyWithId firstUnsignedText)
        oneComponent firstUnsigned ⟨m, ample⟩ := by
  obtain ⟨m, hstart⟩ := oneShard_start fun _ i => i
  have hvalid : ValidBody digitFloat oneComponent firstUnsigned
      (bodyWithId firstUnsignedText) := bodyWithId_valid numeral_firstUnsigned
  have hid : insertId (bodyWithId firstUnsignedText) m = 0 := by
    unfold insertId
    rw [hvalid.read.2, if_pos (by decide), (start_owns hstart 0).1]
    rfl
  refine ⟨m, hstart, hvalid, by rw [hid]; rfl, fun hkeeps => ?_⟩
  have hreported := hkeeps.reported
  rw [hid] at hreported
  exact absurd hreported (by decide)

end Examples

end HttpApi
end VecDB
