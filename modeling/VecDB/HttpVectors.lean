import VecDB.HttpInserts
import VecDB.SearchNaming
import VecDB.SnapshotReload
import Mathlib.Tactic

/-!
# Vectors that the handlers pass on

`handle_insert` and `handle_search` are exact where each call either inserts, or
searches for, the vector that the body binds to the key, or answers with an
error and changes nothing.  They are so wherever what is read is what the body
says, and nowhere else: a store with room for one entry tells two vectors apart
that were inserted, and a search of one node tells two queries apart.
-/

namespace VecDB

open StateRules Running

namespace HttpApi

/-! ## What the handlers should do -/

section Exact

variable (convert : List Char → Option UInt32) {dim : UInt32}
  (body : List Char)

/-- Each call inserts the vector, under the id of the request, and says what
the insert returned; or it throws what the insert throws. -/
def Inserts (vec : Vec dim) : Prop :=
  ∀ (D : Type) [Preorder D] [DecidableLT D] (os : OS)
    (rt : Runtime (Vec dim) D) (us : ℕ) (s : Running (ShardManager dim)),
    (handleInsert convert os rt us body).run s =
      match (ShardManager.tryInsert os rt (insertId body s.obj).toUInt64
          vec).run s with
      | .ok out s' => .ok (insertText out.1 out.2 (insertId body s.obj) us
          s'.obj.totalVectors) s'
      | .error e s' => .error e s'

/-- Each call searches for the query, and tells the result. -/
def Searches (query : Vec dim) : Prop :=
  ∀ (D : Type) [Preorder D] [DecidableLT D] (rt : Runtime (Vec dim) D)
    (ps : PartialSorter (HNSWSearchResult D)) (throws : ℕ → Bool)
    (distanceText : D → String) (us : ℕ) (m : ShardManager dim),
    handleSearch convert rt ps throws distanceText us body m =
      ((m.search rt ps query (searchTopK body) 0 throws).1.map
          (searchText distanceText us),
        (m.search rt ps query (searchTopK body) 0 throws).2)

def IsError (text : String) : Prop :=
  "\x7b\"error\":\"".toList <+: text.toList

variable (dim)

/-- `handle_insert` inserts the bound vector, or answers with an error and
changes nothing. -/
def InsertsExactly : Prop :=
  (∃ vec : Vec dim, Binds convert body "vector" vec ∧
      Inserts convert body vec) ∨
    ∃ text, IsError text ∧
      ∀ (D : Type) [Preorder D] [DecidableLT D] (os : OS)
        (rt : Runtime (Vec dim) D) (us : ℕ) (s : Running (ShardManager dim)),
        (handleInsert convert os rt us body).run s = .ok text s

/-- The same for the query of `handle_search`. -/
def SearchesExactly : Prop :=
  (∃ query : Vec dim, Binds convert body "query" query ∧
      Searches convert body query) ∨
    ∃ text, IsError text ∧
      ∀ (D : Type) [Preorder D] [DecidableLT D] (rt : Runtime (Vec dim) D)
        (ps : PartialSorter (HNSWSearchResult D)) (throws : ℕ → Bool)
        (distanceText : D → String) (us : ℕ) (m : ShardManager dim),
        handleSearch convert rt ps throws distanceText us body m =
          (.ok text, m)

end Exact

/-! ## What they do -/

section Handlers

variable {convert : List Char → Option UInt32} {dim : UInt32}
  {body : List Char} {key text : String} {vec : Vec dim}

theorem inserts_of_read
    (hread : readVector convert dim "vector" body = .ok vec) :
    Inserts convert body vec := by
  intro D _ _ os rt us s
  cases hinsert : (ShardManager.tryInsert os rt
      (insertId body s.obj).toUInt64 vec).run s with
  | ok out s' => exact handleInsert_of_insert hread hinsert
  | error e s' => exact handleInsert_of_insert_error hread hinsert

theorem searches_of_read
    (hread : readVector convert dim "query" body = .ok vec) :
    Searches convert body vec := by
  intro D _ _ rt ps throws distanceText us m
  unfold handleSearch
  rw [hread]

theorem isError_of_read
    (hread : readVector convert dim key body = .error text) :
    IsError text := by
  unfold readVector at hread
  dsimp only at hread
  split_ifs at hread
  · cases hread
    have hstart : "\x7b\"error\":\"".toList <+:
        "\x7b\"error\":\"missing ".toList := by decide
    unfold IsError missingText
    simp only [String.toList_append, List.append_assoc]
    exact hstart.trans (List.prefix_append _ _)
  · cases hread
    unfold IsError dimText
    simp only [String.toList_append, List.append_assoc]
    exact List.prefix_append _ _

/-- A text that begins otherwise is no error. -/
theorem not_isError_of_front {front : String}
    (hfront : front.toList <+: text.toList)
    (hshort : ¬ "\x7b\"error\":\"".toList <+: front.toList)
    (hlong : ¬ front.toList <+: "\x7b\"error\":\"".toList) :
    ¬ IsError text := by
  intro herror
  rcases List.prefix_or_prefix_of_prefix herror hfront with h | h
  · exact hshort h
  · exact hlong h

theorem not_isError_insertText (shardId nodeId : ℕ) (vid : Int64)
    (us total : ℕ) : ¬ IsError (insertText shardId nodeId vid us total) := by
  have hfront : "\x7b\"shard_id\":".toList <+:
      (insertText shardId nodeId vid us total).toList := by
    unfold insertText
    simp only [String.toList_append, List.append_assoc]
    exact List.prefix_append _ _
  exact not_isError_of_front hfront (by decide) (by decide)

theorem not_isError_searchText {D : Type} (distanceText : D → String) (us : ℕ)
    (sr : ShardSearchResult D) : ¬ IsError (searchText distanceText us sr) := by
  have hfront : "\x7b\"latency_us\":".toList <+:
      (searchText distanceText us sr).toList := by
    unfold searchText
    simp only [String.toList_append, List.append_assoc]
    exact List.prefix_append _ _
  exact not_isError_of_front hfront (by decide) (by decide)

end Handlers

/-! ## A store that tells vectors apart -/

/-- A log whose mapping has room for one entry of any dimension. -/
def roomyLog (dim : UInt32) : WAL dim :=
  { WAL.created dim 1000 with
    file := WAL.headerImage dim (ByteFile.empty.resize (2 ^ 40)) 0
    mapSize := 2 ^ 40 }

theorem roomyLog_holds (dim : UInt32) : WAL.Holds (roomyLog dim) [] where
  mapped := rfl
  mapSize_eq := rfl
  initial_le := by
    unfold roomyLog WAL.initialSize
    norm_num
  mapSize_lt := by
    unfold roomyLog
    norm_num
  header := WAL.readHeader_headerImage (by simp [WAL.headerSize])
    (by norm_num)
  next := rfl
  fits := by
    unfold roomyLog WAL.entryPtr WAL.headerSize
    norm_num
  valid := by simp
  entry := by simp [WAL.numbered]

theorem roomyLog_append {dim : UInt32} (vectorId : UInt64) (vec : Vec dim) :
    ∃ lsn wal, (WAL.append OS.reliable vectorId vec).run (roomyLog dim) =
      .ok lsn wal := by
  have hdim := dim.toNat_lt
  have hfits : WAL.entryPtr dim ((roomyLog dim).nextLsn + 1) ≤
      (roomyLog dim).mapSize := by
    change 64 + (0 + 1) * (WAL.fixedHdr + dim.toNat * 4) ≤ 2 ^ 40
    unfold WAL.fixedHdr
    omega
  have hreserve : (WAL.reserve OS.reliable).run (roomyLog dim) =
      .ok () (WAL.reserved (roomyLog dim)) := by
    rw [WAL.reserved_of_fits hfits]
    exact WAL.reserve_of_fits hfits
  exact ⟨_, _, (roomyLog_holds dim).append_run hreserve
    (by rwa [WAL.reserved_of_fits hfits]) vectorId vec⟩

/-- The shard of a manager that has only one. -/
def soleShard {dim : UInt32} (index : HNSWIndex (Vec dim)) (wal : WAL dim) :
    ShardState dim where
  index := index
  wal := wal
  files := ShardState.noFiles.snapshot
  shardId := 0
  healthy := true

/-- A manager of one shard. -/
def ofIndex {dim : UInt32} (ring : ConsistentHashRing)
    (index : HNSWIndex (Vec dim)) : ShardManager dim where
  cfg := index.cfg
  shardCount := 1
  dataDir := "data"
  ring := ring
  shards := [soleShard index (roomyLog dim)]

theorem exists_ring_index (dim : UInt32) :
    ∃ (ring : ConsistentHashRing) (index : HNSWIndex (Vec dim)),
      ConsistentHashRing.new (Sorter.insertion _) 1 1 = .ok ring ∧
        HNSWIndex.new HNSWIndex.smallConfig (fun _ => 0) = .ok index :=
  ⟨_, _, rfl, rfl⟩

/-- The insert of any vector returns, and the vector is in the index. -/
theorem exists_inserting (dim : UInt32) : ∃ m : ShardManager dim,
    ∀ vectorId (vec : Vec dim), ∃ out m',
      (ShardManager.tryInsert OS.reliable (wordLine dim) vectorId vec).run
        ⟨m, ample⟩ = .ok out ⟨m', ample⟩ ∧
      m'.shards.map (fun ss => ss.index.vectors) = [[vec]] := by
  obtain ⟨ring, index₀, hring, hnew⟩ := exists_ring_index dim
  refine ⟨ofIndex ring index₀, fun vectorId vec => ?_⟩
  obtain ⟨s, hs, hlt⟩ := ConsistentHashRing.getShard_lt hring vectorId
  obtain rfl : s = 0 := by
    have hone : (1 : UInt32).toNat = 1 := rfl
    omega
  obtain ⟨lsn, wal, happend⟩ := roomyLog_append vectorId vec
  obtain ⟨index, hall, _, hvectors, _⟩ := HNSWIndex.insertAll_new
    (wordLine dim) hnew (by decide) [vec] (by norm_num)
  rw [HNSWIndex.insertAll, except_bind_eq_ok] at hall
  obtain ⟨⟨id, index'⟩, hinsert, hrest⟩ := hall
  cases hrest
  have hstores := HNSWIndex.new_stores hnew
  have hagrees : Agrees (ShardManager.tryInsert OS.reliable (wordLine dim)
      vectorId vec) (ofIndex ring index₀)
      ((ofIndex ring index₀).insert OS.reliable (wordLine dim) vectorId vec) :=
    ShardManager.tryInsert_ample vectorId vec fun ss hss => by
      rw [List.mem_singleton.mp hss]
      exact (hstores.size_eq.trans
        (congrArg List.length hstores.vectors_eq).symm).le
  have hmodel : (ofIndex ring index₀).insert OS.reliable (wordLine dim)
      vectorId vec = .ok ((0, id), { ofIndex ring index₀ with
        shards := [soleShard index wal] }) := by
    have howner : (ofIndex ring index₀).ring.getShard vectorId = .ok 0 := hs
    have hshard : (ofIndex ring index₀).shards[0]? =
      some (soleShard index₀ (roomyLog dim)) := rfl
    rw [ShardManager.insert, howner, except_bind_ok, hshard]
    dsimp only
    rw [ShardState.insert, soleShard, happend]
    dsimp only
    rw [hinsert]
    rfl
  rw [hmodel] at hagrees
  exact ⟨_, _, hagrees, by simp [soleShard, hvectors]⟩

theorem mergeResults_singleton (ps : PartialSorter (HNSWSearchResult ℕ))
    (r : HNSWSearchResult ℕ) {topK : Int32} (htopK : 1 ≤ topK.toInt) :
    mergeResults ps [[r]] topK = .ok [r] := by
  have hcounts : CountsEnough [[r]] topK := Or.inl (by norm_num)
  obtain ⟨out, hout⟩ := mergeResults_ok ps (by omega) hcounts
  obtain ⟨rest, hperm, hlength, _⟩ := mergeResults_eq_ok hout
  rw [hcounts.toNat_min, List.flatten_singleton, List.length_singleton,
    min_eq_left (by omega)] at hlength
  obtain ⟨found, rfl⟩ := List.length_eq_one_iff.mp hlength
  have hfound : found ∈ [r] := hperm.mem_iff.mp (by simp)
  rw [hout, List.mem_singleton.mp hfound]

/-- The only hit of a search in an index of one vector. -/
theorem search_one {dim : UInt32} (rt : Runtime (Vec dim) ℕ)
    {index : HNSWIndex (Vec dim)} {layers : List ℕ}
    (h : HNSWIndex.RepInv index layers) {vec : Vec dim}
    (hvectors : index.vectors = [vec]) (query : Vec dim) {topK : Int32}
    (htopK : 1 ≤ topK.toInt) (ef : Int32) :
    index.search rt query topK ef = .ok [⟨rt.l2sq vec query, 0⟩] := by
  have hlayers : layers ≠ [] := by
    rintro rfl
    have hlength := h.vectors
    rw [hvectors] at hlength
    cases hlength
  obtain ⟨out, hout⟩ | ⟨hneg, _⟩ := h.search_returns rt query topK ef
  · obtain ⟨hdist, hnodup⟩ := h.search_hits hout
    have hall : ∀ r ∈ out, r = ⟨rt.l2sq vec query, 0⟩ := by
      rintro ⟨d, i⟩ hr
      obtain ⟨found, hfound, hd⟩ := hdist _ hr
      rw [hvectors] at hfound
      obtain ⟨hi, hsame⟩ := List.getElem?_eq_some_iff.mp hfound
      obtain rfl : i = 0 := Nat.lt_one_iff.mp hi
      obtain rfl : vec = found := hsame
      simp only at hd
      rw [hd]
    have hone : out.length = 1 := by
      have hpos := List.length_pos_iff.mpr (h.search_ne_nil hlayers htopK hout)
      have hle : (out.map HNSWSearchResult.nodeId).length ≤ [0].length := by
        apply List.Subperm.length_le
        apply List.subperm_of_subset hnodup
        intro i hi
        obtain ⟨r, hr, rfl⟩ := List.mem_map.mp hi
        rw [hall r hr]
        exact List.mem_singleton_self _
      rw [List.length_map] at hle
      exact le_antisymm hle hpos
    obtain ⟨r, rfl⟩ := List.length_eq_one_iff.mp hone
    rw [hout, hall r (List.mem_singleton_self r)]
  · omega

/-- The search of one node, whatever the distances are. -/
theorem exists_searching (dim : UInt32) : ∃ m : ShardManager dim,
    ∀ (rt : Runtime (Vec dim) ℕ) (ps : PartialSorter (HNSWSearchResult ℕ))
      (query : Vec dim) {topK : Int32}, 1 ≤ topK.toInt → ∀ ef,
      m.search rt ps query topK ef (fun _ => false) = (.ok {
        results := [⟨rt.l2sq (Vec.zero dim) query, 0⟩]
        degraded := false
        shardsOk := 1
        shardsErr := 0 }, m) := by
  obtain ⟨ring, index₀, _, hnew⟩ := exists_ring_index dim
  obtain ⟨index, _, hrep, hvectors, _⟩ := HNSWIndex.insertAll_new
    (wordLine dim) hnew (by decide) [Vec.zero dim] (by norm_num)
  refine ⟨ofIndex ring index, fun rt ps query topK htopK ef => ?_⟩
  have htask : (ofIndex ring index).searchTasks rt query topK ef
      (fun _ => false) (soleShard index (roomyLog dim)) =
        .ok [⟨rt.l2sq (Vec.zero dim) query, 0⟩] :=
    search_one rt hrep hvectors query htopK
      (ShardManager.efActual index.cfg ef)
  have hgather : gather ((ofIndex ring index).searchTasks rt query topK ef
      fun _ => false) (ofIndex ring index).shards = {
        partials := [[⟨rt.l2sq (Vec.zero dim) query, 0⟩]]
        degraded := false
        shardsOk := 1
        shardsErr := 0
        shards := (ofIndex ring index).shards } := by
    unfold gather
    rw [ofIndex, List.foldl_cons, List.foldl_nil, gatherStep]
    unfold ofIndex at htask
    rw [htask]
    rfl
  unfold ShardManager.search
  rw [hgather]
  dsimp only
  rw [mergeResults_singleton ps _ htopK]
  rfl

/-! ## When the handlers are exact -/

section Law

variable {convert : List Char → Option UInt32} {dim : UInt32}
  {body : List Char} {vec other : Vec dim}

/-- A call inserts one vector only. -/
theorem Inserts.eq (hvec : Inserts convert body vec)
    (hother : Inserts convert body other) : vec = other := by
  obtain ⟨m, hm⟩ := exists_inserting dim
  have hrun := hvec ℕ OS.reliable (wordLine dim) 0 ⟨m, ample⟩
  obtain ⟨out, m₁, hfirst, hvectors⟩ :=
    hm (insertId body m).toUInt64 vec
  obtain ⟨out', m₂, hsecond, hvectors'⟩ :=
    hm (insertId body m).toUInt64 other
  rw [hother ℕ OS.reliable (wordLine dim) 0 ⟨m, ample⟩, hfirst, hsecond] at hrun
  obtain rfl : m₂ = m₁ := by
    injection hrun with _ hstate
    exact congrArg Running.obj hstate
  rw [hvectors] at hvectors'
  cases hvectors'
  rfl

/-- A text that is longer for a nonzero distance. -/
def digitText (d : ℕ) : String :=
  if d = 0 then "" else "0"

theorem length_searchText_one (us : ℕ) (d : ℕ) :
    (searchText digitText us {
      results := [⟨d, 0⟩]
      degraded := false
      shardsOk := 1
      shardsErr := 0 }).length =
      (searchText digitText us {
        results := [⟨0, 0⟩]
        degraded := false
        shardsOk := 1
        shardsErr := 0 }).length + (digitText d).length := by
  have hone : ∀ text : String, ",".intercalate [text] = text :=
    fun text => rfl
  have hnone : (digitText 0).length = 0 := rfl
  unfold searchText resultText
  simp only [List.map_cons, List.map_nil, hone, String.length_append, hnone]
  omega

theorem one_le_searchTopK (body : List Char) :
    1 ≤ (searchTopK body).toInt := by
  unfold searchTopK
  dsimp only
  split_ifs with hout
  · decide
  · rw [not_or, Int32.le_iff_toInt_le] at hout
    have hpos := hout.1
    have hzero : (0 : Int32).toInt = 0 := rfl
    omega

/-- A call searches for one query only. -/
theorem Searches.eq (hvec : Searches convert body vec)
    (hother : Searches convert body other) : vec = other := by
  classical
  obtain ⟨m, hm⟩ := exists_searching dim
  -- the distance tells `vec` from all others, and so does the answer
  obtain ⟨rt, hrt⟩ : ∃ rt : Runtime (Vec dim) ℕ,
      ∀ a q, rt.l2sq a q = if q = vec then 0 else 1 :=
    ⟨{ wordLine dim with l2sq := fun _ q => if q = vec then 0 else 1 },
      fun _ _ => rfl⟩
  have hrun := hvec ℕ rt (Sorter.insertion _).front (fun _ => false)
    digitText 0 m
  rw [hother ℕ rt (Sorter.insertion _).front (fun _ => false) digitText 0 m,
    hm rt _ other (one_le_searchTopK body), hm rt _ vec
      (one_le_searchTopK body)] at hrun
  have htext := congrArg String.length (Except.ok.inj (Prod.mk.inj hrun).1)
  rw [hrt, hrt, if_pos rfl] at htext
  by_contra hne
  rw [if_neg (Ne.symm hne), length_searchText_one] at htext
  have hone : (digitText 1).length = 1 := rfl
  omega

theorem insertsExactly_of_passesOn
    (h : PassesOn convert dim body "vector") :
    InsertsExactly convert dim body := by
  cases hread : readVector convert dim "vector" body with
  | ok vec => exact Or.inl ⟨vec, h vec hread, inserts_of_read hread⟩
  | error text =>
      exact Or.inr ⟨text, isError_of_read hread,
        fun _ _ _ _ _ _ _ => handleInsert_refused hread⟩

theorem InsertsExactly.passesOn (h : InsertsExactly convert dim body) :
    PassesOn convert dim body "vector" := by
  intro vec hread
  have hvec := inserts_of_read hread
  rcases h with ⟨bound, hbinds, hbound⟩ | ⟨text, herror, hrefuses⟩
  · rwa [hvec.eq hbound]
  · obtain ⟨m, hm⟩ := exists_inserting dim
    obtain ⟨out, m', hinsert, _⟩ := hm (insertId body m).toUInt64 vec
    have hrun := hvec ℕ OS.reliable (wordLine dim) 0 ⟨m, ample⟩
    rw [hrefuses ℕ OS.reliable (wordLine dim) 0 ⟨m, ample⟩, hinsert] at hrun
    injection hrun with htext
    rw [htext] at herror
    exact absurd herror (not_isError_insertText _ _ _ _ _)

theorem searchesExactly_of_passesOn
    (h : PassesOn convert dim body "query") :
    SearchesExactly convert dim body := by
  cases hread : readVector convert dim "query" body with
  | ok query => exact Or.inl ⟨query, h query hread, searches_of_read hread⟩
  | error text =>
      refine Or.inr ⟨text, isError_of_read hread, fun _ _ _ _ _ _ _ _ _ => ?_⟩
      unfold handleSearch
      rw [hread]

theorem SearchesExactly.passesOn (h : SearchesExactly convert dim body) :
    PassesOn convert dim body "query" := by
  intro query hread
  have hquery := searches_of_read hread
  rcases h with ⟨bound, hbinds, hbound⟩ | ⟨text, herror, hrefuses⟩
  · rwa [hquery.eq hbound]
  · obtain ⟨m, hm⟩ := exists_searching dim
    have hrun := hquery ℕ (wordLine dim) (Sorter.insertion _).front
      (fun _ => false) toString 0 m
    rw [hrefuses ℕ (wordLine dim) (Sorter.insertion _).front (fun _ => false)
      toString 0 m, hm _ _ query (one_le_searchTopK body)] at hrun
    have htext := Except.ok.inj (Prod.mk.inj hrun).1
    rw [htext] at herror
    exact absurd herror (not_isError_searchText _ _ _)

end Law

/-- The handlers insert and search for what the request says, or refuse, where
the array that the search for the key finds is refused or is, token for token,
what the request says.  Elsewhere they do so only where a wrong text happens to
read like the right one. -/
theorem handlers_exact_iff (convert : List Char → Option UInt32)
    (dim : UInt32) (body : List Char) :
    ((ExactOrRefused convert dim body "vector" →
        InsertsExactly convert dim body) ∧
      (InsertsExactly convert dim body →
        ExactOrRefused convert dim body "vector" ∨
          ReadsAlike convert dim body "vector")) ∧
    (ExactOrRefused convert dim body "query" →
        SearchesExactly convert dim body) ∧
      (SearchesExactly convert dim body →
        ExactOrRefused convert dim body "query" ∨
          ReadsAlike convert dim body "query") :=
  ⟨⟨fun h => insertsExactly_of_passesOn h.passesOn,
      fun h => h.passesOn.exactOrRefused⟩,
    fun h => searchesExactly_of_passesOn h.passesOn,
      fun h => h.passesOn.exactOrRefused⟩

def badToken : List Char := "\x7b\"vector\":[1,x]\x7d".toList

def oneFloat : Vec 1 := Vec.ofBytes 1 [0, 0, 0x80, 0x3F]

/-- One float is read from two tokens, and inserted. -/
theorem not_insertsExactly_badToken :
    Inserts digitFloat badToken oneFloat ∧
      ¬ InsertsExactly digitFloat 1 badToken := by
  have hfound : arrayText badToken "vector" = some "1,x".toList := by decide
  have hbound : boundArray badToken "vector" = some "1,x".toList := by decide
  have hadmitted :
      Admitted 1 (leadingFloats digitFloat "1,x".toList).length := by
    constructor <;> decide
  have hread : readVector digitFloat 1 "vector" badToken = .ok oneFloat :=
    readVector_eq_ok.mpr ⟨_, hfound, hadmitted, by decide⟩
  refine ⟨inserts_of_read hread, fun h => ?_⟩
  rcases h.passesOn.exactOrRefused with hexact | halike
  · exact absurd (hexact _ hfound hadmitted).2.1 (by decide)
  · obtain ⟨arr, bound, harr, hbound', hne, _⟩ := halike
    rw [hfound] at harr
    rw [hbound] at hbound'
    exact hne (Option.some.inj (hbound'.symm.trans harr))

end HttpApi
end VecDB
