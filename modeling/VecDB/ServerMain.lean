import VecDB.HttpRuns
import VecDB.ShardRecovery
import Mathlib.Tactic

/-!
# The server process

`main` reads its arguments, builds the manager on the data directory, loads it
if `--load` is given, and serves HTTP clients until it is stopped.  It takes no
snapshot, so that a later process finds the logs of the earlier ones and nothing
to load.
-/

namespace VecDB

open FloatNumeral HttpApi HttpApiServer Running

namespace ServerMain

/-! ## Arguments -/

/-- The local variables of `main`. -/
structure Arguments where
  port : UInt16 := 8080
  shards : Int32 := 3
  dim : Int32 := 768
  dataDir : String := "./data"
  load : Bool := false
  deriving DecidableEq, Repr

def stoi (text : String) : Except Failure Int32 :=
  let t := text.toList.dropWhile isBlank
  match stollDigits (dropSign t) with
  | none => .error (.invalidArgument "stoi")
  | some n =>
      let value : ℤ := if t.head? = some '-' then -n else n
      if -2 ^ 31 ≤ value ∧ value < 2 ^ 31 then .ok (Int32.ofInt value)
      else .error (.outOfRange "stoi")

/-- The branches that take a value. -/
def takeValue (arg value : String) (args : Arguments) :
    Option (Except Failure Arguments) :=
  if arg = "--port" then
    some do return { args with port := (← stoi value).toUInt32.toUInt16 }
  else if arg = "--shards" then
    some do return { args with shards := ← stoi value }
  else if arg = "--dim" then some do return { args with dim := ← stoi value }
  else if arg = "--data-dir" then some (.ok { args with dataDir := value })
  else none

/-- The branches that stand alone; `--help` ends the program. -/
def takeFlag (arg : String) (args : Arguments) : Option Arguments :=
  if arg = "--load" then some { args with load := true }
  else if arg = "--help" ∨ arg = "-h" then none
  else some args

def readArguments : List String → Arguments →
    Except Failure (Option Arguments)
  | [], args => .ok (some args)
  | [arg], args => .ok (takeFlag arg args)
  | arg :: value :: rest, args =>
      match takeValue arg value args with
      | some taken => do readArguments rest (← taken)
      | none =>
          match takeFlag arg args with
          | none => .ok none
          | some args => readArguments (value :: rest) args

variable {D : Type} [Preorder D] [DecidableLT D]

def Arguments.config (args : Arguments) : HNSWConfig where
  dim := args.dim
  M := 16
  Mmax0 := 32
  efConstruction := 200
  efSearch := 50

def Arguments.deployment (args : Arguments) (sorter : Sorter VNode)
    (lib : ServerRuntime args.dim.toUInt32 D) : Deployment D where
  cfg := args.config
  shardCount := args.shards.toUInt32
  dataDir := args.dataDir
  virtualNodes := 150
  sorter := sorter
  rt := lib.rt

/-! ## The process -/

/-- What a process meets. -/
structure Environment where
  os : OS
  memory : ℕ → Bool
  rngs : ℕ → ℕ → ℕ
  clients : List Client

/-- What a process leaves; `loaded` is the number that it prints after
`load_all`. -/
structure Exit where
  loaded : Option ℕ := none
  responses : List (Option String) := []
  metrics : MetricsStore := MetricsStore.initial
  disk : ℕ → ShardFiles

def opened (dep : Deployment D) (load : Bool) (env : Environment)
    (disk : ℕ → ShardFiles) : Except Failure (ShardManager dep.Dim) := do
  let m ← dep.start env.os env.rngs disk
  if load then m.loadAll env.os dep.rt else return m

/-- From the construction of the manager to its destruction. -/
def serve (dep : Deployment D) (lib : ServerRuntime dep.Dim D)
    (floatText : UInt32 → String) (load : Bool) (env : Environment)
    (disk : ℕ → ShardFiles) : Except Failure Exit := do
  let m ← opened dep load env disk
  match (serveClients lib floatText env.clients).run
      ⟨⟨m, MetricsStore.initial⟩, env.memory⟩ with
  | .error e _ => throw e
  | .ok responses s => return {
      loaded := if load then some m.totalVectors else none
      responses := responses
      metrics := s.obj.metrics
      disk := s.obj.mgr.close }

/-- `disk` is what the data directory holds. -/
def main (sorter : Sorter VNode) (lib : (dim : UInt32) → ServerRuntime dim D)
    (floatText : UInt32 → String) (argv : List String) (env : Environment)
    (disk : ℕ → ShardFiles) : Except Failure Exit := do
  match ← readArguments argv {} with
  | none => return { disk := disk }
  | some args =>
      serve (args.deployment sorter (lib args.dim.toUInt32))
        (lib args.dim.toUInt32) floatText args.load env disk

/-- One process after another on a data directory. -/
def processes (sorter : Sorter VNode)
    (lib : (dim : UInt32) → ServerRuntime dim D)
    (floatText : UInt32 → String) :
    List (List String × Environment) → (ℕ → ShardFiles) →
      Except Failure (List Exit × (ℕ → ShardFiles))
  | [], disk => return ([], disk)
  | (argv, env) :: rest, disk => do
      let exit ← main sorter lib floatText argv env disk
      let (exits, disk) ← processes sorter lib floatText rest exit.disk
      return (exit :: exits, disk)

end ServerMain

/-! ## A data directory without snapshots -/

namespace Deployment

open StateRules LoggedStore ServerMain

variable {D : Type} [Preorder D] [DecidableLT D] {dep : Deployment D}
  {ring : ConsistentHashRing} {m : ShardManager dep.Dim}
  {calls : List (UInt64 × Vec dep.Dim)} {disk : ℕ → ShardFiles}

/-- The manager is empty and without snapshots, and its logs have the calls. -/
def Logged (dep : Deployment D) (ring : ConsistentHashRing)
    (calls : List (UInt64 × Vec dep.Dim)) (m : ShardManager dep.Dim) : Prop :=
  ∃ states, Refines dep ring states m ∧ ∀ s, (states s).live = [] ∧
    (states s).saved = none ∧ (states s).log = routedTo ring s calls

/-- Every start comes up on the logs of the calls. -/
def Opens (dep : Deployment D) (ring : ConsistentHashRing)
    (calls : List (UInt64 × Vec dep.Dim)) (disk : ℕ → ShardFiles) : Prop :=
  ∀ rngs, ∃ m, dep.start OS.reliable rngs disk = .ok m ∧
    Logged dep ring calls m ∧ ∀ s ss, m.shards[s]? = some ss →
      HNSWIndex.new dep.cfg (rngs s) = .ok ss.index

theorem opens_noFiles (haccepted : HNSWIndex.Accepted dep.cfg)
    (hcount : dep.shardCount ≠ 0) (hvnodes : dep.virtualNodes ≠ 0)
    (hdim : dep.Dim ≠ 0) :
    ∃ ring, Opens dep ring [] (fun _ => ShardState.noFiles) := by
  obtain ⟨m₀, hstart₀⟩ :=
    start_fresh_ok dep haccepted hcount hvnodes hdim fun _ _ => 0
  refine ⟨m₀.ring, fun rngs => ?_⟩
  obtain ⟨m, hstart⟩ := start_fresh_ok dep haccepted hcount hvnodes hdim rngs
  have h := start_fresh hstart
  rw [← (start_fresh hstart₀).ring_unique h]
  refine ⟨m, hstart, ⟨_, h, fun s => ⟨rfl, rfl, rfl⟩⟩, fun s ss hss => ?_⟩
  obtain ⟨_, _, _, _, _, hshard⟩ := Deployment.start_eq_ok hstart
  obtain ⟨_, _, hindex, _, rfl⟩ := ShardState.new_eq_ok.mp (hshard s ss hss)
  exact hindex

theorem Logged.totalVectors (h : Logged dep ring calls m) :
    m.totalVectors = 0 := by
  obtain ⟨states, hrefines, hstates⟩ := h
  have hnone : ∀ s < dep.shardCount.toNat,
      (states s).live.length =
        (routedTo ring s ([] : List (UInt64 × Vec dep.Dim))).length := by
    intro s _
    rw [(hstates s).1]
    rfl
  exact hrefines.totalVectors_eq hnone

/-- The logs have every call once. -/
theorem Logged.replay_sum (h : Logged dep ring calls m) :
    (m.shards.map fun ss => ss.wal.replay.1.length).sum = calls.length := by
  obtain ⟨states, hrefines, hstates⟩ := h
  have hlengths : (m.shards.map fun ss => ss.wal.replay.1.length) =
      (List.range dep.shardCount.toNat).map fun s =>
        (routedTo ring s calls).length := by
    apply List.ext_getElem
    · simp [hrefines.length_eq]
    · intro s hs hs'
      have hlt : s < m.shards.length := by simpa using hs
      have hrep := (hrefines.shard s _ (List.getElem?_eq_getElem hlt)).1
      rw [List.getElem_map, List.getElem_map, List.getElem_range,
        ← (hstates s).2.2]
      simpa using congrArg List.length hrep.replay_vecs
  rw [hlengths, hrefines.sum_routedTo]

/-- There is nothing to load. -/
theorem Logged.loadAll {rngs : ℕ → ℕ → ℕ} (h : Logged dep ring calls m)
    (hfresh : ∀ s ss, m.shards[s]? = some ss →
      HNSWIndex.new dep.cfg (rngs s) = .ok ss.index) :
    ∃ m', m.loadAll OS.reliable dep.rt = .ok m' ∧
      Logged dep ring calls m' := by
  obtain ⟨states, hrefines, hstates⟩ := h
  obtain ⟨m', hload⟩ := hrefines.loadAll_ok hfresh fun s _ vecs hvecs => by
    rw [(hstates s).2.1] at hvecs
    cases hvecs
  refine ⟨m', hload, _, hrefines.loadAll_eq_ok hfresh hload, fun s => ?_⟩
  rw [load_of_none (hstates s).2.1]
  exact hstates s

/-- What is inserted into an empty store is in its logs, and only there after
the process has ended. -/
theorem Logged.close {asked : List (Asked dep.Dim)}
    {ps : PartialSorter (HNSWSearchResult D)} {m' : ShardManager dep.Dim}
    (h : Logged dep ring calls m) (hrecorded : ∀ a ∈ asked, Recorded a)
    (hevents : dep.eventRun OS.reliable ps (asked.map Prod.fst) m =
      .ok m') : Opens dep ring (calls ++ insertsOf asked) m'.close := by
  intro rngs
  obtain ⟨states, hrefines, hstates⟩ := h
  have hrefines' := hrefines.eventRun_eq_ok hevents
  obtain ⟨m'', hstart⟩ := hrefines'.start_ok rngs
  obtain ⟨hreopen, hfresh⟩ := hrefines'.start_eq_ok hstart
  refine ⟨m'', hstart, ⟨_, hreopen, fun s => ?_⟩, hfresh⟩
  obtain ⟨_, hsaved, hlog⟩ := hstates s
  rw [ops_of_recorded hrecorded, requests_inserts]
  obtain ⟨_, hlog', hsaved'⟩ := serve_inserts 1000 Prod.snd
    (routedTo ring s (insertsOf asked)) (states s)
  refine ⟨rfl, hsaved'.trans hsaved, ?_⟩
  rw [routedTo_append, ← hlog]
  exact hlog'

theorem insertsOf_append {dim : UInt32} (before after : List (Asked dim)) :
    insertsOf (before ++ after) = insertsOf before ++ insertsOf after := by
  unfold insertsOf insertCalls
  rw [List.map_append, List.filterMap_append, List.filterMap_append]

theorem length_insertsOf_asks (lib : ServerRuntime dep.Dim D)
    (client : Client) (m : ShardManager dep.Dim) :
    (insertsOf (HttpApiServer.asks lib client m).toList).length ≤
      if PostsTo "/api/insert" client.received then 1 else 0 := by
  unfold HttpApiServer.asks
  by_cases hsearch : PostsTo "/api/search" client.received
  · rw [if_pos hsearch]
    unfold askedSearch
    split
    · exact Nat.zero_le _
    · exact Nat.zero_le _
  · by_cases hinsert : PostsTo "/api/insert" client.received
    · rw [if_neg hsearch, if_pos hinsert, if_pos hinsert]
      unfold askedInsert
      split
      · exact Nat.zero_le _
      · exact Nat.le_refl _
    · rw [if_neg hsearch, if_neg hinsert]
      exact Nat.zero_le _

theorem length_insertsOf_askedAll (lib : ServerRuntime dep.Dim D)
    (floatText : UInt32 → String) (clients : List Client)
    (s : Running (HttpApiServer dep.Dim)) :
    (insertsOf (askedAll lib floatText clients s)).length ≤
      inserting clients := by
  induction clients generalizing s with
  | nil => exact Nat.le_refl _
  | cons client clients ih =>
      have hfirst := length_insertsOf_asks lib client s.obj.mgr
      have hrest := ih (after
        (handleClient lib client.ctx floatText client.received) s)
      rw [askedAll, inserting_cons, insertsOf_append, List.length_append]
      omega

/-! ## One process -/

/-- Nothing that the process asks for is refused. -/
structure Granted (env : Environment) : Prop where
  os : env.os = OS.reliable
  memory : env.memory = ample
  clients : ∀ client ∈ env.clients, client.ctx.os = OS.reliable

/-- The process comes up empty, answers its clients and leaves the calls that
it counts in the logs. -/
structure Exits (dep : Deployment D) (ring : ConsistentHashRing)
    (calls : List (UInt64 × Vec dep.Dim)) (load : Bool) (env : Environment)
    (exit : Exit) (more : List (UInt64 × Vec dep.Dim)) : Prop where
  loaded : exit.loaded = if load then some 0 else none
  responses : List.Forall₂ (fun client response =>
    response.isSome = true ↔ client.received ≠ []) env.clients exit.responses
  counted : exit.metrics.totalInserts.toNat = more.length
  length_le : more.length ≤ inserting env.clients
  opens : Opens dep ring (calls ++ more) exit.disk

theorem Logged.serve {lib : ServerRuntime dep.Dim D}
    (floatText : UInt32 → String) (hrt : lib.rt = dep.rt) {env : Environment}
    (hgranted : Granted env) (hshards : dep.shardCount.toNat * 1000 < 2 ^ 31)
    (hentry : WAL.entrySize dep.Dim ≤ WAL.growSize)
    (hroom : calls.length + inserting env.clients < 2 ^ 32)
    (hgrow : 0 ≤ dep.cfg.Mmax0.toInt) (h : Logged dep ring calls m) :
    ∃ responses server more,
      (serveClients lib floatText env.clients).run
        ⟨⟨m, MetricsStore.initial⟩, env.memory⟩ =
          .ok responses ⟨server, ample⟩ ∧
      List.Forall₂ (fun client response => response.isSome = true ↔
        client.received ≠ []) env.clients responses ∧
      server.metrics.totalInserts.toNat = more.length ∧
      more.length ≤ inserting env.clients ∧
      Opens dep ring (calls ++ more) server.mgr.close := by
  obtain ⟨states, hrefines, hstates⟩ := h
  have hrooms : Rooms dep states (inserting env.clients) := fun s => by
    obtain ⟨hlive, _, hlog⟩ := hstates s
    have hle : (routedTo ring s calls).length ≤ calls.length :=
      List.length_filter_le ..
    rw [hlive, hlog]
    refine ⟨by omega, ?_, fun _ => hgrow⟩
    rw [List.length_nil]
    omega
  have hserver : Refines dep ring states (serving m).obj.mgr := hrefines
  obtain ⟨responses, server, hrun, hresponses, hevents, hmetrics⟩ :=
    hserver.serveClients_ok hrt floatText hgranted.clients hshards hentry
      hrooms
  have hrecorded := recorded_askedAll lib floatText env.clients (serving m)
  have hlength :=
    length_insertsOf_askedAll lib floatText env.clients (serving m)
  refine ⟨responses, server, _, hgranted.memory ▸ hrun, hresponses, ?_,
    hlength, Logged.close ⟨states, hrefines, hstates⟩ hrecorded hevents⟩
  have htotal := totalInserts_of_recorded hrecorded MetricsStore.initial
  have hzero : MetricsStore.initial.totalInserts = 0 := rfl
  have hsize : UInt64.size = 2 ^ 64 := rfl
  rw [hzero, UInt64.zero_add] at htotal
  rw [hmetrics]
  exact (congrArg UInt64.toNat htotal).trans
    (UInt64.toNat_ofNat_of_lt' (by omega))

theorem Opens.opened (load : Bool) {env : Environment}
    (hgranted : Granted env) (h : Opens dep ring calls disk) :
    ∃ m, ServerMain.opened dep load env disk = .ok m ∧
      Logged dep ring calls m := by
  obtain ⟨m, hstart, hlogged, hfresh⟩ := h env.rngs
  unfold ServerMain.opened
  rw [hgranted.os, hstart, except_bind_ok]
  cases load with
  | false => exact ⟨m, rfl, hlogged⟩
  | true => exact hlogged.loadAll hfresh

theorem Opens.serve (lib : ServerRuntime dep.Dim D)
    (floatText : UInt32 → String) (hrt : lib.rt = dep.rt) (load : Bool)
    {env : Environment} (hgranted : Granted env)
    (hshards : dep.shardCount.toNat * 1000 < 2 ^ 31)
    (hentry : WAL.entrySize dep.Dim ≤ WAL.growSize)
    (hroom : calls.length + inserting env.clients < 2 ^ 32)
    (hgrow : 0 ≤ dep.cfg.Mmax0.toInt) (h : Opens dep ring calls disk) :
    ∃ exit more, ServerMain.serve dep lib floatText load env disk = .ok exit ∧
      Exits dep ring calls load env exit more := by
  obtain ⟨m, hopened, hlogged⟩ := h.opened load hgranted
  obtain ⟨responses, server, more, hrun, hresponses, hcounted, hle, hopens⟩ :=
    hlogged.serve floatText hrt hgranted hshards hentry hroom hgrow
  refine ⟨{
    loaded := if load then some m.totalVectors else none
    responses := responses
    metrics := server.metrics
    disk := server.mgr.close }, more, ?_, ?_, hresponses, hcounted, hle,
    hopens⟩
  · unfold ServerMain.serve
    rw [hopened, except_bind_ok, hrun]
    rfl
  · rw [hlogged.totalVectors]

end Deployment

/-! ## Processes on one data directory -/

namespace ServerMain

open Deployment

variable {D : Type} [Preorder D] [DecidableLT D] {sorter : Sorter VNode}
  {lib : (dim : UInt32) → ServerRuntime dim D} {args : Arguments}
  {argv : List String} {env : Environment} {disk : ℕ → ShardFiles}
  {runs : List (List String × Environment)}

/-- The arguments select this deployment, on whatever port and with `--load` or
without it. -/
def Selects (argv : List String) (args : Arguments) : Prop :=
  ∃ port load, readArguments argv {} =
    .ok (some { args with port := port, load := load })

/-- The deployment that the arguments select. -/
abbrev deployed (sorter : Sorter VNode)
    (lib : (dim : UInt32) → ServerRuntime dim D) (args : Arguments) :
    Deployment D :=
  args.deployment sorter (lib args.dim.toUInt32)

variable {ring : ConsistentHashRing}
  {calls : List (UInt64 × Vec (deployed sorter lib args).Dim)}

theorem main_exits (floatText : UInt32 → String) (env : Environment)
    (hselects : Selects argv args) (hgranted : Granted env)
    (hfew : args.shards.toUInt32.toNat * 1000 < 2 ^ 31)
    (hentry : WAL.entrySize args.dim.toUInt32 ≤ WAL.growSize)
    (hroom : calls.length + inserting env.clients < 2 ^ 32)
    (h : Opens (deployed sorter lib args) ring calls disk) :
    ∃ exit more load, main sorter lib floatText argv env disk = .ok exit ∧
      (∃ port, readArguments argv {} =
        .ok (some { args with port := port, load := load })) ∧
      Exits (deployed sorter lib args) ring calls load env exit more := by
  obtain ⟨port, load, hread⟩ := hselects
  have hgrow : 0 ≤ (deployed sorter lib args).cfg.Mmax0.toInt := by
    change (0 : ℤ) ≤ (32 : Int32).toInt
    decide
  have hcount : (deployed sorter lib args).shardCount =
      args.shards.toUInt32 := rfl
  obtain ⟨exit, more, hserve, hexits⟩ := h.serve
    (lib args.dim.toUInt32) floatText rfl load hgranted (hcount ▸ hfew) hentry
    hroom hgrow
  refine ⟨exit, more, load, ?_, ⟨port, hread⟩, hexits⟩
  unfold main
  rw [hread, except_bind_ok]
  exact hserve

/-- The inserts that the clients of the processes post. -/
def posted (runs : List (List String × Environment)) : ℕ :=
  (runs.map fun run => inserting run.2.clients).sum

/-- The inserts that the processes count. -/
def counted (exits : List Exit) : ℕ :=
  (exits.map fun exit => exit.metrics.totalInserts.toNat).sum

/-- What a process shows: it loads nothing and answers every client that sends
anything. -/
structure Shows (argv : List String) (env : Environment) (exit : Exit) :
    Prop where
  loaded : ∀ args, readArguments argv {} = .ok (some args) →
    exit.loaded = if args.load then some 0 else none
  responses : List.Forall₂ (fun client response =>
    response.isSome = true ↔ client.received ≠ []) env.clients exit.responses

theorem processes_open (floatText : UInt32 → String)
    (hselects : ∀ run ∈ runs, Selects run.1 args)
    (hgranted : ∀ run ∈ runs, Granted run.2)
    (hfew : args.shards.toUInt32.toNat * 1000 < 2 ^ 31)
    (hentry : WAL.entrySize args.dim.toUInt32 ≤ WAL.growSize)
    (hroom : calls.length + posted runs < 2 ^ 32)
    (h : Opens (deployed sorter lib args) ring calls disk) :
    ∃ exits disk' more, processes sorter lib floatText runs disk =
        .ok (exits, disk') ∧
      List.Forall₂ (fun run exit => Shows run.1 run.2 exit) runs exits ∧
      more.length = counted exits ∧
      Opens (deployed sorter lib args) ring (calls ++ more) disk' := by
  induction runs generalizing calls disk with
  | nil =>
      refine ⟨[], disk, [], rfl, .nil, rfl, ?_⟩
      rwa [List.append_nil]
  | cons run runs ih =>
      obtain ⟨argv, env⟩ := run
      obtain ⟨hselect, hselects⟩ := List.forall_mem_cons.mp hselects
      obtain ⟨hgrant, hgranted⟩ := List.forall_mem_cons.mp hgranted
      have hposted : posted ((argv, env) :: runs) =
          inserting env.clients + posted runs := rfl
      rw [hposted] at hroom
      obtain ⟨exit, more, load, hmain, ⟨port, hread⟩, hexits⟩ := main_exits
        floatText env hselect hgrant hfew hentry (by omega) h
      obtain ⟨exits, disk', rest, hrest, hshows, hcounted, hopens⟩ :=
        ih hselects hgranted (by
          have hle := hexits.length_le
          rw [List.length_append]
          omega) hexits.opens
      refine ⟨exit :: exits, disk', more ++ rest, ?_,
        .cons ⟨fun args' hargs => ?_, hexits.responses⟩ hshows, ?_, ?_⟩
      · unfold processes
        rw [hmain, except_bind_ok, hrest]
        rfl
      · rw [hread] at hargs
        cases hargs
        exact hexits.loaded
      · rw [List.length_append, hcounted, ← hexits.counted]
        rfl
      · rwa [← List.append_assoc]

/-- Whatever processes follow one another on a directory, each of them starts
empty, also with `--load`, and the logs have all that they ever counted. -/
theorem processes_load_nothing (sorter : Sorter VNode)
    (lib : (dim : UInt32) → ServerRuntime dim D) (floatText : UInt32 → String)
    (args : Arguments) (runs : List (List String × Environment))
    (hdim : 0 < args.dim.toInt) (hshards : args.shards ≠ 0)
    (hfew : args.shards.toUInt32.toNat * 1000 < 2 ^ 31)
    (hentry : WAL.entrySize args.dim.toUInt32 ≤ WAL.growSize)
    (hselects : ∀ run ∈ runs, Selects run.1 args)
    (hgranted : ∀ run ∈ runs, Granted run.2)
    (hposted : posted runs < 2 ^ 32) :
    ∃ exits disk, processes sorter lib floatText runs
        (fun _ => ShardState.noFiles) = .ok (exits, disk) ∧
      List.Forall₂ (fun run exit => Shows run.1 run.2 exit) runs exits ∧
      ∀ rngs, ∃ m, (deployed sorter lib args).start OS.reliable rngs disk =
          .ok m ∧ m.totalVectors = 0 ∧
        (m.shards.map fun ss => ss.wal.replay.1.length).sum =
          counted exits := by
  have haccepted : HNSWIndex.Accepted (deployed sorter lib args).cfg := {
    dim := hdim
    M := by change (2 : ℤ) ≤ (16 : Int32).toInt; decide
    efConstruction := by change (1 : ℤ) ≤ (200 : Int32).toInt; decide
    maxLayers := by change (1 : ℤ) ≤ (6 : Int32).toInt; decide }
  have hcount : args.shards.toUInt32 ≠ 0 := fun hzero =>
    hshards (congrArg Int32.ofUInt32 hzero)
  obtain ⟨ring, hopens⟩ := opens_noFiles haccepted hcount
    (by change (150 : UInt32) ≠ 0; decide) haccepted.dim_ne_zero
  obtain ⟨exits, disk, more, hruns, hshows, hcounted, hopens'⟩ :=
    processes_open floatText hselects hgranted hfew hentry
      (by simpa using hposted) hopens
  refine ⟨exits, disk, hruns, hshows, fun rngs => ?_⟩
  obtain ⟨m, hstart, hlogged, _⟩ := hopens' rngs
  exact ⟨m, hstart, hlogged.totalVectors,
    hlogged.replay_sum.trans hcounted⟩

/-- The runtimes of the wordlines. -/
def wordRuntime (dim : UInt32) : ServerRuntime dim ℕ where
  rt := wordLine dim
  partialSorter := (Sorter.insertion _).front
  sqrt := Nat.sqrt
  convert := digitFloat
  distanceText := toString

/-- A process that inserts, and one that is told to load. -/
def insertThenLoad : List (List String × Environment) :=
  [(["--dim", "1", "--shards", "2"],
      ⟨OS.reliable, ample, fun _ i => i,
        [⟨HttpRequest.grantedContext, HttpRequest.insertTwelve.text⟩]⟩),
    (["--shards", "2", "--load", "--dim", "1"],
      ⟨OS.reliable, ample, fun _ i => i, []⟩)]

theorem processes_load_nothing_insertThenLoad :
    ∃ first second disk,
      processes (Sorter.insertion _) wordRuntime wordText insertThenLoad
        (fun _ => ShardState.noFiles) = .ok ([first, second], disk) ∧
      first.loaded = none ∧ second.loaded = some 0 := by
  have hfirst : readArguments ["--dim", "1", "--shards", "2"] {} =
      .ok (some { shards := 2, dim := 1 }) := by decide
  have hsecond : readArguments ["--shards", "2", "--load", "--dim", "1"] {} =
      .ok (some { shards := 2, dim := 1, load := true }) := by decide
  obtain ⟨exits, disk, hruns, hshows, _⟩ := processes_load_nothing
    (Sorter.insertion _) wordRuntime wordText { shards := 2, dim := 1 }
    insertThenLoad (by decide) (by decide) (by decide) (by decide)
    (by
      intro run hrun
      simp only [insertThenLoad, List.mem_cons, List.not_mem_nil, or_false]
        at hrun
      rcases hrun with rfl | rfl
      · exact ⟨8080, false, hfirst⟩
      · exact ⟨8080, true, hsecond⟩)
    (by
      intro run hrun
      simp only [insertThenLoad, List.mem_cons, List.not_mem_nil, or_false]
        at hrun
      rcases hrun with rfl | rfl
      · exact ⟨rfl, rfl, by simp [HttpRequest.grantedContext]⟩
      · exact ⟨rfl, rfl, by simp⟩)
    (by decide)
  unfold insertThenLoad at hshows
  cases hshows with
  | cons hone hrest =>
      cases hrest with
      | cons htwo hnil =>
          cases hnil
          exact ⟨_, _, disk, hruns, hone.loaded _ hfirst,
            htwo.loaded _ hsecond⟩

end ServerMain
end VecDB
