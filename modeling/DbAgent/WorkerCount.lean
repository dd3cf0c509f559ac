import DbAgent.ConfigVerification
import DbAgent.ContextTrimming

/-! The check that enough workers are back: `presto_nodes` on the probe, its way to the worker,
and what `check_workers_active_count` concludes from it. -/
namespace DbAgent.Nodes

open JsonText (Json keyLt)
open RawCmd (outputCap)
open Queries (Answer Check ParsedInt getMap getString parseInt)
open Playbooks

section Probe

/-- What the probe is built on: `int64` of a float, the length of a value as JSON, and the first
bytes of that as a string. -/
structure Probe where
  toInt64 : ℚ → ℤ
  size : PyValue → ℕ
  head : PyValue → ℕ → String

variable (P : Probe)

def getBool (m : Queries.Object) (key : String) : Bool :=
  match m.lookup key with
  | some (.bool b) => b
  | _ => false

def getBoolDefault (args : Queries.Object) (key : String) (default : Bool) : Bool :=
  match args.lookup key with
  | some (.bool b) => b
  | _ => default

def getInt (m : Queries.Object) (key : String) : ℤ :=
  match m.lookup key with
  | some (.num q) => P.toInt64 q
  | some (.str s) =>
    match parseInt s.toList with
    | .ok n => n
    -- the error is dropped, and the value with it is the bound
    | .range => if s.toList.head? = some '-' then -2 ^ 63 else 2 ^ 63 - 1
    | .bad => 0
  | _ => 0

def extractVersion (m : Queries.Object) : String :=
  match (getMap m "nodeVersion").lookup "version" with
  | some (.str v) => v
  | _ => getString m "version"

def boolean (b : Bool) : PyValue := ⟨.bool b, trivial⟩

def integer (z : ℤ) : PyValue := ⟨.num (.int z), trivial⟩

def activeNode (n : Queries.Object) : PyValue :=
  .ofObject (dict [("coordinator", boolean (getBool n "coordinator")),
    ("heap_max", integer (getInt P n "heapMax")), ("heap_used", integer (getInt P n "heapUsed")),
    ("node_id", .text (getString n "nodeId")), ("processors", integer (getInt P n "processors")),
    ("uri", .text (getString n "uri")), ("version", .text (extractVersion n))]
    (show ["coordinator", "heap_max", "heap_used", "node_id", "processors", "uri",
      "version"].Pairwise keyLt by decide))

def failedNode (n : Queries.Object) : PyValue :=
  .ofObject (dict [("age", .text (getString n "age")), ("node_id", .text (getString n "nodeId")),
    ("uri", .text (getString n "uri"))]
    (show ["age", "node_id", "uri"].Pairwise keyLt by decide))

def asObject : Json ℚ → Option Queries.Object
  | .obj o => some o
  | _ => none

def objects : Json ℚ → List Queries.Object
  | .arr items => items.filterMap asObject
  | _ => []

/-- `toolPrestoNodes`; the two answers are those to `/v1/node` and `/v1/node/failed`. -/
def toolPrestoNodes (nodes failed : Answer) (args : Queries.Object) : Except String PyValue := do
  let nodesRaw ← nodes
  let active := PyValue.list ((objects nodesRaw).map (activeNode P))
  if getBoolDefault args "include_failed" true then
    let failedRaw ← failed
    return .ofObject (dict [("active", active),
      ("failed", .list ((objects failedRaw).map failedNode))]
      (show ["active", "failed"].Pairwise keyLt by decide))
  else return .ofObject (dict [("active", active)] (List.pairwise_singleton _ _))

structure ToolResult where
  exitCode : ℤ
  data : PyValue

/-- `Adapter.Execute` for this tool, with what stands before its call. -/
def execute (ready : Except String Unit) (nodes failed : Answer) (args : Queries.Object) :
    ToolResult :=
  match ready with
  | .error _ => ⟨1, ⟨.null, trivial⟩⟩
  | .ok () =>
    match toolPrestoNodes P nodes failed args with
    | .error _ => ⟨1, ⟨.null, trivial⟩⟩
    | .ok data => ⟨0, data⟩

/-- `toolpack.Truncate`. -/
def truncateResult (r : ToolResult) (maxBytes : ℤ) : ToolResult :=
  if maxBytes ≤ 0 then r
  else if (P.size r.data : ℤ) ≤ maxBytes then r
  else { r with data := .ofObject (dict
    [("truncated_content", .text (P.head r.data maxBytes.toNat))] (List.pairwise_singleton _ _)) }

/-- `handleToolCall`, for a task without a cap of its own. -/
def handleToolCall (ready : Except String Unit) (nodes failed : Answer) (args : Queries.Object) :
    ToolResult :=
  truncateResult P (execute P ready nodes failed args) (outputCap 0)

end Probe

section Worker

variable (I : Py.Interpreter)

def countOf (data : PyValue) : Except Py.Error ℤ :=
  match firstMember data ["active", "nodes", "activeWorkers"] with
  | none => .ok 0
  | some nodes =>
    match nodes.json with
    | .num (.int z) => .ok z
    -- a `bool` is an `int`
    | .bool b => .ok (if b then 1 else 0)
    | .arr xs => .ok xs.length
    | _ => Py.int I (orElse (data.get "activeWorkers") (integer 0)).json

/-- `int(params.get("min_workers") or 1)`. -/
def minWorkers (params : JsonText.Object Py.Number) : Except Py.Error ℤ :=
  Py.int I (orElse (get params "min_workers") (integer 1)).json

def checkWorkersActiveCount (params : JsonText.Object Py.Number) (r : ToolResult) :
    Except Py.Error Check := do
  let count ← countOf I (unwrapData r.data)
  let min ← minWorkers I params
  return ⟨"workers_active_count", r.exitCode = 0 && min ≤ count,
    "active=" ++ toString count ++ " min=" ++ toString min⟩

end Worker

section Verdict

variable {P : Probe} {I : Py.Interpreter}

theorem unwrapData_dict {fields : List (String × PyValue)}
    (h : (fields.map Prod.fst).Pairwise keyLt) (hdata : dictGet "data" fields = none) :
    unwrapData (.ofObject (dict fields h)) = .ofObject (dict fields h) := by
  have hget : (PyValue.ofObject (dict fields h)).get "data" = none :=
    (get_dict fields h "data").trans hdata
  change (match (PyValue.ofObject (dict fields h)).get "data" with
    | none => PyValue.ofObject (dict fields h)
    | some inner => _) = _
  rw [hget]

theorem firstMember_dict {fields : List (String × PyValue)}
    (h : (fields.map Prod.fst).Pairwise keyLt) (names : List String) :
    firstMember (.ofObject (dict fields h)) names =
      (names.filterMap fun k => dictGet k fields).find? PyValue.truthy := by
  rw [firstMember]
  congr 2
  funext k
  exact get_dict fields h k

theorem countOf_nodes (active : List PyValue) (failed : PyValue)
    (h : [("active", PyValue.list active), ("failed", failed)].map Prod.fst |>.Pairwise keyLt) :
    countOf I (unwrapData (.ofObject
      (dict [("active", .list active), ("failed", failed)] h))) = .ok (active.length : ℤ) := by
  rw [unwrapData_dict h (by rfl), countOf, firstMember_dict h]
  have hmembers : ["active", "nodes", "activeWorkers"].filterMap
      (fun k => dictGet k [("active", PyValue.list active), ("failed", failed)]) =
      [PyValue.list active] := by rfl
  rw [hmembers]
  cases active with
  -- an empty list is not true, and the other two names are missing
  | nil => rfl
  | cons n active =>
    have htrue : [PyValue.list (n :: active)].find? PyValue.truthy =
        some (PyValue.list (n :: active)) := by rfl
    rw [htrue]
    change Except.ok (((n :: active).map PyValue.json).length : ℤ) = _
    rw [List.length_map]

theorem countOf_cut (text : String)
    (h : [("truncated_content", PyValue.text text)].map Prod.fst |>.Pairwise keyLt) :
    countOf I (unwrapData (.ofObject (dict [("truncated_content", .text text)] h))) =
      .ok 0 := by
  rw [unwrapData_dict h (by rfl), countOf, firstMember_dict h]
  rfl

def Delivered (P : Probe) (ready : Except String Unit) (nodesRaw : Json ℚ) (failed : Answer) :
    Prop :=
  ready = .ok () ∧ ∃ data, toolPrestoNodes P (.ok nodesRaw) failed [] = .ok data ∧
    P.size data ≤ 2 ^ 20

section Call

variable {ready : Except String Unit} {nodesRaw : Json ℚ} {failed : Answer}

theorem truncateResult_cases (r : ToolResult) :
    (P.size r.data ≤ 2 ^ 20 ∧ truncateResult P r (outputCap 0) = r) ∨
    (¬P.size r.data ≤ 2 ^ 20 ∧
      countOf I (unwrapData (truncateResult P r (outputCap 0)).data) = .ok 0) := by
  have hcap : outputCap 0 = 2 ^ 20 := rfl
  rw [hcap, truncateResult, if_neg (by decide)]
  by_cases hfits : P.size r.data ≤ 2 ^ 20
  · grind
  · refine .inr ⟨hfits, ?_⟩
    rw [if_neg (by exact_mod_cast hfits)]
    exact countOf_cut _ _

theorem count_of_delivered (h : Delivered P ready nodesRaw failed) :
    (handleToolCall P ready (.ok nodesRaw) failed []).exitCode = 0 ∧
      countOf I (unwrapData (handleToolCall P ready (.ok nodesRaw) failed []).data) =
        .ok ((objects nodesRaw).length : ℤ) := by
  obtain ⟨rfl, data, hdata, hsize⟩ := h
  have hexec : execute P (.ok ()) (.ok nodesRaw) failed [] = ⟨0, data⟩ := by
    simp only [execute, hdata]
  obtain ⟨-, hwhole⟩ | ⟨hcut, -⟩ := truncateResult_cases (P := P) (I := I) ⟨0, data⟩
  · rw [handleToolCall, hexec, hwhole]
    refine ⟨rfl, ?_⟩
    cases failed with
    | error e => cases hdata
    | ok failedRaw =>
      rw [← Except.ok.inj hdata, countOf_nodes, List.length_map]
  · exact absurd hsize hcut

theorem count_of_not_delivered (h : ¬Delivered P ready nodesRaw failed) :
    countOf I (unwrapData (handleToolCall P ready (.ok nodesRaw) failed []).data) =
      .ok 0 := by
  obtain ⟨hsize, hwhole⟩ | ⟨-, hzero⟩ :=
    truncateResult_cases (P := P) (I := I) (execute P ready (.ok nodesRaw) failed [])
  · rw [handleToolCall, hwhole]
    cases ready with
    | error e => rfl
    | ok u =>
      cases htool : toolPrestoNodes P (.ok nodesRaw) failed [] with
      | error e =>
        simp only [execute, htool]
        rfl
      | ok data =>
        simp only [execute, htool] at hsize
        exact absurd ⟨rfl, data, htool, hsize⟩ h
  · exact hzero

theorem checkWorkersActiveCount_ok_iff {params : JsonText.Object Py.Number} {min : ℤ}
    (hmin : minWorkers I params = .ok min) (hpos : 1 ≤ min) (ready : Except String Unit)
    (nodesRaw : Json ℚ) (failed : Answer) :
    ∃ check, checkWorkersActiveCount I params
        (handleToolCall P ready (.ok nodesRaw) failed []) = .ok check ∧
      (check.ok = true ↔ Delivered P ready nodesRaw failed ∧
        min ≤ (objects nodesRaw).length) := by
  have hcheck (r : ToolResult) (count : ℤ)
      (hcount : countOf I (unwrapData r.data) = .ok count) :
      checkWorkersActiveCount I params r = .ok ⟨"workers_active_count",
        r.exitCode = 0 && min ≤ count, "active=" ++ toString count ++ " min=" ++ toString min⟩ := by
    rw [checkWorkersActiveCount, hcount, Py.ok_bind, hmin]
    rfl
  by_cases hdelivered : Delivered P ready nodesRaw failed
  · obtain ⟨hexit, hcount⟩ := count_of_delivered (I := I) hdelivered
    grind
  · refine ⟨_, hcheck _ _ (count_of_not_delivered hdelivered), ?_⟩
    grind

end Call

def workers (nodesRaw : Json ℚ) : ℕ :=
  ((objects nodesRaw).filter fun n => !getBool n "coordinator").length

/-- When a good verdict can be trusted: unless there are enough workers, there must be fewer
nodes than asked for, coordinators included, or the result must not arrive whole. -/
theorem workers_active_count_sound_iff (P : Probe) (I : Py.Interpreter)
    (params : JsonText.Object Py.Number) (min : ℤ) (hmin : minWorkers I params = .ok min)
    (hpos : 1 ≤ min) (ready : Except String Unit) (nodesRaw : Json ℚ) (failed : Answer) :
    (∀ check, checkWorkersActiveCount I params
        (handleToolCall P ready (.ok nodesRaw) failed []) = .ok check →
      check.ok = true → min ≤ workers nodesRaw) ↔
    min ≤ workers nodesRaw ∨ ((objects nodesRaw).length : ℤ) < min ∨
      ¬Delivered P ready nodesRaw failed := by
  obtain ⟨check, hcheck, hiff⟩ :=
    checkWorkersActiveCount_ok_iff (P := P) hmin hpos ready nodesRaw failed
  constructor
  · intro h
    by_cases hok : check.ok = true
    · exact .inl (h check hcheck hok)
    · right
      rw [hiff, not_and_or, not_le] at hok
      exact hok.symm
  · grind

/-- `json.Marshal` of a value in which no text has a blank. -/
def compact (v : PyValue) : List Char :=
  (ContextTrim.dumps ContextTrim.sampleFormats v.json).filter (· ≠ ' ')

def sampleProbe : Probe where
  toInt64 q := q.num.tdiv q.den
  size v := (compact v).length
  head v n := String.ofList ((compact v).take n)

def nodeOf (id : String) (coordinator : Bool) : Json ℚ :=
  .obj [("nodeId", .str id), ("coordinator", .bool coordinator)]

/-- A coordinator and a worker, and one worker asked for. -/
theorem one_worker_counted : workers (.arr [nodeOf "c" true, nodeOf "w" false]) = 1 ∧
    ∀ check, checkWorkersActiveCount ContextTrim.sampleInterpreter JsonText.Object.empty
        (handleToolCall sampleProbe (.ok ()) (.ok (.arr [nodeOf "c" true, nodeOf "w" false]))
          (.ok (.arr [])) []) = .ok check →
      check.ok = true → (1 : ℤ) ≤ workers (.arr [nodeOf "c" true, nodeOf "w" false]) :=
  ⟨by decide, (workers_active_count_sound_iff sampleProbe ContextTrim.sampleInterpreter
    JsonText.Object.empty 1 rfl le_rfl (.ok ()) _ (.ok (.arr []))).mpr (.inl (by decide))⟩

set_option maxRecDepth 4000 in
/-- The coordinator alone is taken for the worker that was asked for. -/
theorem coordinator_counted_as_worker :
    workers (.arr [nodeOf "c" true]) = 0 ∧
    ∃ check, checkWorkersActiveCount ContextTrim.sampleInterpreter JsonText.Object.empty
        (handleToolCall sampleProbe (.ok ()) (.ok (.arr [nodeOf "c" true])) (.ok (.arr [])) []) =
        .ok check ∧ check.ok = true :=
  ⟨by decide, _, rfl, by decide⟩

end Verdict

end DbAgent.Nodes
