import DbAgent.ExecutionAttribution
import DbAgent.StepDelivery

/-! `execute_playbook` behind its first transaction: the steps of the playbook
are signed and dispatched one after the other until one fails, and the row of
`remediation_executions` says how far it came. -/
namespace DbAgent.PlaybookRun

open JsonText Py Playbooks Signing StepDelivery
open Attribution (RemediationExecution truthy)
open PlaybookMaturity (ExecutionStatus)

variable {ν : Type} {P : Primitives ν}

/-- What `execute_playbook` has resolved of its payload, with the row inserted
under `executionId`. `rollbackNote` is null if the action has none. -/
structure Activity where
  executionId : Uuid
  playbookId : String
  platformKey : String
  deployment : String
  params : Object Number
  platformConfig : Object Number
  rollbackNote : Value

/-- The arguments of a call of `execute_write`. -/
structure Dispatch where
  platformKey : String
  playbookId : String
  stepIndex : ℕ
  op : String
  params : Object Number
  executionId : String
  signatureB64 : String

/-- The members of `ToolExecutionResult` that are read. -/
structure ToolResult where
  exitCode : ℤ
  data : Value
  error : Value

inductive Outcome where
  | answered (result : ToolResult)
  | raised (message : String)

/-- `x.get(k)` of a dictionary, null for everything else. -/
def member (k : String) : Value → Value
  | .obj kvs => (lookup k kvs).getD .null
  | _ => .null

def isFalse : Value → Bool
  | .bool b => !b
  | _ => false

/-- The exit code is zero, and neither an error nor `ok: false` is reported. -/
def ToolResult.ok (result : ToolResult) : Bool :=
  result.exitCode = 0 && !truthy result.error && !isFalse (member "ok" result.data)

/-- The error of a step that has failed, `none` if it has succeeded. -/
def failureOf : Outcome → Option Value
  | .raised message => some (.str message)
  | .answered result =>
    if result.ok then none
    else some (if truthy result.error then result.error else member "error" result.data)

structure Failure where
  index : ℕ
  op : String
  error : Value

/-- The tables that the activity writes: its executions, and the details of the
`remediation_finished` entries of the audit log. -/
structure World where
  rows : Uuid → Option RemediationExecution
  audit : List Value

inductive Raised where
  | locators (e : BuildError)
  | canonicalization (message : String)

structure Ended where
  returned : List (String × Value)
  world : World
  sent : List Dispatch

section Snapshot

/-- An entry of `PRE_SNAPSHOT_TOOLS`. -/
structure ToolEntry where
  tool : String
  args : List (String × String)
  argsFrom : List String

def preSnapshotTools : List (String × List ToolEntry) :=
  let configTool : ToolEntry := ⟨"presto_config", [("component", "worker"), ("file", "config")], []⟩
  let tasksTool : ToolEntry := ⟨"k8s_pods|swarm_tasks", [], []⟩
  let nodesTool : ToolEntry := ⟨"presto_nodes", [], []⟩
  [("presto.kill_query",
      [⟨"presto_query_detail", [], ["query_id"]⟩,
        ⟨"presto_list_queries", [("state", "QUEUED")], []⟩]),
    ("presto.update_config_restart_workers", [configTool, tasksTool, nodesTool]),
    ("presto.adjust_memory_config",
      [configTool, tasksTool, ⟨"presto_jmx", [("mbean", "heap")], []⟩]),
    ("presto.restart_coordinator", [⟨"presto_cluster_info", [], []⟩, nodesTool, tasksTool]),
    ("presto.restart_worker", [tasksTool, nodesTool])]

def resolveRuntimeTool (name deployment : String) : String :=
  let left := name.toList.takeWhile (· ≠ '|')
  match name.toList.dropWhile (· ≠ '|') with
  | [] => name
  | _ :: right => String.ofList (if deployment = "swarm" then right else left)

def ToolEntry.arguments (entry : ToolEntry) (params : Object Number) :
    List (String × Json Number) :=
  entry.args.map (fun kv => (kv.1, .str kv.2)) ++
    entry.argsFrom.filterMap fun k => (get params k).map fun v => (k, v.json)

variable (tool : String → List (String × Json Number) → Except String Value)

def Activity.preSnapshot (a : Activity) : List (String × Value) :=
  if a.platformKey = "" then []
  else ((preSnapshotTools.lookup a.playbookId).getD []).map fun entry =>
    let name := resolveRuntimeTool entry.tool a.deployment
    match tool name (entry.arguments a.params) with
    | .ok data => (name, data)
    | .error e => (name, .obj [("error", .str e)])

end Snapshot

section Rows

/-- `_finish_execution`, at the instant `now`. -/
def World.finishExecution (w : World) (id : Uuid) (now : Instant) (status : ExecutionStatus)
    (verificationResult preSnapshot : Option Value) : World :=
  match w.rows id with
  | none => w
  | some row => { w with rows := Function.update w.rows id (some { row with
      status := status
      finishedAt := some now
      verificationResult := verificationResult <|> row.verificationResult
      preSnapshot := row.preSnapshot <|> preSnapshot }) }

/-- `row.pre_snapshot = pre_snapshot`. -/
def World.setPreSnapshot (w : World) (id : Uuid) (snapshot : Value) : World :=
  match w.rows id with
  | none => w
  | some row =>
    { w with rows := Function.update w.rows id (some { row with preSnapshot := some snapshot }) }

/-- `write_audit` of `remediation_finished`. -/
def World.auditFinished (w : World) (detail : List (String × Value)) : World :=
  { w with audit := w.audit ++ [.obj detail] }

end Rows

section Activity

variable (L : Libraries P) (a : Activity)

def Activity.dispatch (S : Signer P) (stepIndex : ℕ) (step : Step) (digest : ByteArray) :
    Dispatch where
  platformKey := a.platformKey
  playbookId := a.playbookId
  stepIndex := stepIndex
  op := step.op
  params := step.params
  executionId := uuidText a.executionId
  signatureB64 := L.b64encode (S.sign digest)

-- what a call ends with may depend on all that was sent so far
variable (probe : List Dispatch → Outcome)

def Activity.dispatchSteps (S : Signer P) :
    ℕ → List Step → List Dispatch → Except Raised (List Dispatch × Option Failure)
  | _, [], sent => .ok (sent, none)
  | idx, step :: rest, sent =>
    match L.stepHash a.executionId a.playbookId idx step with
    | .error e => .error (.canonicalization e)
    | .ok digest =>
      let sent := sent ++ [a.dispatch L S idx step digest]
      match failureOf (probe sent) with
      | some error => .ok (sent, some ⟨idx, step.op, error⟩)
      | none => Activity.dispatchSteps S (idx+1) rest sent

def Activity.result (ok : Bool) (preSnapshot : List (String × Value)) : List (String × Value) :=
  [("ok", .bool ok), ("playbook_id", .str a.playbookId),
    ("execution_id", .str (uuidText a.executionId)), ("pre_snapshot", .obj preSnapshot)]

/-- The execution fails before any step: the row, the audit log and the result
have the texts of the branch. -/
def Activity.abandon (now : Instant) (w : World) (rowError auditError : String)
    (snapshot : Option (List (String × Value))) (extra : List (String × Value)) : Ended where
  returned := a.result false (snapshot.getD []) ++ extra
  world := (w.finishExecution a.executionId now .failed
    (some (.obj [("rollback_note", a.rollbackNote), ("error", .str rowError)]))
    (snapshot.map .obj)).auditFinished
      [("playbook_id", .str a.playbookId), ("ok", .bool false), ("error", .str auditError)]
  sent := []

/-- `action.get("rollback_note") or f"step {idx} ({op}) failed; ..."`. -/
def Activity.note (f : Failure) : Value :=
  if truthy a.rollbackNote then a.rollbackNote
  else .str ("step " ++ toString f.index ++ " (" ++ f.op ++
    ") failed; manual rollback may be required")

/-- `verification_result` of a step that has failed. -/
def Activity.failedStep (f : Failure) : Value :=
  .obj [("rollback_note", a.note f),
    ("failed_step", .obj [("index", .num f.index), ("op", .str f.op), ("error", f.error)])]

/-- The end of the activity behind the loop. The row stays `running` until
`verify_fix`, unless a step has failed. -/
def Activity.conclude (now : Instant) (w : World) (snapshot : List (String × Value))
    (steps : List Step) (sent : List Dispatch) : Option Failure → Ended
  | some f =>
    { returned := a.result false snapshot ++
        [("failed_step", .num f.index), ("error", f.error), ("rollback_note", a.note f)]
      world := (w.finishExecution a.executionId now .failed (some (a.failedStep f))
        (some (.obj snapshot))).auditFinished
          [("playbook_id", .str a.playbookId), ("ok", .bool false),
            ("failed_step", .num f.index), ("op", .str f.op), ("error", f.error),
            ("rollback_note", a.note f)]
      sent := sent }
  | none =>
    { returned := a.result true snapshot ++ [("steps", .num steps.length)]
      world := w.auditFinished [("playbook_id", .str a.playbookId), ("ok", .bool true),
        ("steps", .num steps.length)]
      sent := sent }

variable (R : Runtime) (message : BuildError → String)
  (tool : String → List (String × Json Number) → Except String Value)

/-- `execute_playbook` once its row is inserted; `message` is `str` of an
exception, and there may be no signer. -/
def Activity.execute (signer : Option (Signer P)) (now : Instant) (w : World) :
    Except Raised Ended :=
  match (playbookSteps R).lookup a.playbookId with
  | none => .ok (a.abandon now w "unknown playbook" "unknown playbook" none [])
  | some build =>
    match resolveLocators R a.deployment a.platformConfig with
    | .error e => .error (.locators e)
    | .ok locators =>
      match build a.deployment a.params locators with
      | .error e =>
        .ok (a.abandon now w (message e) (message e) none [("error", .str (message e))])
      | .ok steps =>
        let snapshot := a.preSnapshot tool
        let w := w.setPreSnapshot a.executionId (.obj snapshot)
        match signer with
        | none => .ok (a.abandon now w "signer not configured" "no signer" (some snapshot)
            [("error", .str "signer not configured")])
        | some S =>
          match a.dispatchSteps L probe S 0 steps [] with
          | .error e => .error e
          | .ok (sent, failure) => .ok (a.conclude now w snapshot steps sent failure)

end Activity

/-- The answer to the `i`th call: the exit code is zero, and no error is reported. -/
def Succeeded (probe : List Dispatch → Outcome) (sent : List Dispatch) (i : ℕ) : Prop :=
  ∃ result, probe (sent.take (i+1)) = .answered result ∧ result.exitCode = 0 ∧
    truthy result.error = false ∧ member "ok" result.data ≠ .bool false

def failedIndex (row : RemediationExecution) : Value :=
  member "index" (member "failed_step" (row.verificationResult.getD .null))

section Law

variable (L : Libraries P) (a : Activity) (S : Signer P) (probe : List Dispatch → Outcome)

/-- The calls are those of the first steps in order, each with its position and a
signature of its own operation and parameters. -/
structure SignedPrefix (steps : List Step) (sent : List Dispatch) : Prop where
  length_le : sent.length ≤ steps.length
  signed : ∀ i d, sent[i]? = some d → ∃ step digest, steps[i]? = some step ∧
    L.stepHash a.executionId a.playbookId i step = .ok digest ∧ d = a.dispatch L S i step digest

structure Law (steps : List Step) (e : Ended) : Prop where
  signed : SignedPrefix L a S steps e.sent
  stops : ∀ i, i+1 < e.sent.length → Succeeded probe e.sent i
  complete : (∀ i < e.sent.length, Succeeded probe e.sent i) → e.sent.length = steps.length
  returned : lookup "ok" e.returned = some (.bool true) ↔
    e.sent.length = steps.length ∧ ∀ i < steps.length, Succeeded probe e.sent i
  row : ∃ row, e.world.rows a.executionId = some row ∧
    (∀ i : ℕ, row.status = .failed ∧ failedIndex row = .num i ↔
      i < e.sent.length ∧ ¬Succeeded probe e.sent i) ∧
    (row.status = .running ↔ ∀ i < e.sent.length, Succeeded probe e.sent i)

variable {L a S probe}

variable {sent : List Dispatch}

variable {w : World} {row : RemediationExecution}

end Law

def sampleRow : RemediationExecution where
  executionId := 2
  investigationId := 1
  playbookId := some "presto.update_config_restart_workers"
  params := .obj []
  mode := "approved"
  approvedBy := none
  status := .running
  preSnapshot := none
  verificationResult := none
  startedAt := some 0
  finishedAt := none

def sampleWorld : World := ⟨fun id => if id = 2 then some sampleRow else none, []⟩

/-- The probe patches the configuration, and is gone when the workers are to be
restarted. -/
def sampleProbe (sent : List Dispatch) : Outcome :=
  if sent.length = 1 then .answered ⟨0, .obj [("ok", .bool true)], .null⟩
  else .raised "connection refused"

end DbAgent.PlaybookRun
