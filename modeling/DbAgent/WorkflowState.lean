import DbAgent.ApprovalRow

/-! The data of `InvestigationWorkflow`: what it receives, what it keeps, and
the activities it schedules. -/
namespace DbAgent.Workflow

open Approval (RecordPayload)

structure Budget where
  maxRounds : Option ℚ
  maxCostUsd : Option ℚ
  maxWallSeconds : Option ℚ
  rest : List (String × Value)

def Budget.update (b o : Budget) : Budget where
  maxRounds := o.maxRounds.or b.maxRounds
  maxCostUsd := o.maxCostUsd.or b.maxCostUsd
  maxWallSeconds := o.maxWallSeconds.or b.maxWallSeconds
  rest := o.rest ++ b.rest.filter (fun kv => kv.1 ∉ o.rest.map Prod.fst)

def Budget.isEmpty (b : Budget) : Bool :=
  b.maxRounds.isNone && b.maxCostUsd.isNone && b.maxWallSeconds.isNone && b.rest.isEmpty

/-- `platforms.config.remediation`: the members that settle windows read. -/
structure RemediationConfig where
  settleSeconds : Option ℤ
  settleSecondsByPlaybook : List (String × ℤ)

structure Case where
  investigationId : Uuid
  platformKey : String
  budget : Budget
  confidenceThreshold : Option ℚ
  maxCallsPerRound : Option ℤ
  deployment : Option String
  remediation : RemediationConfig
  rejected : Bool
  rejectReason : Option String

/-- An item of evidence, from `collect` or from `run_raw_command`. -/
structure Evidence where
  evidenceId : String
  round : ℤ
  summary : String
  payload : Value
  rest : List (String × Value)

inductive ReportStatus where
  | concluded | needMoreData | inconclusive
  deriving DecidableEq, Repr

/-- An RCA report; `contextMetrics` is the `build_ms` of `_context_metrics`. -/
structure Report where
  status : ReportStatus
  confidence : ℚ
  missingInfo : List Value
  rawCommandRequests : List RawCommandRequest
  rcaCompact : Option String
  contextMetrics : Option ℚ
  rest : List (String × Value)

structure Remediation where
  proposedActions : List Action
  rcaCompact : Option String

/-- The payload of an `approval_decided` signal. -/
structure DecisionDict where
  approvalId : Option Uuid
  decision : Option Decision
  comment : Option String
  decidedBy : Option Uuid

inductive Reason where
  | aborted | timeBudget | costBudget | roundBudget | inconclusive | playbookFailed
  | verificationFailed
  deriving DecidableEq, Repr

/-- The `reason` of `close_with_summary`. -/
inductive CloseReason where
  | summaryOnly | remediationDenied
  deriving DecidableEq, Repr

/-- What `send_notifications` is asked to tell. -/
inductive Notification where
  | caseRejected (platformKey : String) (severity : String) (reason : String)
  | approvalRequested (platformKey severity : Option String) (kind : ApprovalKind)
      (digest : String)
  | caseNeedsHuman (platformKey severity : String) (reason : Reason)
      (rcaCompact : Option String)
  | caseResolved (platformKey severity : String) (rcaCompact : Option String)
      (playbooks : List String)

/-- An activity with its payload, as it stands in the workflow's history. -/
inductive Call where
  | createCase (event : AlertEvent) (investigationId : Option Uuid) (workflowId : String)
  | rejectCase (investigationId : Uuid) (reason : String)
  | planInitial (event : AlertEvent) (investigationId : Uuid) (maxCalls : ℤ)
  | getSpend (investigationId : Uuid)
  | collect (plan : Value) (investigationId : Uuid) (platformKey : String) (round : ℤ)
      (maxCalls : ℤ)
  | analyze (event : AlertEvent) (evidence : List Evidence) (reports : List Report) (round : ℤ)
      (budget : Budget) (spentUsd : ℚ) (investigationId : Uuid) (approverFeedback : List String)
  | recordIteration (investigationId : Uuid) (round : ℤ) (plan : Value) (report : Report)
      (durationMs : Option ℤ)
  | staticValidateRawCommand (command : String) (investigationId : Uuid)
  | createApproval (investigationId : Uuid) (kind : ApprovalKind) (subject : Subject)
  | sendNotifications (investigationId : Uuid) (n : Notification)
  | recordApprovalDecision (p : RecordPayload)
  | runRawCommand (investigationId : Uuid) (platformKey : String) (command : String) (round : ℤ)
  | planNext (event : AlertEvent) (investigationId : Uuid) (maxCalls : ℤ) (round : ℤ)
      (missingInfo : List Value) (evidenceSummaries : List (String × String))
  | planRemediation (investigationId : Uuid) (rcaReport : Option Report)
  | closeWithSummary (investigationId : Uuid) (rcaReport : Option Report) (actions : List Action)
      (reason : CloseReason)
  | executePlaybook (investigationId : Uuid) (action : Action) (platformKey : String)
      (deployment : Option String) (approvedBy : Option Uuid)
  | verifyFix (investigationId : Uuid) (action : Action) (executionId : Option Uuid)
      (platformKey : String)
  | closeResolved (investigationId : Uuid) (rcaReport : Option Report)
  | toNeedsHuman (investigationId : Uuid) (reason : Reason) (rcaReport : Option Report)

/-- What an awaited activity completes with; `error` is the `ActivityError`
raised once its retry policy is exhausted. -/
inductive Reply where
  | case (c : Case)
  | done
  | plan (p : Value)
  | spend (usd : ℚ)
  | evidence (es : List Evidence)
  | report (r : Report)
  | validation (ok : Bool)
  | approval (id : Uuid)
  | remediation (r : Remediation)
  | executed (ok : Bool) (executionId : Option Uuid)
  | verified (ok : Bool)
  | error

/-- The caller of `_request_approval`, with the rest of its loop. -/
inductive Gate where
  | raw (round : ℤ) (report : Report) (req : RawCommandRequest) (rest : List RawCommandRequest)
  | remediation (action : Action) (rest : List Action)

def Gate.kind : Gate → ApprovalKind
  | .raw _ _ _ _ => .rawCommand
  | .remediation _ _ => .remediation

def Gate.subject : Gate → Subject
  | .raw _ _ req _ => .request req
  | .remediation a _ => .action a

def Gate.timeout : Gate → Instant
  | .raw _ _ _ _ => 24*3600*1000000
  | .remediation _ _ => 7*24*3600*1000000

inductive Outcome where
  | rejected (reason : String)
  | needsHuman (reason : Reason)
  | closedSummary (reason : CloseReason)
  | resolved
  deriving DecidableEq, Repr

/-- The `await` at which the coroutine stands, with the locals it comes back
to. `raised` is a run that ended with an `ActivityError`, and `stuck` one
whose workflow task fails on any other exception. -/
inductive Pc where
  | createCase
  | rejectCase (reason : String)
  | notifyRejected (reason : String)
  | planInitial
  | waitPaused (round : ℤ)
  | getSpend (round : ℤ)
  | collect (round : ℤ) (spent : ℚ)
  | analyze (round : ℤ)
  | recordIteration (round : ℤ) (report : Report)
  | validateRaw (round : ℤ) (report : Report) (req : RawCommandRequest)
      (rest : List RawCommandRequest)
  | createApproval (g : Gate)
  | notifyApproval (g : Gate) (approvalId : Uuid)
  | waitDecision (g : Gate) (approvalId : Uuid) (timer : Instant)
  | recordDecision (g : Gate) (approvalId : Uuid) (decision : DecisionDict)
  | runRaw (round : ℤ) (report : Report) (rest : List RawCommandRequest)
  | planNext (round : ℤ)
  | planRemediation
  | closeWithSummary (reason : CloseReason)
  | executePlaybook (action : Action) (rest : List Action)
  | settle (action : Action) (rest : List Action) (executionId : Option Uuid) (timer : Instant)
  | verifyFix (action : Action) (rest : List Action)
  | closeResolved
  | notifyResolved
  | toNeedsHuman (reason : Reason)
  | notifyNeedsHuman (reason : Reason)
  | returned (outcome : Outcome)
  | raised
  | stuck

structure Input where
  event : AlertEvent
  investigationId : Option Uuid
  workflowId : String
  deployment : Option String
  settleSeconds : Option ℤ

/-- The instance fields, the locals of `run` that live across rounds, the
awaited point, and the history of scheduled activities. -/
structure State where
  input : Input
  paused : Bool
  aborted : Bool
  budgetOverride : Option Budget
  approvalDecision : Option DecisionDict
  awaitingApprovalId : Option Uuid
  status : Status
  lastReport : Option Report
  terminalReason : Option (String ⊕ Reason)
  selfPlatformKey : Option String
  selfSeverity : Option String
  investigationId : Uuid
  platformKey : String
  deployment : Option String
  remediation : RemediationConfig
  budget : Budget
  threshold : ℚ
  maxCalls : ℤ
  plan : Value
  deadline : Instant
  maxRounds : ℤ
  lastRound : ℤ
  maxCost : ℚ
  evidence : List Evidence
  reports : List Report
  approverFeedback : List String
  actions : List Action
  executedAny : Bool
  appliedPlaybooks : List String
  pc : Pc
  history : List Call

end DbAgent.Workflow
