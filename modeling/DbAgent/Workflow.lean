import DbAgent.WorkflowState

/-! `InvestigationWorkflow.run` as a coroutine: each function below is the code
between two `await`s, and ends by scheduling the next activity or by waiting. -/
namespace DbAgent.Workflow

open Approval (RecordPayload)

/-- The workflow before its first task: `__init__`, then `create_case`. -/
def start (input : Input) : State where
  input := input
  paused := false
  aborted := false
  budgetOverride := none
  approvalDecision := none
  awaitingApprovalId := none
  status := .received
  lastReport := none
  terminalReason := none
  selfPlatformKey := none
  selfSeverity := none
  investigationId := 0
  platformKey := ""
  deployment := none
  remediation := ⟨none, []⟩
  budget := ⟨none, none, none, []⟩
  threshold := 0
  maxCalls := 0
  plan := .null
  deadline := 0
  maxRounds := 0
  lastRound := 0
  maxCost := 0
  evidence := []
  reports := []
  approverFeedback := []
  actions := []
  executedAny := false
  appliedPlaybooks := []
  pc := .createCase
  history := [.createCase input.event input.investigationId input.workflowId]

def State.schedule (s : State) (c : Call) (pc : Pc) : State :=
  { s with pc := pc, history := s.history ++ [c] }

def truthy (s : Option String) : Option String :=
  s.filter (fun x => x ≠ "")

/-- `_needs_human` up to its activity. -/
def State.needsHuman (s : State) (reason : Reason) : State :=
  s.schedule (.toNeedsHuman s.investigationId reason s.lastReport) (.toNeedsHuman reason)

def State.checkBudget (s : State) (now : Instant) (round : ℤ) : State :=
  if s.aborted then s.needsHuman .aborted
  else if s.deadline ≤ now then s.needsHuman .timeBudget
  else s.schedule (.getSpend s.investigationId) (.getSpend round)

/-- The next iteration of `for round_num in range(1, max_rounds + 1)`. The range
was evaluated when the loop was entered, so its end is `lastRound`. -/
def State.enterRound (s : State) (now : Instant) (round : ℤ) : State :=
  if s.lastRound < round then s.needsHuman .roundBudget
  else if s.paused && !s.aborted then { s with pc := .waitPaused round }
  else s.checkBudget now round

def State.afterCreateCase (s : State) (c : Case) : State :=
  let budget := match s.budgetOverride with
    | some o => if o.isEmpty then c.budget else c.budget.update o
    | none => c.budget
  let s := { s with
    investigationId := c.investigationId
    budget := budget
    threshold := (c.confidenceThreshold.filter (fun q => q ≠ 0)).getD 0.85
    maxCalls := (c.maxCallsPerRound.filter (fun n => n ≠ 0)).getD 8
    status := .opened
    selfPlatformKey := (truthy (some c.platformKey)).or (some s.input.event.platformKey)
    selfSeverity := some ((truthy (some s.input.event.severity)).getD "unknown")
    platformKey := c.platformKey
    deployment := (truthy c.deployment).or s.input.deployment
    remediation := c.remediation }
  if c.rejected then
    let reason := (truthy c.rejectReason).getD "platform_not_ready"
    s.schedule (.rejectCase s.investigationId reason) (.rejectCase reason)
  else s.schedule (.planInitial s.input.event s.investigationId s.maxCalls) .planInitial

/-- After `plan_initial`: the budget is read and the loop entered. -/
def State.afterPlanInitial (s : State) (now : Instant) (plan : Value) : State :=
  match Py.addSeconds now (Py.truncate (s.budget.maxWallSeconds.getD 1800)) with
  | none => { s with pc := .stuck }
  | some deadline =>
    let maxRounds := Py.truncate (s.budget.maxRounds.getD 15)
    State.enterRound { s with
      plan := plan
      deadline := deadline
      maxRounds := maxRounds
      lastRound := maxRounds
      maxCost := s.budget.maxCostUsd.getD 10
      status := .investigating } now 1

/-- The override block of a round; `none` where the new deadline overflows. -/
def State.applyOverride (s : State) (now : Instant) : Option State :=
  match s.budgetOverride with
  | none => some s
  | some o =>
    if o.isEmpty then some s
    else
      let budget := s.budget.update o
      let deadline := match o.maxWallSeconds with
        | none => some s.deadline
        | some w => Py.addSeconds now (Py.truncate w)
      deadline.map fun d => { s with
        budget := budget
        maxRounds := (budget.maxRounds.map Py.truncate).getD s.maxRounds
        maxCost := budget.maxCostUsd.getD s.maxCost
        deadline := d
        budgetOverride := none }

def State.afterGetSpend (s : State) (now : Instant) (round : ℤ) (spent : ℚ) : State :=
  if s.maxCost ≤ spent then s.needsHuman .costBudget
  else match s.applyOverride now with
    | none => { s with pc := .stuck }
    | some s =>
      s.schedule (.collect s.plan s.investigationId s.platformKey round s.maxCalls)
        (.collect round spent)

def State.afterCollect (s : State) (round : ℤ) (spent : ℚ) (new : List Evidence) : State :=
  let s := { s with evidence := s.evidence ++ new }
  s.schedule (.analyze s.input.event s.evidence s.reports round s.budget spent s.investigationId
    s.approverFeedback) (.analyze round)

/-- After `analyze`; the metrics are popped off the report of record. -/
def State.afterAnalyze (s : State) (round : ℤ) (r : Report) : State :=
  let report := { r with contextMetrics := none }
  let s := { s with reports := s.reports ++ [report], lastReport := some report }
  s.schedule (.recordIteration s.investigationId round s.plan report
    (r.contextMetrics.map Py.truncate)) (.recordIteration round report)

def State.endRound (s : State) (round : ℤ) (report : Report) : State :=
  if report.status = .concluded ∧ s.threshold ≤ report.confidence then
    s.schedule (.planRemediation s.investigationId s.lastReport) .planRemediation
  else if report.status = .inconclusive ∧ report.missingInfo.isEmpty then
    s.needsHuman .inconclusive
  else
    s.schedule (.planNext s.input.event s.investigationId s.maxCalls round report.missingInfo
      (s.evidence.map fun e => (e.evidenceId, e.summary))) (.planNext round)

def State.rawLoop (s : State) (round : ℤ) (report : Report) : List RawCommandRequest → State
  | [] => s.endRound round report
  | req :: rest =>
    s.schedule (.staticValidateRawCommand req.command s.investigationId)
      (.validateRaw round report req rest)

/-- `_request_approval` up to `create_approval`. -/
def State.requestApproval (s : State) (g : Gate) : State :=
  { s with approvalDecision := none }.schedule
    (.createApproval s.investigationId g.kind g.subject) (.createApproval g)

def State.actionLoop (s : State) : List Action → State
  | a :: rest => s.requestApproval (.remediation a rest)
  | [] =>
    if s.executedAny then
      s.schedule (.closeResolved s.investigationId s.lastReport) .closeResolved
    else
      s.schedule (.closeWithSummary s.investigationId s.lastReport s.actions .remediationDenied)
        (.closeWithSummary .remediationDenied)

def subjectDigest (kind : ApprovalKind) : Subject → String
  | .request r => (truthy (some r.command)).getD
      (match kind with | .rawCommand => "raw_command" | .remediation => "remediation")
  | .action a => ((truthy a.description).or (truthy a.playbookId)).getD
      (match kind with | .rawCommand => "raw_command" | .remediation => "remediation")

/-- After `create_approval`: the gate is named and announced. -/
def State.afterCreateApproval (s : State) (g : Gate) (aid : Uuid) : State :=
  let s := { s with awaitingApprovalId := some aid, status := .awaitingApproval }
  s.schedule (.sendNotifications s.investigationId (.approvalRequested s.selfPlatformKey
    s.selfSeverity g.kind (subjectDigest g.kind g.subject))) (.notifyApproval g aid)

def State.decided (s : State) (aid : Uuid) : Bool :=
  match s.approvalDecision with
  | some d => d.approvalId == some aid
  | none => false

/-- `_request_approval` from the end of its wait to `record_approval_decision`. -/
def State.recordDecision (s : State) (g : Gate) (aid : Uuid) (d : DecisionDict)
    (isTimeout : Bool) : State :=
  let d := { d with approvalId := d.approvalId.or (some aid) }
  -- the payload names the approval of the decision, which may lack one
  let s := { s with awaitingApprovalId := none }
  s.schedule (.recordApprovalDecision ⟨s.investigationId, d.approvalId.getD aid, d.decision,
    d.comment, g.kind, isTimeout⟩) (.recordDecision g aid d)

/-- The decision `_request_approval` makes up when its timer expires. -/
def timeoutDecision (aid : Uuid) : DecisionDict :=
  ⟨some aid, some .denied, some "timeout", none⟩

def feedbackOf (d : DecisionDict) : List String :=
  if d.decision = some .needMore ∨ d.decision = some .denied then
    match Py.strip (d.comment.getD "").toList with
    | [] => []
    | cs => [String.ofList cs]
  else []

/-- After `record_approval_decision`: `_request_approval` returns `d`. -/
def State.afterDecision (s : State) (g : Gate) (d : DecisionDict) : State :=
  let s := { s with status := .investigating }
  match g with
  | .raw round report req rest =>
    let s := { s with approverFeedback := s.approverFeedback ++ feedbackOf d }
    if d.decision = some .approved then
      s.schedule (.runRawCommand s.investigationId s.platformKey req.command round)
        (.runRaw round report rest)
    else s.rawLoop round report rest
  | .remediation action rest =>
    if d.decision = some .approved then
      s.schedule (.executePlaybook s.investigationId action s.platformKey s.deployment
        d.decidedBy) (.executePlaybook action rest)
    else s.actionLoop rest

def State.afterPlanRemediation (s : State) (r : Remediation) : State :=
  let lastReport := match s.lastReport, truthy r.rcaCompact with
    | some report, some compact => some { report with rcaCompact := some compact }
    | report, _ => report
  let s := { s with lastReport := lastReport, actions := r.proposedActions }
  if s.actions.all (fun a => a.kind ∈
      [some "ignore", some "manual_recommendation", some "code_fix_recommendation"]) then
    s.schedule (.closeWithSummary s.investigationId s.lastReport s.actions .summaryOnly)
      (.closeWithSummary .summaryOnly)
  else s.actionLoop (s.actions.filter (fun a => a.kind = some "playbook"))

/-- `DEFAULT_SETTLE_SECONDS`, with its default of 120. -/
def defaultSettleSeconds (playbookId : String) : ℤ :=
  if playbookId = "presto.kill_query" then 0 else 120

def settleSeconds (playbookId : String) (rem : RemediationConfig) : ℤ :=
  match rem.settleSeconds with
  | some n => n
  | none => (rem.settleSecondsByPlaybook.lookup playbookId).getD (defaultSettleSeconds playbookId)

def resolveActionSettleSeconds (action : Action) (rem : RemediationConfig)
    (inputOverride : Option ℤ) : ℤ :=
  match action.settleSeconds, inputOverride with
  | some n, _ => n
  | none, some n => n
  | none, none => settleSeconds (action.playbookId.getD "") rem

/-- `verify_fix` is scheduled once the settle window is over. -/
def State.verify (s : State) (action : Action) (rest : List Action) (exec : Option Uuid) : State :=
  s.schedule (.verifyFix s.investigationId action exec s.platformKey) (.verifyFix action rest)

def State.afterExecute (s : State) (now : Instant) (action : Action) (rest : List Action)
    (ok : Bool) (exec : Option Uuid) : State :=
  if !ok then s.needsHuman .playbookFailed
  else
    let settle := resolveActionSettleSeconds action s.remediation s.input.settleSeconds
    if settle ≤ 0 then s.verify action rest exec
    else if Py.maxTimedeltaSeconds < settle then { s with pc := .stuck }
    else { s with pc := .settle action rest exec (now+settle*1000000) }

def State.afterVerify (s : State) (action : Action) (rest : List Action) (ok : Bool) : State :=
  if !ok then s.needsHuman .verificationFailed
  else
    State.actionLoop { s with
      executedAny := true
      appliedPlaybooks := s.appliedPlaybooks ++ (truthy action.playbookId).toList } rest

def State.afterNeedsHuman (s : State) (reason : Reason) : State :=
  let s := { s with status := .needsHuman, terminalReason := some (.inr reason) }
  s.schedule (.sendNotifications s.investigationId (.caseNeedsHuman s.platformKey
    s.input.event.severity reason (s.lastReport.bind Report.rcaCompact)))
    (.notifyNeedsHuman reason)

def State.afterReject (s : State) (reason : String) : State :=
  let s := { s with status := .rejected, terminalReason := some (.inl reason) }
  s.schedule (.sendNotifications s.investigationId
    (.caseRejected s.platformKey s.input.event.severity reason)) (.notifyRejected reason)

def State.afterCloseResolved (s : State) : State :=
  let s := { s with status := .resolved }
  s.schedule (.sendNotifications s.investigationId (.caseResolved s.platformKey
    s.input.event.severity (s.lastReport.bind Report.rcaCompact) s.appliedPlaybooks))
    .notifyResolved

/-- `_notify` swallows the failure of its activity, so the code behind it runs
either way. -/
def State.afterNotify (s : State) (now : Instant) : Option State :=
  match s.pc with
  | .notifyApproval g aid => some { s with pc := .waitDecision g aid (now+g.timeout) }
  | .notifyRejected reason => some { s with pc := .returned (.rejected reason) }
  | .notifyNeedsHuman reason => some { s with pc := .returned (.needsHuman reason) }
  | .notifyResolved => some { s with pc := .returned .resolved }
  | _ => none

/-- An activity has exhausted its retries: `_notify` goes on, everywhere else
the `ActivityError` ends the run. -/
def State.fail (s : State) (now : Instant) : Option State :=
  match s.pc with
  | .waitPaused _ | .waitDecision _ _ _ | .settle _ _ _ _ | .returned _ | .raised | .stuck => none
  | .notifyApproval _ _ | .notifyRejected _ | .notifyNeedsHuman _ | .notifyResolved =>
    s.afterNotify now
  | _ => some { s with pc := .raised }

/-- The awaited activity completes. -/
def State.resume (s : State) (now : Instant) : Reply → Option State
  | .error => s.fail now
  | .case c =>
    match s.pc with
    | .createCase => some (s.afterCreateCase c)
    | _ => none
  | .plan p =>
    match s.pc with
    | .planInitial => some (s.afterPlanInitial now p)
    | .planNext round => some (State.enterRound { s with plan := p } now (round+1))
    | _ => none
  | .spend usd =>
    match s.pc with
    | .getSpend round => some (s.afterGetSpend now round usd)
    | _ => none
  | .evidence es =>
    match s.pc with
    | .collect round spent => some (s.afterCollect round spent es)
    | .runRaw round report rest =>
      some (State.rawLoop { s with evidence := s.evidence ++ es } round report rest)
    | _ => none
  | .report r =>
    match s.pc with
    | .analyze round => some (s.afterAnalyze round r)
    | _ => none
  | .validation ok =>
    match s.pc with
    | .validateRaw round report req rest =>
      some (if ok then s.requestApproval (.raw round report req rest)
        else s.rawLoop round report rest)
    | _ => none
  | .approval aid =>
    match s.pc with
    | .createApproval g => some (s.afterCreateApproval g aid)
    | _ => none
  | .remediation r =>
    match s.pc with
    | .planRemediation => some (s.afterPlanRemediation r)
    | _ => none
  | .executed ok exec =>
    match s.pc with
    | .executePlaybook action rest => some (s.afterExecute now action rest ok exec)
    | _ => none
  | .verified ok =>
    match s.pc with
    | .verifyFix action rest => some (s.afterVerify action rest ok)
    | _ => none
  | .done =>
    match s.pc with
    | .recordIteration round report => some (s.rawLoop round report report.rawCommandRequests)
    | .recordDecision g _ d => some (s.afterDecision g d)
    | .rejectCase reason => some (s.afterReject reason)
    | .toNeedsHuman reason => some (s.afterNeedsHuman reason)
    | .closeResolved => some s.afterCloseResolved
    | .closeWithSummary reason =>
      some { s with status := .closedSummary, pc := .returned (.closedSummary reason) }
    | _ => s.afterNotify now

/-- A satisfied `wait_condition` lets the coroutine go on. -/
def State.wake (s : State) (now : Instant) : Option State :=
  match s.pc with
  | .waitPaused round => if !s.paused || s.aborted then some (s.checkBudget now round) else none
  | .waitDecision g aid _ =>
    match s.approvalDecision with
    | some d => if d.approvalId = some aid then some (s.recordDecision g aid d false) else none
    | none => none
  | _ => none

/-- A timer fires. Conditions are checked before timers in an activation, so
the gate's timer only wins over a condition that does not hold. -/
def State.timer (s : State) (now : Instant) : Option State :=
  match s.pc with
  | .waitDecision g aid t =>
    if t ≤ now ∧ s.decided aid = false then
      some (s.recordDecision g aid (timeoutDecision aid) true)
    else none
  | .settle action rest exec t => if t ≤ now then some (s.verify action rest exec) else none
  | _ => none

def State.closed (s : State) : Bool :=
  match s.pc with
  | .returned _ | .raised => true
  | _ => false

inductive Signal where
  | pause
  | resume
  | abort
  | adjustBudget (b : Budget)
  | approvalDecided (d : DecisionDict)

def State.signal (s : State) : Signal → State
  | .pause => if s.status ∈ terminalStatuses then s else { s with paused := true }
  | .resume => { s with paused := false }
  | .abort => if s.status ∈ terminalStatuses then s else { s with aborted := true }
  | .adjustBudget b =>
    if s.status ∈ terminalStatuses then s else { s with budgetOverride := some b }
  -- a decision for another gate is only dropped while this one is awaited
  | .approvalDecided d =>
    match s.awaitingApprovalId, d.approvalId with
    | some aid, some sid => if sid ≠ aid then s else { s with approvalDecision := some d }
    | _, _ => { s with approvalDecision := some d }

end DbAgent.Workflow
