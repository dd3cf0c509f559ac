import Mathlib.Data.Rat.Defs
import DbAgent.JsonValue

/-! Identifiers, statuses and the rows of the tables that approvals and
investigations live in. -/
namespace DbAgent

open JsonText (Json)

/-- `uuid.UUID`: 128 bits. -/
abbrev Uuid := BitVec 128

abbrev Instant := ℤ

abbrev Value := Json ℚ

/-- The event `normalize_payload` builds. Its `event_id` is kept as the text
the sender chose and as the UUID that text denotes. -/
structure AlertEvent where
  eventId : Uuid
  eventIdText : String
  source : String
  platformKey : String
  errorSummary : String
  errorDetail : Option String
  occurredAt : String
  reporter : Option String
  severity : String
  labels : List (String × String)
  fingerprint : String
  deriving DecidableEq, Repr

inductive Status where
  | received | opened | investigating | awaitingApproval | executing | verifying
  | rejected | needsHuman | closedSummary | resolved
  deriving DecidableEq, Repr

def terminalStatuses : List Status := [.rejected, .needsHuman, .closedSummary, .resolved]

/-- `NON_TERMINAL_STATUSES`: the statuses that still accept correlation merges. -/
def nonTerminalStatuses : List Status :=
  [.received, .opened, .investigating, .awaitingApproval, .executing, .verifying]

theorem mem_nonTerminal_iff (s : Status) :
    s ∈ nonTerminalStatuses ↔ s ∉ terminalStatuses := by
  cases s <;> decide

/-- A decision `decide_approval_atomic` accepts. -/
inductive Decision where
  | approved | denied | needMore
  deriving DecidableEq, Repr

/-- The membership test `decision not in ("approved", "denied", "need_more")`. -/
def Decision.parse (s : String) : Option Decision :=
  if s = "approved" then some .approved
  else if s = "denied" then some .denied
  else if s = "need_more" then some .needMore
  else none

/-- `approvals.kind`. -/
inductive ApprovalKind where
  | rawCommand | remediation
  deriving DecidableEq, Repr

/-- An item of `raw_command_requests` in an RCA report. -/
structure RawCommandRequest where
  command : String
  justification : String
  expectedEvidence : String
  deriving DecidableEq, Repr

/-- An item of `proposed_actions`; `rest` holds the members that neither the
workflow nor an activity reads. -/
structure Action where
  kind : Option String
  playbookId : Option String
  playbookParams : Value
  description : Option String
  rollbackNote : Option String
  verificationPlan : List Value
  settleSeconds : Option ℤ
  forceVerifyFail : Bool
  rest : List (String × Value)

/-- `approvals.subject`: the dictionary the human decides about. -/
inductive Subject where
  | request (r : RawCommandRequest)
  | action (a : Action)

/-- A row of `approvals`. -/
structure ApprovalRow where
  approvalId : Uuid
  investigationId : Uuid
  kind : ApprovalKind
  subject : Subject
  decision : Option Decision
  decidedBy : Option Uuid
  decidedAt : Option Instant
  comment : Option String
  createdAt : Instant

def ApprovalRow.verdict (r : ApprovalRow) : Option Decision × Option Uuid :=
  (r.decision, r.decidedBy)

inductive Actor where
  | system
  | user (id : Uuid)
  | agent (role : String)
  | probe (id : Uuid)
  deriving DecidableEq, Repr

inductive ApprovalAudit where
  | approvalDecided (approvalId : Uuid) (decision : Option Decision) (comment : Option String)
      (kind : ApprovalKind)
  | rawCmdApproved (approvalId : Uuid)
  | rawCmdDenied (approvalId : Uuid)
  deriving DecidableEq, Repr

/-- A row of `audit_log` written for an approval. -/
structure ApprovalAuditRow where
  investigationId : Uuid
  actor : Actor
  entry : ApprovalAudit
  deriving DecidableEq, Repr

end DbAgent
