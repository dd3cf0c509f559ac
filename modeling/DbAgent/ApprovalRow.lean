import DbAgent.TransitionSystem
import DbAgent.Records
import DbAgent.PyBuiltins

/-! One row of `approvals` under READ COMMITTED: the statements of the
dashboard's `decide_approval_atomic` transactions and of the worker's
`record_approval_decision` transactions, in any interleaving. -/
namespace DbAgent.Approval

open Transition

/-- The body of `POST /approvals/{id}/decision` and the authenticated user. -/
structure DecisionRequest where
  decision : Option String
  comment : Option String
  decidedBy : Uuid
  deriving DecidableEq, Repr

/-- The `APIError`s of `decide_approval_atomic`. -/
inductive ApiError where
  | invalidDecision | commentRequired | approvalNotFound | investigationNotFound
  | caseTerminal | alreadyDecided
  deriving DecidableEq, Repr

def ApiError.statusCode : ApiError → ℕ
  | .invalidDecision => 400
  | .commentRequired => 400
  | .approvalNotFound => 404
  | .investigationNotFound => 404
  | .caseTerminal => 409
  | .alreadyDecided => 409

/-- `decide_approval_atomic` up to its UPDATE: the request is validated, then
the approval and its investigation are read. -/
def checkDecision (req : DecisionRequest) (row : Option ApprovalRow) (inv : Option Status) :
    Except ApiError Decision :=
  match req.decision.bind Decision.parse with
  | none => .error .invalidDecision
  | some d =>
    if d = .needMore ∧ Py.strip (req.comment.getD "").toList = [] then
      .error .commentRequired
    else match row, inv with
      | none, _ => .error .approvalNotFound
      | some _, none => .error .investigationNotFound
      | some _, some st => if st ∈ terminalStatuses then .error .caseTerminal else .ok d

/-- `UPDATE approvals SET … WHERE approval_id = … AND decision IS NULL`;
`none` is a row count of zero. -/
def decideUpdate (row : ApprovalRow) (d : Decision) (req : DecisionRequest) (now : Instant) :
    Option ApprovalRow :=
  if row.decision = none then
    some { row with
      decision := some d, decidedBy := some req.decidedBy,
      decidedAt := some now, comment := req.comment }
  else none

/-- The audit rows of `decide_approval_atomic`, with the human as the actor. -/
def decideAudits (row : ApprovalRow) (d : Decision) (req : DecisionRequest) :
    List ApprovalAuditRow :=
  let by_ := Actor.user req.decidedBy
  ⟨row.investigationId, by_, .approvalDecided row.approvalId (some d) req.comment row.kind⟩ ::
    match row.kind, d with
    | .rawCommand, .approved => [⟨row.investigationId, by_, .rawCmdApproved row.approvalId⟩]
    | .rawCommand, .denied => [⟨row.investigationId, by_, .rawCmdDenied row.approvalId⟩]
    | _, _ => []

/-- The `approval_decided` signal `post_decision` sends after its commit. -/
structure DecisionSignal where
  approvalId : Uuid
  decision : Decision
  comment : Option String
  deriving DecidableEq, Repr

/-- The input of the `record_approval_decision` activity. -/
structure RecordPayload where
  investigationId : Uuid
  approvalId : Uuid
  decision : Option Decision
  comment : Option String
  kind : ApprovalKind
  isTimeout : Bool
  deriving DecidableEq, Repr

/-- What `decide_approval` raises. -/
inductive DecideError where
  | keyError | valueError
  deriving DecidableEq, Repr

/-- `decide_approval`: the ORM object as it stands after the assignments. -/
def decideApproval (row : Option ApprovalRow) (d : Decision) (decidedBy : Option Uuid)
    (comment : Option String) (now : Instant) : Except DecideError ApprovalRow :=
  match row with
  | none => .error .keyError
  | some r =>
    if r.decision ≠ none then .error .valueError
    else .ok { r with
      decision := some d, decidedBy := decidedBy, comment := comment, decidedAt := some now }

/-- The UPDATE the ORM emits at flush. It names the columns whose assigned
value differs from the loaded one, and applies to the current version of the
row, whatever that has become since it was loaded. -/
def ormUpdate (loaded assigned current : ApprovalRow) : ApprovalRow :=
  { current with
    decision := if assigned.decision = loaded.decision then current.decision
      else assigned.decision
    decidedBy := if assigned.decidedBy = loaded.decidedBy then current.decidedBy
      else assigned.decidedBy
    decidedAt := if assigned.decidedAt = loaded.decidedAt then current.decidedAt
      else assigned.decidedAt
    comment := if assigned.comment = loaded.comment then current.comment
      else assigned.comment }

/-- The audit rows of `record_approval_decision`, with the system as the actor. -/
def recordAudits (p : RecordPayload) (alreadyDecided : Bool) : List ApprovalAuditRow :=
  if alreadyDecided && !p.isTimeout then []
  else
    ⟨p.investigationId, .system, .approvalDecided p.approvalId p.decision p.comment p.kind⟩ ::
      match p.kind, p.decision with
      | .rawCommand, some .approved =>
        [⟨p.investigationId, .system, .rawCmdApproved p.approvalId⟩]
      | .rawCommand, some .denied =>
        [⟨p.investigationId, .system, .rawCmdDenied p.approvalId⟩]
      | _, _ => []

/-- Where a `post_decision` request stands. -/
inductive DashPc where
  | idle
  | checked (req : DecisionRequest) (d : Decision)
  | updated (req : DecisionRequest) (d : Decision) (new : ApprovalRow)
  | committed (req : DecisionRequest) (d : Decision)
  | signalled (req : DecisionRequest) (d : Decision)
  | failed (e : Option ApiError)

/-- Where an attempt of `record_approval_decision` stands. -/
inductive WorkPc where
  | idle
  | selected (p : RecordPayload) (loaded : ApprovalRow)
      (outcome : Except DecideError ApprovalRow)
  | flushed (p : RecordPayload) (loaded new : ApprovalRow)
  | finished (p : RecordPayload) (loaded : ApprovalRow)
  | failed

inductive Holder where
  | dash (tx : ℕ)
  | work (tx : ℕ)
  deriving DecidableEq, Repr

abbrev Verdict := Option Decision × Option Uuid

/-- The committed row and audit rows, the row lock, and every transaction.
`commits` and `changes` record the history: which decisions
`decide_approval_atomic` has committed, and how the committed pair
(`decision`, `decided_by`) has changed, the latest first. -/
structure RowState where
  row : ApprovalRow
  audit : List ApprovalAuditRow
  lock : Option Holder
  dash : ℕ → DashPc
  work : ℕ → WorkPc
  signals : List DecisionSignal
  commits : List (Decision × Uuid)
  changes : List (Verdict × Verdict)

def RowState.install (s : RowState) (new : ApprovalRow) (audits : List ApprovalAuditRow) :
    RowState :=
  { s with
    row := new
    audit := s.audit ++ audits
    changes := if new.verdict = s.row.verdict then s.changes
      else (s.row.verdict, new.verdict) :: s.changes }

inductive RowEvent where
  | check (tx : ℕ) (req : DecisionRequest) (inv : Option Status)
  | update (tx : ℕ) (now : Instant)
  | commit (tx : ℕ)
  | rollback (tx : ℕ)
  | signal (tx : ℕ)
  | select (tx : ℕ) (p : RecordPayload) (now : Instant)
  | flush (tx : ℕ)
  | finish (tx : ℕ)
  | workRollback (tx : ℕ)

def RowState.setDash (s : RowState) (tx : ℕ) (pc : DashPc) : RowState :=
  { s with dash := Function.update s.dash tx pc }

def RowState.setWork (s : RowState) (tx : ℕ) (pc : WorkPc) : RowState :=
  { s with work := Function.update s.work tx pc }

/-- One statement of one transaction; `none` where it is not that
transaction's turn, or where it waits for the row lock. -/
def RowState.step (s : RowState) : RowEvent → Option RowState
  | .check tx req inv =>
    match s.dash tx with
    | .idle =>
      match checkDecision req (some s.row) inv with
      | .error e => some (s.setDash tx (.failed (some e)))
      | .ok d => some (s.setDash tx (.checked req d))
    | _ => none
  | .update tx now =>
    match s.dash tx with
    | .checked req d =>
      -- an UPDATE waits for the row lock and then sees the latest version
      if s.lock ≠ none then none
      else match decideUpdate s.row d req now with
        | none => some (s.setDash tx (.failed (some .alreadyDecided)))
        | some new => some { s.setDash tx (.updated req d new) with lock := some (.dash tx) }
    | _ => none
  | .commit tx =>
    match s.dash tx with
    | .updated req d new =>
      some { (s.install new (decideAudits s.row d req)).setDash tx (.committed req d) with
        lock := none
        commits := (d, req.decidedBy) :: s.commits }
    | _ => none
  | .rollback tx =>
    match s.dash tx with
    | .checked _ _ => some (s.setDash tx (.failed none))
    | .updated _ _ _ => some { s.setDash tx (.failed none) with lock := none }
    | _ => none
  | .signal tx =>
    match s.dash tx with
    | .committed req d =>
      some { s.setDash tx (.signalled req d) with
        signals := ⟨s.row.approvalId, d, req.comment⟩ :: s.signals }
    | _ => none
  | .select tx p now =>
    match s.work tx with
    | .idle =>
      some (s.setWork tx (.selected p s.row
        (decideApproval (some s.row) (p.decision.getD .denied) none p.comment now)))
    | _ => none
  | .flush tx =>
    match s.work tx with
    | .selected p loaded (.ok assigned) =>
      if s.lock ≠ none then none
      else some { s.setWork tx (.flushed p loaded (ormUpdate loaded assigned s.row)) with
        lock := some (.work tx) }
    | _ => none
  | .finish tx =>
    match s.work tx with
    -- nothing was assigned, so the commit carries at most the audit rows
    | .selected p loaded (.error e) =>
      some ((s.install s.row (recordAudits p (e = .valueError))).setWork tx
        (.finished p loaded))
    | .flushed p loaded new =>
      some { (s.install new (recordAudits p false)).setWork tx (.finished p loaded) with
        lock := none }
    | _ => none
  | .workRollback tx =>
    match s.work tx with
    | .selected _ _ _ => some (s.setWork tx .failed)
    | .flushed _ _ _ => some { s.setWork tx .failed with lock := none }
    | _ => none

/-- A row as `create_approval` commits it: undecided, and touched by nobody. -/
def RowState.created (row : ApprovalRow) : RowState :=
  { row := row, audit := [], lock := none, dash := fun _ => .idle, work := fun _ => .idle,
    signals := [], commits := [], changes := [] }

end DbAgent.Approval
