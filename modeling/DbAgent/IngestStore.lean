import DbAgent.Records
import DbAgent.PyJson

/-! The tables that webhook ingest reads and writes, the fused merge statement,
and the transaction `_ingest_txn` in the pieces that other transactions can
come between. -/
namespace DbAgent.Ingest

open JsonText (Json Object lookup)
open Pg (Numeric)

inductive Disposition where
  | opened | merged | rejected
  deriving DecidableEq, Repr

inductive RejectReason where
  | unknownPlatformKey | platformNotReady
  deriving DecidableEq, Repr

def RejectReason.text : RejectReason → String
  | .unknownPlatformKey => "unknown_platform_key"
  | .platformNotReady => "platform_not_ready"

/-- A row of `platforms`. A JSON null as `config` is read as no configuration. -/
structure Platform where
  status : String
  config : Option (Object Numeric)
  status_ascii : status.toList.all (fun c => c.toNat < 128) = true

/-- A row of `alert_events`; `normalized` is the event itself. -/
structure EventRow where
  eventId : Uuid
  fingerprint : String
  source : Option String
  platformKey : Option String
  severity : Option String
  payloadRef : Option String
  normalized : AlertEvent
  disposition : Disposition
  investigationId : Option Uuid
  rejectReason : Option String
  receivedAt : Option Instant
  deriving DecidableEq, Repr

/-- The three limits of `investigations.budget`. -/
structure Budget where
  maxRounds : Json Py.Number
  maxCostUsd : Json Py.Number
  maxWallSeconds : Json Py.Number

/-- A row of `investigations`. -/
structure InvestigationRow where
  investigationId : Uuid
  createdAt : Instant
  platformKey : String
  status : Status
  triggerEvent : Option Uuid
  budget : Budget

inductive AuditEntry where
  | eventReceived (eventId fingerprint : String)
  | eventMerged (eventId fingerprint : String)
  | eventRejected (eventId reason : String)
  deriving DecidableEq, Repr

/-- A row of `audit_log` written by ingest. -/
structure AuditRow where
  investigationId : Option Uuid
  actor : Actor
  entry : AuditEntry
  writtenAt : Instant
  deriving DecidableEq, Repr

structure Store where
  platforms : String → Option Platform
  events : List EventRow
  investigations : List InvestigationRow
  audits : List AuditRow

structure Writes where
  events : List EventRow
  investigations : List InvestigationRow
  audits : List AuditRow

def Writes.empty : Writes := ⟨[], [], []⟩

def Writes.append (w w' : Writes) : Writes :=
  ⟨w.events ++ w'.events, w.investigations ++ w'.investigations, w.audits ++ w'.audits⟩

def Store.overlay (st : Store) (w : Writes) : Store :=
  { st with
    events := st.events ++ w.events
    investigations := st.investigations ++ w.investigations
    audits := st.audits ++ w.audits }

def Store.conflicts (st : Store) (w : Writes) : Bool :=
  w.events.any (fun r => st.events.any (fun r' => r'.eventId = r.eventId)) ||
    w.investigations.any (fun r => st.investigations.any
      (fun r' => r'.investigationId = r.investigationId ∧ r'.createdAt = r.createdAt))

/-- The rows become visible to everybody; `none` is a unique violation. -/
def Store.commit (st : Store) (w : Writes) : Option Store :=
  if st.conflicts w then none else some (st.overlay w)

structure Settings where
  correlationWindowSeconds : ℤ
  budgetDefaults : Budget
  knownSources : List String

/-- What `ingest` refuses before it touches the database. -/
inductive Refusal where
  | missingPlatformKey | missingErrorSummary | unknownSource
  deriving DecidableEq, Repr

/-- The checks of `ingest` on the normalized event. -/
def precheck (S : Settings) (event : AlertEvent) : Option Refusal :=
  if event.platformKey = "" then some .missingPlatformKey
  else if event.errorSummary = "" then some .missingErrorSummary
  else if event.source ≠ "" ∧ S.knownSources ≠ [] ∧ event.source ∉ S.knownSources then
    some .unknownSource
  else none

/-- `received_at >= …`; a NULL is never. -/
def EventRow.receivedSince (r : EventRow) (start : Instant) : Bool :=
  match r.receivedAt with
  | none => false
  | some t => start ≤ t

/-- The sort key of `received_at DESC`, where a NULL comes first. -/
def EventRow.sortKey (r : EventRow) : WithTop Instant :=
  match r.receivedAt with
  | none => ⊤
  | some t => t

section FusedStatement

inductive StatementError where
  | integerOutOfRange | uniqueViolation
  deriving DecidableEq, Repr

def overrideOfText (t : List Char) : Option ℤ :=
  if Pg.isInteger t && Pg.octetLength t ≤ 11 then Pg.toInteger (Pg.bigint t) else none

def windowOverride : Json Numeric → Option ℤ
  | .num n => overrideOfText n.text
  | .str s => overrideOfText s.toList
  | _ => none

/-- `window_seconds`; its NULL is `none`. -/
def windowSeconds (config : Option (Object Numeric)) (defaultWindow : ℤ) :
    Except StatementError (Option ℤ) :=
  match config.bind (fun o => lookup "correlation_window_seconds" o.members) with
  | some v => .ok (windowOverride v)
  | none =>
    match config.bind (fun o => lookup "correlation_window" o.members) with
    | some v => .ok (windowOverride v)
    | none =>
      match Pg.toInteger defaultWindow with
      | some w => .ok (some w)
      | none => .error .integerOutOfRange

/-- The CTE `platform`, and `window_seconds IS NOT NULL`. -/
def platformWindow (st : Store) (platformKey : String) (defaultWindow : ℤ) :
    Except StatementError (Option ℤ) :=
  match st.platforms platformKey with
  | none => .ok none
  | some p =>
    if Pg.lower p.status.toList = "online".toList then windowSeconds p.config defaultWindow
    else .ok none

def candidateRows (st : Store) (platformKey fingerprint : String) (start : Instant) :
    List (EventRow × InvestigationRow) :=
  (st.events.product st.investigations).filter (fun (ae, i) =>
    ae.platformKey = some platformKey && some i.investigationId = ae.investigationId &&
      ae.fingerprint = fingerprint && ae.investigationId.isSome && ae.receivedSince start &&
      i.status ∈ nonTerminalStatuses)

def mergedRow (event : AlertEvent) (inv : Uuid) (statementAt : Instant) : EventRow where
  eventId := event.eventId
  fingerprint := event.fingerprint
  source := some event.source
  platformKey := some event.platformKey
  severity := some event.severity
  payloadRef := none
  normalized := event
  disposition := .merged
  investigationId := some inv
  rejectReason := none
  receivedAt := some statementAt

structure StatementResult where
  value : Option Uuid
  writes : Writes

/-- The data-modifying CTEs: the insert of the audit row reads what the insert
of the event returns, which reads the candidate. -/
def fusedWrites (event : AlertEvent) (statementAt : Instant) (candidate : Option Uuid) :
    StatementResult :=
  let eventWrite := candidate.map (fun inv => mergedRow event inv statementAt)
  let auditWrite := eventWrite.map (fun r =>
    { investigationId := r.investigationId, actor := Actor.system,
      entry := AuditEntry.eventMerged event.eventIdText event.fingerprint,
      writtenAt := statementAt : AuditRow })
  ⟨auditWrite.bind AuditRow.investigationId, ⟨eventWrite.toList, [], auditWrite.toList⟩⟩

def mergeExistingEventWithAudit (st : Store) (tie : ℕ) (event : AlertEvent)
    (defaultWindow : ℤ) (statementAt : Instant) : Except StatementError StatementResult :=
  match platformWindow st event.platformKey defaultWindow with
  | .error e => .error e
  | .ok none => .ok (fusedWrites event statementAt none)
  | .ok (some window) =>
    let candidate := Pg.newest (fun r => r.1.sortKey) tie
      (candidateRows st event.platformKey event.fingerprint (statementAt-window*1000000))
    let res := fusedWrites event statementAt (candidate.map (fun r => r.2.investigationId))
    if st.conflicts res.writes then .error .uniqueViolation else .ok res

end FusedStatement

section IngestTxn

/-- The clock readings of one `_ingest_txn`, in the order of the source. -/
structure Clock where
  reread : Instant
  receivedAt : Instant
  auditAt : Instant
  createdAt : Instant

def Clock.still (t : Instant) : Clock := ⟨t, t, t, t⟩

inductive Response where
  | opened (investigationId : Uuid)
  | merged (investigationId : Uuid)
  | rejected (reason : RejectReason)
  deriving DecidableEq, Repr

def Response.statusCode : Response → ℕ
  | .opened _ => 202
  | .merged _ => 200
  | .rejected _ => 200

/-- `insert_alert_event` as `_ingest_txn` and `_reject` call it. -/
def insertAlertEvent (event : AlertEvent) (disposition : Disposition) (inv : Option Uuid)
    (rejectReason : Option RejectReason) (clock : Clock) : EventRow where
  eventId := event.eventId
  fingerprint := event.fingerprint
  source := some event.source
  platformKey := some event.platformKey
  severity := some event.severity
  payloadRef := none
  normalized := event
  disposition := disposition
  investigationId := inv
  rejectReason := rejectReason.map RejectReason.text
  receivedAt := some clock.receivedAt

/-- `write_audit` with `actor_system()`. -/
def writeAudit (inv : Option Uuid) (entry : AuditEntry) (clock : Clock) : AuditRow :=
  ⟨inv, .system, entry, clock.auditAt⟩

def rejectWrites (event : AlertEvent) (reason : RejectReason) (clock : Clock) : Writes :=
  ⟨[insertAlertEvent event .rejected none (some reason) clock], [],
    [writeAudit none (.eventRejected event.eventIdText reason.text) clock]⟩

def mergeWrites (event : AlertEvent) (inv : Uuid) (clock : Clock) : Writes :=
  ⟨[insertAlertEvent event .merged (some inv) none clock], [],
    [writeAudit (some inv) (.eventMerged event.eventIdText event.fingerprint) clock]⟩

def openWrites (event : AlertEvent) (inv : Uuid) (budget : Budget) (clock : Clock) : Writes :=
  ⟨[insertAlertEvent event .opened (some inv) none clock],
    [⟨inv, clock.createdAt, event.platformKey, .received, some event.eventId, budget⟩],
    [writeAudit (some inv) (.eventReceived event.eventIdText event.fingerprint) clock]⟩

variable (I : Py.Interpreter)

def correlationWindow (defaultWindow : ℤ) (config : Option (Object Py.Number)) :
    Except Py.Error ℤ :=
  match config.bind (fun o => lookup "correlation_window_seconds" o.members) with
  | some v => Py.int I v
  | none =>
    match config.bind (fun o => lookup "correlation_window" o.members) with
    | some v => Py.int I v
    | none => .ok defaultWindow

structure Admission where
  window : ℤ
  config : Option (Object Py.Number)

def loadConfig (p : Platform) : Except Py.Error (Option (Object Py.Number)) :=
  match p.config with
  | none => .ok none
  | some o => (Py.loads I o).map some

/-- `_ingest_txn` up to the lock: `get_platform`, its status, the window. -/
def admitEvent (S : Settings) (st : Store) (event : AlertEvent) :
    Except Py.Error (Except RejectReason Admission) :=
  match st.platforms event.platformKey with
  | none => .ok (.error .unknownPlatformKey)
  | some p =>
    match loadConfig I p with
    | .error e => .error e
    | .ok config =>
      if Py.lower p.status.toList = "online".toList then
        match correlationWindow I S.correlationWindowSeconds config with
        | .error e => .error e
        | .ok window => .ok (.ok ⟨window, config⟩)
      else .ok (.error .platformNotReady)

def openRows (st : Store) (fingerprint platformKey : String) (start : Instant) :
    List (EventRow × InvestigationRow) :=
  (st.events.product st.investigations).filter (fun (ae, i) =>
    ae.investigationId = some i.investigationId && ae.fingerprint = fingerprint &&
      ae.platformKey = some platformKey && ae.investigationId.isSome &&
      ae.receivedSince start && i.status ∈ nonTerminalStatuses)

def findOpenByFingerprint (st : Store) (tie : ℕ) (fingerprint platformKey : String)
    (window : ℤ) (now : Instant) : Except Py.Error (Option Uuid) :=
  match Py.addSeconds now (-window) with
  | none => .error .overflowError
  | some start =>
    .ok ((Pg.newest (fun r => r.1.sortKey) tie (openRows st fingerprint platformKey start)).map
      (fun r => r.2.investigationId))

/-- One limit of `merge_platform_budget`. -/
def overrideLimit (overrides : Json Py.Number) (key : String) (limit : Json Py.Number) :
    Except Py.Error (Json Py.Number) :=
  match Py.contains key overrides with
  | .error e => .error e
  | .ok true => Py.getItem key overrides
  | .ok false => .ok limit

/-- `a or b` for a member that may be missing. -/
def orElse (a : Option (Json Py.Number)) (b : Json Py.Number) : Json Py.Number :=
  match a with
  | none => b
  | some v => if Py.truthy v then v else b

def mergePlatformBudget (defaults : Budget) (config : Option (Object Py.Number)) :
    Except Py.Error Budget :=
  match config with
  | none => .ok defaults
  | some o =>
    let overrides := orElse (lookup "budget" o.members)
      (orElse (lookup "budget_defaults" o.members) (.obj []))
    do
      let maxRounds ← overrideLimit overrides "max_rounds" defaults.maxRounds
      let maxCostUsd ← overrideLimit overrides "max_cost_usd" defaults.maxCostUsd
      let maxWallSeconds ← overrideLimit overrides "max_wall_seconds" defaults.maxWallSeconds
      return ⟨maxRounds, maxCostUsd, maxWallSeconds⟩

def decideUnderLock (S : Settings) (st : Store) (tie : ℕ) (clock : Clock) (fresh : Uuid)
    (event : AlertEvent) (a : Admission) : Except Py.Error (Response × Writes) :=
  match findOpenByFingerprint st tie event.fingerprint event.platformKey a.window
      clock.reread with
  | .error e => .error e
  | .ok (some inv) => .ok (.merged inv, mergeWrites event inv clock)
  | .ok none =>
    match mergePlatformBudget S.budgetDefaults a.config with
    | .error e => .error e
    | .ok budget => .ok (.opened fresh, openWrites event fresh budget clock)

/-- What `_ingest_txn` raises. -/
inductive IngestError where
  | python (e : Py.Error)
  | uniqueViolation
  deriving DecidableEq, Repr

def commitWrites (st : Store) (r : Response) (w : Writes) :
    Except IngestError (Response × Store) :=
  match st.commit w with
  | none => .error .uniqueViolation
  | some st' => .ok (r, st')

/-- `_ingest_txn` when no other transaction comes between its statements. -/
def ingestTxn (S : Settings) (st : Store) (tie : ℕ) (clock : Clock) (fresh : Uuid)
    (event : AlertEvent) : Except IngestError (Response × Store) :=
  match admitEvent I S st event with
  | .error e => .error (.python e)
  | .ok (.error reason) => commitWrites st (.rejected reason) (rejectWrites event reason clock)
  | .ok (.ok a) =>
    match decideUnderLock S st tie clock fresh event a with
    | .error e => .error (.python e)
    | .ok (r, w) => commitWrites st r w

end IngestTxn

section Sample

/-- It reads no integer of more than 4300 digits. -/
def sampleInterpreter : Py.Interpreter where
  decodes := fun o => o.toJson.allNum fun n => n.scale ≠ 0 || n.coeff.natAbs < 10^Py.maxStrDigits
  float := fun _ => none
  decimal := fun c => if c.isDigit then some (c.toNat - '0'.toNat) else none
  decimal_digit := fun _ h => if_pos h

def sampleSettings : Settings where
  correlationWindowSeconds := 1800
  budgetDefaults := ⟨.num (.int 15), .num (.int 10), .num (.int 1800)⟩
  knownSources := []

def sampleAlert (id : Uuid) : AlertEvent where
  eventId := id
  eventIdText := "alert"
  source := ""
  platformKey := "presto-us"
  errorSummary := "Query exceeded memory limit"
  errorDetail := none
  occurredAt := "2026-01-01T00:00:00+00:00"
  reporter := none
  severity := "unknown"
  labels := []
  fingerprint := "f1"

def samplePlatform : Platform := ⟨"Online", none, rfl⟩

def sampleStore : Store where
  platforms := fun key => if key = "presto-us" then some samplePlatform else none
  events := []
  investigations := []
  audits := []

end Sample

end DbAgent.Ingest
