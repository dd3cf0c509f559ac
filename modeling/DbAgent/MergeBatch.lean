import DbAgent.NestedTransaction
import DbAgent.IngestStatements

/-! `_execute_merge_batch`: one outer transaction, one savepoint for each
candidate, and one commit that decides for all of them. -/
namespace DbAgent.Ingest

open Nested

/-- An exception: one the driver, the connection or the interpreter raises, or
an error of the statement itself. -/
inductive Failure where
  | fault (n : ℕ)
  | statement (e : StatementError)
  deriving DecidableEq, Repr

/-- `MergeHit`, `MergeMiss` or the exception of one candidate. -/
inductive Outcome where
  | hit (investigationId : Uuid)
  | miss
  | failed (e : Failure)
  deriving DecidableEq, Repr

/-- How `savepoint.rollback()` ends, and whether `session.is_active` holds
after it. -/
inductive Recovery where
  | recovered
  | raised (e : Failure)
  | lost
  deriving DecidableEq, Repr

/-- What happens around the statement of one candidate: the rows that are
committed when it runs, the clock, and which calls fail. -/
structure Attempt where
  snapshot : Store
  tie : ℕ
  now : Instant
  beginFails : Option Failure
  statementFails : Option Failure
  recovery : Recovery
  releaseFails : Option Failure

structure Conditions where
  attempt : ℕ → Attempt
  commitFails : Option Failure
  rollbackFails : Option Failure

abbrev Tagged := ℕ × Writes

def eventsOf (k : ℕ) (rows : List Tagged) : List EventRow :=
  (rows.filter (fun x => x.1 = k)).flatMap (fun x => x.2.events)

def auditsOf (k : ℕ) (rows : List Tagged) : List AuditRow :=
  (rows.filter (fun x => x.1 = k)).flatMap (fun x => x.2.audits)

def overlayAll (st : Store) (rows : List Tagged) : Store :=
  rows.foldl (fun st x => st.overlay x.2) st

/-- `merge_existing_event_with_audit` inside the group. A statement that fails
has no effect of its own. -/
def runStatement (window : ℤ) (own : List Tagged) (a : Attempt) (event : AlertEvent) :
    Except Failure StatementResult :=
  match a.statementFails with
  | some e => .error e
  | none =>
    match mergeExistingEventWithAudit (overlayAll a.snapshot own) a.tie event window a.now with
    | .error e => .error (.statement e)
    | .ok res => .ok res

/-- `MergeHit(existing_id) if existing_id is not None else MergeMiss()`. -/
def outcomeOf : Except Failure StatementResult → Outcome
  | .error e => .failed e
  | .ok res => res.value.elim .miss .hit

/-- The loop variables. `outcomes` has the entries that were assigned; the
others are still `None`. -/
structure BatchState where
  txn : Txn Tagged
  outcomes : List Outcome
  fatal : Option Failure

def recoverSavepoint (r : Recovery) (e : Failure) : Option Failure :=
  match r with
  | .raised e' => some e'
  | .lost => some e
  | .recovered => none

/-- The body of the loop; an error is an exception that leaves the method. -/
def executeCandidate (window : ℤ) (a : Attempt) (k : ℕ) (event : AlertEvent) (s : BatchState) :
    Except Failure BatchState :=
  match a.beginFails with
  | some e => .error e
  | none =>
    let txn := s.txn.beginNested
    match runStatement window txn.rows a event with
    | .error e =>
      .ok { txn := if a.recovery = .recovered then txn.rollbackNested else txn
            outcomes := s.outcomes ++ [.failed e]
            fatal := recoverSavepoint a.recovery e }
    | .ok res =>
      match a.releaseFails with
      | some e => .error e
      | none =>
        .ok { s with
          txn := (txn.write [(k, res.writes)]).release
          outcomes := s.outcomes ++ [outcomeOf (.ok res)] }

def executeCandidates (window : ℤ) (c : Conditions) :
    ℕ → List AlertEvent → BatchState → Except Failure BatchState
  | _, [], s => .ok s
  | k, event :: rest, s =>
    if s.fatal.isSome then .ok s
    else match executeCandidate window (c.attempt k) k event s with
      | .error e => .error e
      | .ok s' => executeCandidates window c (k+1) rest s'

def Outcome.isHit : Outcome → Bool
  | .hit _ => true
  | _ => false

/-- `_finish_merge_batch`: the fatal failure, and the rows that are durable. -/
def finishMergeBatch (c : Conditions) (s : BatchState) :
    Except Failure (Option Failure × List Tagged) :=
  match s.fatal with
  | some e => .ok (some e, [])
  | none =>
    if s.outcomes.any Outcome.isHit then
      match c.commitFails with
      | some e => .ok (some e, [])
      | none => .ok (none, s.txn.rows)
    else
      match c.rollbackFails with
      | some e => .error e
      | none => .ok (none, [])

def underFatal (e : Failure) : Option Outcome → Outcome
  | some (.failed e') => .failed e'
  | _ => .failed e

structure BatchResult where
  answer : Except Failure (List (Option Outcome))
  durable : List Tagged

/-- `_execute_merge_batch`. An exception that leaves the `with` block rolls the
outer transaction back. -/
def executeMergeBatch (window : ℤ) (c : Conditions) (events : List AlertEvent) : BatchResult :=
  match executeCandidates window c 0 events ⟨.start, [], none⟩ with
  | .error e => ⟨.error e, []⟩
  | .ok s =>
    -- the entries behind a break keep their initial `None`
    let outcomes := s.outcomes.map some ++
      List.replicate (events.length-s.outcomes.length) none
    match finishMergeBatch c s with
    | .error e => ⟨.error e, []⟩
    | .ok (none, rows) => ⟨.ok outcomes, rows⟩
    | .ok (some e, rows) => ⟨.ok (outcomes.map (fun o => some (underFatal e o))), rows⟩

end DbAgent.Ingest
