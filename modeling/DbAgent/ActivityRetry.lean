import DbAgent.Records
import DbAgent.PlaybookMaturity

/-! The transactions of `record_iteration`, `create_approval` and `verify_fix`,
and what a second attempt does to the tables after a first one has committed. -/
namespace DbAgent.ActivityRetry

open PlaybookMaturity (Maturity ExecutionStatus approvedRuns success verifyMaturity)

/-- `investigations.spent`; floats are rationals. -/
structure Spent where
  rounds : Option ℤ
  costUsd : Option ℚ
  deriving DecidableEq

/-- A row of `investigations`, as far as these activities use it. -/
structure Investigation where
  platformKey : String
  status : Status
  spent : Spent
  deriving DecidableEq

/-- A row of `iterations`, without its primary key. -/
structure Iteration where
  plan : Value
  rcaOutput : Option Value
  costUsd : Option ℚ
  durationMs : Option ℤ
  startedAt : Instant
  finishedAt : Instant

/-- A row of `approvals`, without its primary key; it is undecided. -/
structure Approval where
  investigationId : Uuid
  kind : ApprovalKind
  subject : Subject
  createdAt : Instant

/-- A row of `remediation_executions`, without its primary key. -/
structure RemediationExecution where
  playbookId : Option String
  status : ExecutionStatus
  finishedAt : Option Instant
  deriving DecidableEq

/-- The tables by primary key; of the rows of a case, the one that
`_latest_investigation` selects. -/
structure Db where
  investigations : Uuid → Option Investigation
  iterations : Uuid × ℤ → Option Iteration
  approvals : Uuid → Option Approval
  executions : Uuid → Option RemediationExecution
  playbooks : String → Option (Option Maturity)

def Db.putInvestigation (db : Db) (id : Uuid) (inv : Investigation) : Db :=
  { db with investigations := Function.update db.investigations id (some inv) }

def Db.putIteration (db : Db) (key : Uuid × ℤ) (row : Iteration) : Db :=
  { db with iterations := Function.update db.iterations key (some row) }

def Db.putApproval (db : Db) (id : Uuid) (row : Approval) : Db :=
  { db with approvals := Function.update db.approvals id (some row) }

def Db.putExecution (db : Db) (id : Uuid) (row : RemediationExecution) : Db :=
  { db with executions := Function.update db.executions id (some row) }

def Db.putMaturity (db : Db) (id : String) (mat : Maturity) : Db :=
  { db with playbooks := Function.update db.playbooks id (some (some mat)) }

inductive Error where
  | integrityError | keyError | probeError
  deriving DecidableEq, Repr

/-- What differs between two attempts with the same input: the clock, the id of
`uuid.uuid4()`, and the answer of `run_verification`, which may raise. -/
structure Attempt where
  now : Instant
  uuid : Uuid
  verification : Option Bool

structure RecordIteration where
  investigationId : Uuid
  round : ℤ
  plan : Value
  report : Option Value
  costUsd : Option ℚ
  durationMs : Option ℤ

/-- The spending that `record_iteration` writes back. -/
def Spent.bump (s : Spent) (costUsd : Option ℚ) : Spent where
  rounds := some (s.rounds.getD 0+1)
  costUsd := match costUsd with
    | some c => some (s.costUsd.getD 0+c)
    | none => s.costUsd

/-- `record_iteration`: the INSERT is flushed before the case is selected. -/
def recordIteration (p : RecordIteration) (t : Attempt) (db : Db) : Except Error Db :=
  match db.iterations (p.investigationId, p.round) with
  | some _ => .error .integrityError
  | none =>
    let db := db.putIteration (p.investigationId, p.round)
      ⟨p.plan, p.report, p.costUsd, p.durationMs, t.now, t.now⟩
    match db.investigations p.investigationId with
    | none => .ok db
    | some inv => .ok (db.putInvestigation p.investigationId
        { inv with spent := inv.spent.bump p.costUsd, status := .investigating })

def updateInvestigationStatus (db : Db) (id : Uuid) (status : Status) : Except Error Db :=
  match db.investigations id with
  | none => .error .keyError
  | some inv => .ok (db.putInvestigation id { inv with status := status })

structure CreateApproval where
  investigationId : Uuid
  kind : ApprovalKind
  subject : Subject

/-- `create_approval`: every attempt takes a new id. -/
def createApproval (p : CreateApproval) (t : Attempt) (db : Db) : Except Error Db :=
  match db.approvals t.uuid with
  | some _ => .error .integrityError
  | none =>
    let db := db.putApproval t.uuid ⟨p.investigationId, p.kind, p.subject, t.now⟩
    updateInvestigationStatus db p.investigationId .awaitingApproval

/-- The payload of `verify_fix`; an id that is absent or not a UUID is `none`. -/
structure VerifyFix where
  investigationId : Uuid
  executionId : Option Uuid
  playbookId : Option String
  platformKey : Option String
  forceFail : Bool

open VerifyFix

def truthy (s : Option String) : Bool :=
  match s with
  | some t => t ≠ ""
  | none => false

def VerifyFix.platform (p : VerifyFix) (db : Db) : Option String :=
  if truthy p.platformKey then p.platformKey
  else (db.investigations p.investigationId).map (fun inv => inv.platformKey)

/-- All that `run_verification` needs is there. -/
def VerifyFix.wired (p : VerifyFix) (probe : Bool) (db : Db) : Bool :=
  truthy (p.platform db) && probe && truthy p.playbookId

/-- The value of `ok` in `verify_fix`; missing wiring fails closed. -/
def VerifyFix.ok (p : VerifyFix) (probe : Bool) (t : Attempt) (db : Db) : Except Error Bool :=
  if p.forceFail then .ok false
  else if p.wired probe db then
    match t.verification with
    | some ok => .ok ok
    | none => .error .probeError
  else .ok false

def Db.countSuccess (db : Db) (playbookId : Option String) : Db :=
  match playbookId with
  | none => db
  | some id =>
    if id = "" then db
    else match db.playbooks id with
      | none => db
      | some m => db.putMaturity id (verifyMaturity m)

/-- The part of the transaction of `verify_fix` about the execution. -/
def VerifyFix.settle (p : VerifyFix) (now : Instant) (ok : Bool) (db : Db) : Db :=
  match p.executionId with
  | none => db
  | some eid =>
    match db.executions eid with
    | none => db
    | some row =>
      let db := db.putExecution eid
        { row with status := if ok then .succeeded else .failed, finishedAt := some now }
      if ok then db.countSuccess row.playbookId else db

def verifyFix (probe : Bool) (p : VerifyFix) (t : Attempt) (db : Db) : Except Error Db :=
  match p.ok probe t db with
  | .error e => .error e
  | .ok true => updateInvestigationStatus (p.settle t.now true db) p.investigationId .verifying
  | .ok false => .ok (p.settle t.now false db)

inductive Activity where
  | recordIteration (p : RecordIteration)
  | createApproval (p : CreateApproval)
  | verifyFix (p : VerifyFix)

/-- One attempt of an activity by a worker with or without a probe client: what
it commits, or what it raises. -/
def Activity.attempt (probe : Bool) : Activity → Attempt → Db → Except Error Db
  | .recordIteration p => ActivityRetry.recordIteration p
  | .createApproval p => ActivityRetry.createApproval p
  | .verifyFix p => ActivityRetry.verifyFix probe p

def Activity.Works (a : Activity) (t : Attempt) (db : Db) : Prop :=
  match a with
  | .recordIteration _ => True
  | .createApproval _ => db.approvals t.uuid = none
  | .verifyFix _ => t.verification.isSome

def counters (m : Option Maturity) : ℤ × ℤ × ℤ :=
  (approvedRuns m, success m, (m.bind (fun mat => mat.rollbacks)).getD 0)

structure Same (db db' : Db) : Prop where
  iterations : db.iterations = db'.iterations
  rounds : ∀ id, (db.investigations id).map (fun inv => inv.spent.rounds.getD 0) =
    (db'.investigations id).map (fun inv => inv.spent.rounds.getD 0)
  approvals : db.approvals = db'.approvals
  maturity : ∀ id, (db.playbooks id).map counters = (db'.playbooks id).map counters

/-- A second attempt with the same input succeeds and leaves what one attempt
leaves: the one that has committed, or this one alone. -/
def Idempotent (probe : Bool) (a : Activity) (db : Db) : Prop :=
  ∀ t t' db₁, a.attempt probe t db = .ok db₁ → a.Works t' db₁ →
    ∃ db₂, a.attempt probe t' db₁ = .ok db₂ ∧
      (Same db₂ db₁ ∨ ∃ db', a.attempt probe t' db = .ok db' ∧ Same db₂ db')

def Db.countable (db : Db) (playbookId : Option String) : Option String :=
  playbookId.filter (fun id => id ≠ "" ∧ (db.playbooks id).isSome)

/-- The playbook whose successes a `verify_fix` counts. -/
def VerifyFix.counted (p : VerifyFix) (db : Db) : Option String :=
  (p.executionId.bind db.executions).bind (fun row => db.countable row.playbookId)

/-- The states in which an activity may be retried: a `record_iteration` whose
round is there already, a `create_approval` for a case that is not there (or for
which no two ids are left), a `verify_fix` that cannot hold or is counted
nowhere. -/
def Activity.Retriable (probe : Bool) (a : Activity) (db : Db) : Prop :=
  match a with
  | .recordIteration p => (db.iterations (p.investigationId, p.round)).isSome
  | .createApproval p => db.investigations p.investigationId = none ∨
      ∀ u v, db.approvals u = none → db.approvals v = none → u = v
  | .verifyFix p => p.forceFail = true ∨ p.wired probe db = false ∨
      ((db.investigations p.investigationId).isSome ∧ p.counted db = none)

theorem updateInvestigationStatus_ok {db db' : Db} {id : Uuid} {status : Status}
    (h : updateInvestigationStatus db id status = .ok db') :
    ∃ inv, db.investigations id = some inv ∧
      db' = db.putInvestigation id { inv with status := status } := by
  grind [updateInvestigationStatus]

theorem updateInvestigationStatus_of_some {db : Db} {id : Uuid} {inv : Investigation}
    (status : Status) (h : db.investigations id = some inv) :
    updateInvestigationStatus db id status =
      .ok (db.putInvestigation id { inv with status := status }) := by
  unfold updateInvestigationStatus
  rw [h]

variable {db₁ : Db}

section RecordIteration

variable (probe : Bool) (p : RecordIteration) (db : Db)

theorem recordIteration_ok {t : Attempt} (h : recordIteration p t db = .ok db₁) :
    db.iterations (p.investigationId, p.round) = none ∧
      (db₁.iterations (p.investigationId, p.round)).isSome := by
  unfold recordIteration at h
  split at h
  · cases h
  · rename_i hnone
    refine ⟨hnone, ?_⟩
    dsimp only at h
    split at h
    · cases h
      simp [Db.putIteration]
    · cases h
      simp [Db.putIteration, Db.putInvestigation]

theorem recordIteration_commits {t : Attempt}
    (h : db.iterations (p.investigationId, p.round) = none) :
    ∃ db₁, recordIteration p t db = .ok db₁ := by
  unfold recordIteration
  rw [h]
  dsimp only
  split
  · exact ⟨_, rfl⟩
  · exact ⟨_, rfl⟩

theorem recordIteration_idempotent_iff :
    Idempotent probe (.recordIteration p) db ↔
      (Activity.recordIteration p).Retriable probe db := by
  constructor
  · intro h
    by_contra hnone
    have hfree : db.iterations (p.investigationId, p.round) = none := by
      simpa [Activity.Retriable] using hnone
    let t : Attempt := ⟨0, 0, none⟩
    obtain ⟨db₁, hdb₁⟩ := recordIteration_commits p db (t := t) hfree
    obtain ⟨db₂, hdb₂, -⟩ := h t t db₁ hdb₁ trivial
    have htaken := (recordIteration_ok p db hdb₁).2
    have hagain := (recordIteration_ok p db₁ hdb₂).1
    rw [hagain] at htaken
    cases htaken
  · intro h t t' db₁ hdb₁ _
    have hfree := (recordIteration_ok p db hdb₁).1
    simp only [Activity.Retriable, hfree, Option.isSome_none, Bool.false_eq_true] at h

end RecordIteration

section CreateApproval

variable (probe : Bool) (p : CreateApproval) (db : Db)

theorem createApproval_ok {t : Attempt} (h : createApproval p t db = .ok db₁) :
    (db.investigations p.investigationId).isSome ∧ db.approvals t.uuid = none ∧
      (db₁.investigations p.investigationId).isSome ∧
      db₁.approvals = Function.update db.approvals t.uuid
        (some ⟨p.investigationId, p.kind, p.subject, t.now⟩) := by
  unfold createApproval at h
  split at h
  · cases h
  · rename_i hnone
    obtain ⟨inv, hinv, rfl⟩ := updateInvestigationStatus_ok h
    refine ⟨?_, hnone, ?_, rfl⟩
    · exact Option.isSome_iff_exists.mpr ⟨inv, hinv⟩
    · simp [Db.putInvestigation]

theorem createApproval_commits {t : Attempt} {inv : Investigation}
    (hinv : db.investigations p.investigationId = some inv) (h : db.approvals t.uuid = none) :
    ∃ db₁, createApproval p t db = .ok db₁ := by
  unfold createApproval
  rw [h]
  exact ⟨_, updateInvestigationStatus_of_some .awaitingApproval hinv⟩

theorem createApproval_twice {t t' : Attempt} {db₂ : Db} (h : createApproval p t db = .ok db₁)
    (h' : createApproval p t' db₁ = .ok db₂) :
    (db₂.approvals t.uuid).isSome ∧ (db₂.approvals t'.uuid).isSome ∧
      db₁.approvals t'.uuid = none ∧ t.uuid ≠ t'.uuid := by
  obtain ⟨-, -, -, hrows⟩ := createApproval_ok p db h
  obtain ⟨-, hfree, -, hrows'⟩ := createApproval_ok p db₁ h'
  have hne : t.uuid ≠ t'.uuid := by
    intro he
    rw [hrows, ← he, Function.update_self] at hfree
    cases hfree
  simp_all

theorem createApproval_idempotent_iff :
    Idempotent probe (.createApproval p) db ↔
      (Activity.createApproval p).Retriable probe db := by
  constructor
  · intro h
    by_contra hnot
    simp only [Activity.Retriable, not_or, not_forall] at hnot
    obtain ⟨hcase, u, v, hu, hv, hne⟩ := hnot
    obtain ⟨inv, hinv⟩ := Option.ne_none_iff_exists'.mp hcase
    let t : Attempt := ⟨0, u, none⟩
    let t' : Attempt := ⟨0, v, none⟩
    obtain ⟨db₁, hdb₁⟩ := createApproval_commits p db (t := t) hinv hu
    obtain ⟨-, -, -, hrows⟩ := createApproval_ok p db hdb₁
    have hworks : db₁.approvals v = none := by
      rw [hrows, Function.update_of_ne (Ne.symm hne)]
      exact hv
    obtain ⟨db₂, hdb₂, hsame⟩ := h t t' db₁ hdb₁ hworks
    obtain ⟨hfirst, hsecond, -, -⟩ := createApproval_twice p db hdb₁ hdb₂
    rcases hsame with hsame | ⟨db', hdb', hsame⟩
    · rw [hsame.approvals] at hsecond
      grind
    · -- the second attempt alone leaves no row under the id of the first
      obtain ⟨-, -, -, hrows'⟩ := createApproval_ok p db hdb'
      rw [hsame.approvals, hrows', Function.update_of_ne hne] at hfirst
      grind
  · intro h t t' db₁ hdb₁ hworks
    obtain ⟨hcase, hfree, -, hrows⟩ := createApproval_ok p db hdb₁
    exfalso
    rcases h with hnone | hids
    · rw [hnone] at hcase
      cases hcase
    · -- the second id would have to be the first one
      change db₁.approvals t'.uuid = none at hworks
      have hne : t'.uuid ≠ t.uuid := by
        intro he
        rw [hrows, he, Function.update_self] at hworks
        cases hworks
      rw [hrows, Function.update_of_ne hne] at hworks
      exact hne (hids t'.uuid t.uuid hworks hfree)

end CreateApproval

section VerifyFix

variable (probe : Bool) (p : VerifyFix)

/-- What a committed `verify_fix` with the outcome `ok` has done. -/
structure Verified (ok : Bool) (db db₁ : Db) : Prop where
  iterations : db₁.iterations = db.iterations
  approvals : db₁.approvals = db.approvals
  investigations : ∀ id, (db₁.investigations id).map (fun inv => (inv.platformKey, inv.spent)) =
    (db.investigations id).map (fun inv => (inv.platformKey, inv.spent))
  counted : p.counted db₁ = p.counted db
  uncounted : (ok = true → p.counted db = none) → db₁.playbooks = db.playbooks
  bumped : ∀ id, ok = true → p.counted db = some id →
    ∃ m, db.playbooks id = some m ∧ db₁.playbooks id = some (some (verifyMaturity m))

variable {db : Db}

theorem countSuccess_of_countable_none {playbookId : Option String}
    (h : db.countable playbookId = none) : db.countSuccess playbookId = db := by
  unfold Db.countSuccess
  grind [Db.countable, Option.filter]

variable {id : String}

theorem countSuccess_of_countable_some {playbookId : Option String}
    (h : db.countable playbookId = some id) :
    ∃ m, db.playbooks id = some m ∧
      db.countSuccess playbookId = db.putMaturity id (verifyMaturity m) := by
  obtain ⟨rfl, hid⟩ := Option.filter_eq_some_iff.mp h
  simp only [ne_eq, decide_eq_true_eq] at hid
  obtain ⟨m, hm⟩ := Option.isSome_iff_exists.mp hid.2
  refine ⟨m, hm, ?_⟩
  unfold Db.countSuccess
  dsimp only
  rw [if_neg hid.1, hm]

theorem verified_uncounted {db : Db} (ok : Bool) (hi : db₁.iterations = db.iterations)
    (ha : db₁.approvals = db.approvals) (hinv : db₁.investigations = db.investigations)
    (hpb : db₁.playbooks = db.playbooks) (hc : p.counted db₁ = p.counted db)
    (hnone : ok = true → p.counted db = none) : Verified p ok db db₁ where
  iterations := hi
  approvals := ha
  investigations id := by rw [hinv]
  counted := hc
  uncounted _ := hpb
  bumped id hok h := by
    rw [hnone hok] at h
    cases h

theorem counted_putExecution {eid : Uuid} {row : RemediationExecution}
    (heid : p.executionId = some eid) (hrow : db.executions eid = some row)
    (status : ExecutionStatus) (at' : Option Instant) :
    p.counted db = db.countable row.playbookId ∧
      p.counted (db.putExecution eid ⟨row.playbookId, status, at'⟩) = p.counted db := by
  have hcounted : p.counted db = db.countable row.playbookId := by
    simp [counted, heid, hrow]
  refine ⟨hcounted, ?_⟩
  rw [hcounted]
  simp only [counted, heid, Option.bind_some, Db.putExecution, Function.update_self]
  rfl

theorem verified_countSuccess {eid : Uuid} {row : RemediationExecution}
    (heid : p.executionId = some eid) (hrow : db.executions eid = some row) (now : Instant) :
    Verified p true db
      ((db.putExecution eid ⟨row.playbookId, .succeeded, some now⟩).countSuccess
        row.playbookId) := by
  obtain ⟨hcounted, hput⟩ := counted_putExecution p heid hrow .succeeded (some now)
  have hcountable : (db.putExecution eid ⟨row.playbookId, .succeeded, some now⟩).countable
      row.playbookId = db.countable row.playbookId := rfl
  cases hc : db.countable row.playbookId with
  | none =>
    rw [countSuccess_of_countable_none (hcountable.trans hc)]
    exact verified_uncounted p true rfl rfl rfl rfl hput (fun _ => hcounted.trans hc)
  | some id =>
    obtain ⟨m, hm, heq⟩ := countSuccess_of_countable_some (hcountable.trans hc)
    rw [heq]
    refine ⟨rfl, rfl, fun _ => rfl, ?_, ?_, ?_⟩
    · rw [hcounted, hc]
      obtain ⟨hpb, hid⟩ := Option.filter_eq_some_iff.mp hc
      have hne : id ≠ "" := by
        simp only [decide_eq_true_eq] at hid
        exact hid.1
      simp [counted, heid, Db.putMaturity, Db.putExecution, Db.countable, hpb, hne]
    · grind
    · intro id' _ hid'
      obtain rfl := Option.some.inj (hc.symm.trans (hcounted.symm.trans hid'))
      exact ⟨m, hm, Function.update_self _ _ _⟩

theorem verified_settle (now : Instant) (ok : Bool) (db : Db) :
    Verified p ok db (p.settle now ok db) := by
  unfold settle
  cases heid : p.executionId with
  | none => grind [counted, verified_uncounted]
  | some eid =>
    cases hrow : db.executions eid with
    | none => grind [counted, verified_uncounted]
    | some row =>
      simp only [hrow]
      cases ok with
      | false =>
        exact verified_uncounted p false rfl rfl rfl rfl
          (counted_putExecution p heid hrow _ _).2 nofun
      | true =>
        simp only [if_true]
        exact verified_countSuccess p heid hrow now

theorem ok_congr {db : Db} (t : Attempt)
    (h : ∀ id, (db₁.investigations id).map (fun inv => (inv.platformKey, inv.spent)) =
      (db.investigations id).map (fun inv => (inv.platformKey, inv.spent))) :
    p.ok probe t db₁ = p.ok probe t db := by
  have hplatform : p.platform db₁ = p.platform db := by
    have hid := congrArg (Option.map Prod.fst) (h p.investigationId)
    simp only [Option.map_map] at hid
    unfold platform
    split_ifs
    · rfl
    · exact hid
  unfold ok wired
  rw [hplatform]

variable {t : Attempt}

theorem verifyFix_ok {db : Db} (h : verifyFix probe p t db = .ok db₁) :
    ∃ ok, p.ok probe t db = .ok ok ∧ Verified p ok db db₁ := by
  unfold verifyFix at h
  split at h
  · cases h
  · rename_i hok
    obtain ⟨inv, hinv, rfl⟩ := updateInvestigationStatus_ok h
    have hs := verified_settle p t.now true db
    refine ⟨true, hok, hs.iterations, hs.approvals, ?_, hs.counted, hs.uncounted, hs.bumped⟩
    intro id
    rw [← hs.investigations id]
    by_cases he : id = p.investigationId
    · subst he
      simp [Db.putInvestigation, hinv]
    · simp [Db.putInvestigation, Function.update_of_ne he]
  · rename_i hok
    cases h
    exact ⟨false, hok, verified_settle p t.now false db⟩

theorem verifyFix_commits {ok : Bool} (hok : p.ok probe t db = .ok ok)
    (hcase : ok = true → (db.investigations p.investigationId).isSome) :
    ∃ db₁, verifyFix probe p t db = .ok db₁ := by
  unfold verifyFix
  rw [hok]
  cases ok with
  | false => exact ⟨_, rfl⟩
  | true =>
    have hs := (verified_settle p t.now true db).investigations p.investigationId
    obtain ⟨inv, hinv⟩ := Option.isSome_iff_exists.mp (hcase rfl)
    rw [hinv, Option.map_some] at hs
    obtain ⟨inv', hinv', -⟩ := Option.map_eq_some_iff.mp hs
    exact ⟨_, updateInvestigationStatus_of_some .verifying hinv'⟩

theorem same_of_verified {ok : Bool} {db : Db} (h : Verified p ok db db₁)
    (hn : ok = true → p.counted db = none) : Same db₁ db where
  iterations := h.iterations
  rounds id := by
    have hid := congrArg (Option.map (fun x : String × Spent => x.2.rounds.getD 0))
      (h.investigations id)
    simpa only [Option.map_map, Function.comp_def] using hid
  approvals := h.approvals
  maturity id := by rw [h.uncounted hn]

theorem not_same_of_counted_twice {db db₂ db' : Db} (h₁ : Verified p true db db₁)
    (h₂ : Verified p true db₁ db₂) (h' : Verified p true db db') (hid : p.counted db = some id) :
    ¬ Same db₂ db₁ ∧ ¬ Same db₂ db' := by
  obtain ⟨m, hm, hm₁⟩ := h₁.bumped id rfl hid
  obtain ⟨m', hm', hm₂⟩ := h₂.bumped id rfl (h₁.counted.trans hid)
  obtain ⟨m'', hm'', hm₃⟩ := h'.bumped id rfl hid
  obtain rfl : m = m'' := Option.some.inj (hm.symm.trans hm'')
  obtain rfl : some (verifyMaturity m) = m' := Option.some.inj (hm₁.symm.trans hm')
  have hcount (m : Option Maturity) : success (some (verifyMaturity m)) = success m+1 :=
    PlaybookMaturity.success_maturity .verify m
  have htwice (db₃ : Db) (h₃ : db₃.playbooks id = some (some (verifyMaturity m))) :
      ¬ Same db₂ db₃ := by
    intro hsame
    have hmat := hsame.maturity id
    rw [hm₂, h₃, Option.map_some, Option.map_some, Option.some.injEq] at hmat
    have hsucc : success (some (verifyMaturity (some (verifyMaturity m)))) =
        success (some (verifyMaturity m)) := congrArg (fun c => c.2.1) hmat
    rw [hcount, hcount] at hsucc
    omega
  grind

theorem not_idempotent_of_counted (hok : p.ok probe ⟨0, 0, some true⟩ db = .ok true)
    (hcase : (db.investigations p.investigationId).isSome) (hid : p.counted db = some id) :
    ¬ Idempotent probe (.verifyFix p) db := by
  intro h
  have hverified (db db₁ : Db) (hok : p.ok probe ⟨0, 0, some true⟩ db = .ok true)
      (h : verifyFix probe p ⟨0, 0, some true⟩ db = .ok db₁) : Verified p true db db₁ := by
    obtain ⟨ok, hok', hv⟩ := verifyFix_ok probe p h
    obtain rfl : true = ok := Except.ok.inj (hok.symm.trans hok')
    exact hv
  obtain ⟨db₁, hdb₁⟩ := verifyFix_commits probe p hok (fun _ => hcase)
  obtain ⟨db₂, hdb₂, hsame⟩ := h ⟨0, 0, some true⟩ ⟨0, 0, some true⟩ db₁ hdb₁ rfl
  have hv₁ := hverified db db₁ hok hdb₁
  have hv₂ := hverified db₁ db₂ ((ok_congr probe p _ hv₁.investigations).trans hok) hdb₂
  rcases hsame with hsame | ⟨db', hdb', hsame⟩
  · exact (not_same_of_counted_twice p hv₁ hv₂ hv₁ hid).1 hsame
  · exact (not_same_of_counted_twice p hv₁ hv₂ (hverified db db' hok hdb') hid).2 hsame

theorem not_idempotent_of_missing (hok : ∀ b, p.ok probe ⟨0, 0, some b⟩ db = .ok b)
    (hcase : db.investigations p.investigationId = none) :
    ¬ Idempotent probe (.verifyFix p) db := by
  intro h
  obtain ⟨db₁, hdb₁⟩ := verifyFix_commits probe p (hok false) nofun
  obtain ⟨db₂, hdb₂, -⟩ := h ⟨0, 0, some false⟩ ⟨0, 0, some true⟩ db₁ hdb₁ rfl
  obtain ⟨ok₁, -, hv₁⟩ := verifyFix_ok probe p hdb₁
  have hok₁ : p.ok probe ⟨0, 0, some true⟩ db₁ = .ok true :=
    (ok_congr probe p _ hv₁.investigations).trans (hok true)
  change verifyFix probe p ⟨0, 0, some true⟩ db₁ = .ok db₂ at hdb₂
  unfold verifyFix at hdb₂
  rw [hok₁] at hdb₂
  obtain ⟨inv, hinv, -⟩ := updateInvestigationStatus_ok hdb₂
  have hsettled := (verified_settle p 0 true db₁).investigations p.investigationId
  rw [hv₁.investigations, hinv, hcase] at hsettled
  cases hsettled

theorem outcome_of_retriable {b : Bool} (hb : t.verification = some b)
    (h : (Activity.verifyFix p).Retriable probe db) :
    ∃ ok, p.ok probe t db = .ok ok ∧
      (ok = true → (db.investigations p.investigationId).isSome ∧ p.counted db = none) := by
  unfold ok
  rcases h with hforce | hwired | ⟨hcase, hnone⟩
  · simp_all
  · simp_all
  · rw [hb]
    split_ifs
    · exact ⟨false, rfl, nofun⟩
    · grind
    · exact ⟨false, rfl, nofun⟩

theorem verifyFix_idempotent_iff (db : Db) :
    Idempotent probe (.verifyFix p) db ↔ (Activity.verifyFix p).Retriable probe db := by
  constructor
  · intro h
    by_contra hnot
    simp only [Activity.Retriable, not_or, not_and, Bool.not_eq_true, Bool.not_eq_false] at hnot
    obtain ⟨hforce, hwired, hcounted⟩ := hnot
    have hok (b : Bool) : p.ok probe ⟨0, 0, some b⟩ db = .ok b := by
      simp [ok, hforce, hwired]
    by_cases hcase : (db.investigations p.investigationId).isSome
    · obtain ⟨id, hid⟩ := Option.ne_none_iff_exists'.mp (hcounted hcase)
      exact not_idempotent_of_counted probe p (hok true) hcase hid h
    · rw [Bool.not_eq_true, Option.isSome_eq_false_iff, Option.isNone_iff_eq_none] at hcase
      exact not_idempotent_of_missing probe p hok hcase h
  · intro h t t' db₁ hdb₁ hworks
    obtain ⟨ok, hok, hv⟩ := verifyFix_ok probe p hdb₁
    obtain ⟨b, hb⟩ := Option.isSome_iff_exists.mp hworks
    obtain ⟨ok', hok', hnone⟩ := outcome_of_retriable probe p hb h
    rw [← ok_congr probe p t' hv.investigations] at hok'
    have hcase₁ (h : ok' = true) : (db₁.investigations p.investigationId).isSome := by
      have hid := congrArg Option.isSome (hv.investigations p.investigationId)
      rw [Option.isSome_map, Option.isSome_map] at hid
      exact hid.trans (hnone h).1
    obtain ⟨db₂, hdb₂⟩ := verifyFix_commits probe p hok' hcase₁
    obtain ⟨ok'', hok'', hv'⟩ := verifyFix_ok probe p hdb₂
    obtain rfl : ok' = ok'' := Except.ok.inj (hok'.symm.trans hok'')
    refine ⟨db₂, hdb₂, .inl (same_of_verified p hv' ?_)⟩
    intro h
    rw [hv.counted]
    exact (hnone h).2

end VerifyFix

/-- A retry of one of the three activities is harmless in exactly the states in
which the activity leaves nothing behind that a second attempt would leave
again. -/
theorem retry_idempotent_iff (probe : Bool) (a : Activity) (db : Db) :
    Idempotent probe a db ↔ a.Retriable probe db := by
  cases a with
  | recordIteration p => exact recordIteration_idempotent_iff probe p db
  | createApproval p => exact createApproval_idempotent_iff probe p db
  | verifyFix p => exact verifyFix_idempotent_iff probe p db

section Sample

def sampleDb : Db where
  investigations id := if id = 1 then some ⟨"pg", .executing, ⟨some 1, some 0⟩⟩ else none
  iterations _ := none
  approvals _ := none
  executions id := if id = 7 then some ⟨some "pg.restart", .running, none⟩ else none
  playbooks id := if id = "pg.restart" then some (some ⟨some 1, some 0, some 0⟩) else none

/-- The second attempt at the first round raises, a second approval appears, and
one run of a playbook succeeds twice. -/
theorem retry_not_idempotent :
    (∃ db₁, recordIteration ⟨1, 1, .null, none, none, none⟩ ⟨0, 0, none⟩ sampleDb = .ok db₁ ∧
      recordIteration ⟨1, 1, .null, none, none, none⟩ ⟨1, 0, none⟩ db₁ =
        .error .integrityError) ∧
    (∃ db₁ db₂, createApproval ⟨1, .rawCommand, .request ⟨"ls", "", ""⟩⟩ ⟨0, 2, none⟩ sampleDb =
        .ok db₁ ∧
      createApproval ⟨1, .rawCommand, .request ⟨"ls", "", ""⟩⟩ ⟨1, 3, none⟩ db₁ = .ok db₂ ∧
      (db₂.approvals 2).isSome ∧ (db₂.approvals 3).isSome) ∧
    ∃ db₁ db₂, verifyFix true ⟨1, some 7, some "pg.restart", some "pg", false⟩ ⟨0, 0, some true⟩
        sampleDb = .ok db₁ ∧
      verifyFix true ⟨1, some 7, some "pg.restart", some "pg", false⟩ ⟨1, 0, some true⟩ db₁ =
        .ok db₂ ∧
      db₂.playbooks "pg.restart" = some (some ⟨some 1, some 2, some 0⟩) :=
  ⟨⟨_, rfl, rfl⟩, ⟨_, _, rfl, rfl, rfl, rfl⟩, ⟨_, _, rfl, rfl, rfl⟩⟩

end Sample

end DbAgent.ActivityRetry
