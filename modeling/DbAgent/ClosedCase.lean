import DbAgent.WorkflowRuns
import DbAgent.PlaybookMaturity

/-! The rows of a case beside its run: what the attempts of the activities commit
to `investigations` and `remediation_executions`, and in which state a run that
has ended leaves them. -/
namespace DbAgent.ClosedCase

open Transition Workflow WorkflowRuns State
open PlaybookMaturity (ExecutionStatus)

structure CaseRow where
  status : Status
  closedAt : Option Instant

/-- `update_investigation_status`. -/
def CaseRow.update (row : CaseRow) (status : Status) (close : Bool) (now : Instant) : CaseRow where
  status := status
  closedAt := if close ∨ status ∈ terminalStatuses then some now else row.closedAt

structure Tables where
  row : CaseRow
  executions : Uuid → Option ExecutionStatus

def Tables.setStatus (db : Tables) (status : Status) (close : Bool) (now : Instant) : Tables :=
  { db with row := db.row.update status close now }

/-- `row.status = …` for an execution that is there. -/
def Tables.finishExecution (db : Tables) (e : Uuid) (status : ExecutionStatus) : Tables :=
  if (db.executions e).isSome then
    { db with executions := Function.update db.executions e (some status) }
  else db

/-- The transactions of an attempt: the first one of `execute_playbook`, which
inserts the row of the execution, and the last one of any activity, whose result
will be `a`. -/
inductive Tx where
  | begin (e : Uuid)
  | finish (a : Reply) (begun : Option Uuid)

/-- What the first transaction of an `execute_playbook` does. -/
def Tables.beginExecution (db : Tables) (e : Uuid) (now : Instant) : Tables where
  row := db.row.update .executing false now
  executions := Function.update db.executions e (some .running)

/-- The end of `execute_playbook`: a playbook that went well is left `running`. -/
def Tables.endExecution (db : Tables) (ok : Bool) (e : Uuid) : Tables :=
  if ok then db else db.finishExecution e .failed

/-- The transaction of `verify_fix`. -/
def Tables.verify (db : Tables) (ok : Bool) (exec : Option Uuid) (now : Instant) : Tables :=
  let db := match exec with
    | some e => db.finishExecution e (if ok then .succeeded else .failed)
    | none => db
  if ok then db.setStatus .verifying false now else db

/-- A transaction of an activity on the rows of the case; `none` if it has no such
transaction. -/
def Tx.apply (now : Instant) (db : Tables) (c : Call) : Tx → Option Tables
  | .begin e =>
    match c with
    | .executePlaybook _ _ _ _ _ => some (db.beginExecution e now)
    | _ => none
  | .finish a begun =>
    match c, a with
    -- the row is there already: it is promoted, and `closed_at` stays as it is
    | .createCase _ _ _, .case _ => some { db with row := { db.row with status := .opened } }
    | .recordIteration _ _ _ _ _, .done =>
      some { db with row := { db.row with status := .investigating } }
    | .createApproval _ _ _, .approval _ => some (db.setStatus .awaitingApproval false now)
    | .executePlaybook _ _ _ _ _, .executed ok exec =>
      match begun with
      | some e => if exec = some e then some (db.endExecution ok e) else none
      | none => none
    | .verifyFix _ _ exec _, .verified ok => some (db.verify ok exec now)
    | .closeWithSummary _ _ _ _, .done => some (db.setStatus .closedSummary true now)
    | .closeResolved _ _, .done => some (db.setStatus .resolved true now)
    | .toNeedsHuman _ _ _, .done => some (db.setStatus .needsHuman true now)
    | .rejectCase _ _, .done => some (db.setStatus .rejected true now)
    | .getSpend _, .spend _ => some db
    | .planInitial _ _ _, .plan _ => some db
    | .planNext _ _ _ _ _ _, .plan _ => some db
    | .collect _ _ _ _ _, .evidence _ => some db
    | .runRawCommand _ _ _ _, .evidence _ => some db
    | .analyze _ _ _ _ _ _ _ _, .report _ => some db
    | .staticValidateRawCommand _ _, .validation _ => some db
    | .planRemediation _ _, .remediation _ => some db
    | .recordApprovalDecision _, .done => some db
    | .sendNotifications _ _, .done => some db
    | _, _ => none

def awaiting : Pc → Bool
  | .waitPaused _ => false
  | .waitDecision _ _ _ => false
  | .settle _ _ _ _ => false
  | .returned _ => false
  | .raised => false
  | .stuck => false
  | _ => true

/-- `maximum_attempts` of the retry policy. -/
def maximumAttempts : Pc → ℕ
  | .executePlaybook _ _ => 1
  | _ => 3

/-- A run with the rows of its case, and the attempts of the activity it awaits:
how many were started, the execution that the last one has inserted, and the
result that it has committed to. -/
structure World where
  run : Run
  db : Tables
  tries : ℕ
  begun : Option Uuid
  done : Option Reply

open World

inductive Event where
  /-- A signal, a wait that ends, a timer or the clock. -/
  | internal (e : WorkflowRuns.Event)
  /-- An attempt of the awaited activity is started. -/
  | start
  | commit (tx : Tx)
  /-- An attempt that was given up commits, while another one is made. -/
  | late (tx : Tx)
  /-- The result of the last attempt is delivered. -/
  | reply
  /-- The last attempt has failed. -/
  | exhausted
  /-- An attempt of an activity that is no longer awaited commits. -/
  | stray (i : ℕ) (tx : Tx)

def World.awaited (w : World) : Option Call :=
  if awaiting w.run.wf.pc then w.run.wf.history.getLast? else none

def World.apply (w : World) (tx : Tx) : Option Tables :=
  w.awaited.bind (fun c => tx.apply w.run.now w.db c)

/-- The run goes on to `s`; what it awaits next has not been tried. -/
def World.goOn (w : World) (s : State) : World where
  run := { w.run with wf := s }
  db := w.db
  tries := 0
  begun := none
  done := none

def World.step (w : World) : Event → Option World
  | .internal (.reply _) => none
  | .internal e => (runs.step w.run e).map (fun r => { w with run := r })
  | .start =>
    if awaiting w.run.wf.pc ∧ w.tries < maximumAttempts w.run.wf.pc then
      some { w with tries := w.tries+1, begun := none, done := none }
    else none
  | .commit tx =>
    if 0 < w.tries ∧ w.done.isNone then
      match tx with
      | .begin e =>
        if w.begun.isNone then
          (w.apply tx).map (fun db => { w with db := db, begun := some e })
        else none
      | .finish a begun =>
        if begun = w.begun then (w.apply tx).map (fun db => { w with db := db, done := some a })
        else none
    else none
  | .late tx => if 1 < w.tries then (w.apply tx).map (fun db => { w with db := db }) else none
  | .reply => w.done.bind (fun a => (w.run.wf.resume w.run.now a).map w.goOn)
  | .exhausted =>
    if w.tries = maximumAttempts w.run.wf.pc then (w.run.wf.resume w.run.now .error).map w.goOn
    else none
  | .stray i tx => (w.run.wf.history[i]?.bind (fun c => tx.apply w.run.now w.db c)).map
      (fun db => { w with db := db })

def NoneRunning (db : Tables) : Prop := ∀ e, db.executions e ≠ some .running

structure Closed (row : CaseRow) : Prop where
  status : row.status ∈ terminalStatuses
  closedAt : row.closedAt.isSome

def worlds : System World Event where
  init w := runs.init w.run ∧ NoneRunning w.db ∧ w.tries = 0 ∧ w.begun = none ∧ w.done = none
  step := step

/-- No activity but a notification exhausts its retries, and no attempt commits
when its activity is no longer awaited. -/
def Orderly (w : World) : Event → Prop
  | .exhausted => fallible w.run.wf.pc = false
  | .stray _ _ => False
  | _ => True

variable {exec : Option Uuid}

section Tables

variable {db db' : Tables} {now : Instant} {c : Call} {e x : Uuid}

theorem finishExecution_running {status : ExecutionStatus} (hs : status ≠ .running)
    (h : (db.finishExecution e status).executions x = some .running) :
    db.executions x = some .running ∧ x ≠ e := by
  unfold Tables.finishExecution at h
  split_ifs at h with he
  · grind
  · grind

theorem endExecution_running {ok : Bool} (h : (db.endExecution ok e).executions x = some .running) :
    db.executions x = some .running ∧ (ok = false → x ≠ e) := by
  grind [Tables.endExecution, finishExecution_running]

theorem verify_running {ok : Bool} (h : (db.verify ok exec now).executions x = some .running) :
    db.executions x = some .running ∧ exec ≠ some x := by
  cases exec with
  | none =>
    refine ⟨?_, by simp⟩
    cases ok with
    | true => exact h
    | false => exact h
  | some e =>
    have hfinish : db.executions x = some .running ∧ x ≠ e := by
      cases ok with
      | true => exact finishExecution_running (by decide) h
      | false => exact finishExecution_running (by decide) h
    grind

theorem finish_running {a : Reply} {begun : Option Uuid}
    (h : (Tx.finish a begun).apply now db c = some db') (hx : db'.executions x = some .running) :
    db.executions x = some .running := by
  unfold Tx.apply at h
  dsimp only at h
  split at h
  case h_4 => grind [endExecution_running]
  case h_5 =>
    cases h
    exact (verify_running hx).1
  all_goals
    cases h
    try exact hx

def closingCall : Call → Bool
  | .closeWithSummary _ _ _ _ => true
  | .closeResolved _ _ => true
  | .toNeedsHuman _ _ _ => true
  | .rejectCase _ _ => true
  | _ => false

def executeCall : Call → Bool
  | .executePlaybook _ _ _ _ _ => true
  | _ => false

theorem closed_update (row : CaseRow) {status : Status} (h : status ∈ terminalStatuses) :
    Closed (row.update status true now) :=
  ⟨h, by simp [CaseRow.update]⟩

variable {tx : Tx}

theorem apply_closing (hc : closingCall c = true) (h : tx.apply now db c = some db') :
    Closed db'.row ∧ db'.executions = db.executions := by
  cases tx with
  | begin e =>
    cases c with
    | executePlaybook _ _ _ _ _ => cases hc
    | _ => cases h
  | finish a begun =>
    cases c with
    | closeWithSummary _ _ _ _ | closeResolved _ _ | toNeedsHuman _ _ _ | rejectCase _ _ =>
      cases a with
      | done =>
        cases h
        exact ⟨closed_update _ (by decide), rfl⟩
      | _ => cases h
    | _ => cases hc

theorem apply_notification {i : Uuid} {n : Notification}
    (h : tx.apply now db (.sendNotifications i n) = some db') : db' = db := by
  cases tx with
  | begin e => cases h
  | finish a begun =>
    cases a with
    | done => exact (Option.some.inj h).symm
    | _ => cases h

theorem apply_running (hc : executeCall c = false) (h : tx.apply now db c = some db')
    (hx : db'.executions x = some .running) : db.executions x = some .running := by
  cases tx with
  | begin e =>
    cases c with
    | executePlaybook _ _ _ _ _ => cases hc
    | _ => cases h
  | finish a begun => exact finish_running h hx

theorem apply_verifyFix {i : Uuid} {a : Action} {k : String}
    (h : tx.apply now db (.verifyFix i a exec k) = some db')
    (hx : db'.executions x = some .running) :
    db.executions x = some .running ∧ exec ≠ some x := by
  cases tx with
  | begin e => cases h
  | finish r begun =>
    cases r with
    | verified ok =>
      cases h
      exact verify_running hx
    | _ => cases h

end Tables

inductive Kind where
  | plain | executing | settling | verifying | closing | closed | raised
  deriving DecidableEq, Repr

def kindOf : Pc → Kind
  | .executePlaybook _ _ => .executing
  | .settle _ _ _ _ => .settling
  | .verifyFix _ _ => .verifying
  | .rejectCase _ => .closing
  | .toNeedsHuman _ => .closing
  | .closeResolved => .closing
  | .closeWithSummary _ => .closing
  | .notifyRejected _ => .closed
  | .notifyNeedsHuman _ => .closed
  | .notifyResolved => .closed
  | .returned _ => .closed
  | .raised => .raised
  | _ => .plain

/-- Where the run can go to from a point at which no execution is under way. -/
inductive Next (t : State) : Prop
  | plain (hk : kindOf t.pc = .plain)
      (hlast : awaiting t.pc = true → ∃ c, t.history.getLast? = some c ∧ executeCall c = false)
  | executing (a : Action) (rest : List Action) (hpc : t.pc = .executePlaybook a rest)
      (hlast : ∃ c, t.history.getLast? = some c ∧ executeCall c = true)
  | closing (hk : kindOf t.pc = .closing)
      (hlast : ∃ c, t.history.getLast? = some c ∧ closingCall c = true)

theorem getLast?_schedule (s : State) (c : Call) (pc : Pc) :
    (s.schedule c pc).history.getLast? = some c :=
  List.getLast?_concat

variable {pc : Pc}

theorem next_plain (s : State) {c : Call} (hk : kindOf pc = .plain) (hc : executeCall c = false) :
    Next (s.schedule c pc) :=
  .plain hk (fun _ => ⟨c, getLast?_schedule s c pc, hc⟩)

theorem next_closing (s : State) {c : Call} (hk : kindOf pc = .closing)
    (hc : closingCall c = true) :
    Next (s.schedule c pc) :=
  .closing hk ⟨c, getLast?_schedule s c pc, hc⟩

theorem next_waiting {t : State} (hk : kindOf t.pc = .plain) (ha : awaiting t.pc = false) :
    Next t := by
  refine .plain hk ?_
  rw [ha]
  exact nofun

theorem next_checkBudget (s : State) (now : Instant) (n : ℤ) : Next (s.checkBudget now n) := by
  unfold checkBudget
  split_ifs
  · exact next_closing _ rfl rfl
  · exact next_closing _ rfl rfl
  · exact next_plain _ rfl rfl

theorem next_enterRound (s : State) (now : Instant) (n : ℤ) : Next (s.enterRound now n) := by
  unfold enterRound
  split_ifs
  · exact next_closing _ rfl rfl
  · exact next_waiting rfl rfl
  · exact next_checkBudget s now n

theorem next_rawLoop (s : State) (n : ℤ) (report : Report) (reqs : List RawCommandRequest) :
    Next (s.rawLoop n report reqs) := by
  cases reqs with
  | cons req rest => exact next_plain _ rfl rfl
  | nil =>
    unfold rawLoop endRound
    split_ifs
    · exact next_plain _ rfl rfl
    · exact next_closing _ rfl rfl
    · exact next_plain _ rfl rfl

theorem next_actionLoop (s : State) (rest : List Action) : Next (s.actionLoop rest) := by
  cases rest with
  | cons a rest => exact next_plain _ rfl rfl
  | nil =>
    unfold actionLoop
    split_ifs
    · exact next_closing _ rfl rfl
    · exact next_closing _ rfl rfl

theorem not_at_kind {s : State} {k : Kind} (hk : kindOf s.pc = k) (hs : s.pc = pc)
    (hne : kindOf pc ≠ k) : False := by
  rw [hs] at hk
  exact hne hk

variable {s t : State} {now : Instant} {a : Reply}

theorem next_resume (hk : kindOf s.pc = .plain) (ha : a = .error → fallible s.pc = false)
    (h : s.resume now a = some t) : Next t := by
  cases resumed_of_resume h with
  | createCase c _ =>
    unfold afterCreateCase
    dsimp only
    split_ifs
    · exact next_closing _ rfl rfl
    · exact next_plain _ rfl rfl
  | planInitial p _ =>
    unfold afterPlanInitial
    split
    · exact next_waiting rfl rfl
    · exact next_enterRound _ _ _
  | getSpend usd n _ =>
    unfold afterGetSpend
    split_ifs
    · exact next_closing _ rfl rfl
    · split
      · exact next_waiting rfl rfl
      · exact next_plain _ rfl rfl
  | recordIteration n report _ => exact next_rawLoop _ _ _ _
  | validateRaw ok n report req rest _ =>
    split_ifs
    · exact next_plain _ rfl rfl
    · exact next_rawLoop _ _ _ _
  | notifyApproval _ g aid _ _ => exact next_waiting rfl rfl
  | recordDecision g aid d _ =>
    unfold afterDecision
    cases g with
    | raw n report req rest =>
      dsimp only
      split_ifs
      · exact next_plain _ rfl rfl
      · exact next_rawLoop _ _ _ _
    | remediation action rest =>
      dsimp only
      split_ifs
      · exact .executing action rest rfl ⟨_, getLast?_schedule _ _ _, rfl⟩
      · exact next_actionLoop _ _
  | runRaw es n report rest _ => exact next_rawLoop _ _ _ _
  | planNext p n _ => exact next_enterRound _ _ _
  | planRemediation r _ =>
    unfold afterPlanRemediation
    dsimp only
    split_ifs
    · exact next_closing _ rfl rfl
    · exact next_actionLoop _ _
  | collect es n spent _ => exact next_plain _ rfl rfl
  | analyze r n _ => exact next_plain _ rfl rfl
  | createApproval aid g _ => exact next_plain _ rfl rfl
  | raised hf => grind
  | notified a o _ hn =>
    obtain ⟨_, hn, -⟩ | ⟨_, hn, -⟩ | ⟨hn, -⟩ := hn
    all_goals exact (not_at_kind hk hn (by simp [kindOf])).elim
  | _ =>
    rename_i hn
    exact (not_at_kind hk hn (by simp [kindOf])).elim

inductive Tidy (w : World) : Prop
  | plain (hk : kindOf w.run.wf.pc = .plain)
      (hlast : awaiting w.run.wf.pc = true →
        ∃ c, w.run.wf.history.getLast? = some c ∧ executeCall c = false)
      (hr : NoneRunning w.db)
  | executing (a : Action) (rest : List Action) (hpc : w.run.wf.pc = .executePlaybook a rest)
      (hlast : ∃ c, w.run.wf.history.getLast? = some c ∧ executeCall c = true)
      (ht : w.tries ≤ 1) (hb : w.tries = 0 → w.begun = none)
      (hr : ∀ e, w.db.executions e = some .running → w.begun = some e)
      (hd : ∀ r, w.done = some r → ∃ ok e, r = .executed ok (some e) ∧ w.begun = some e ∧
        (ok = false → NoneRunning w.db))
  | settling (a : Action) (rest : List Action) (exec : Option Uuid) (t : Instant)
      (hpc : w.run.wf.pc = .settle a rest exec t)
      (hr : ∀ e, w.db.executions e = some .running → exec = some e)
  | verifying (a : Action) (rest : List Action) (hpc : w.run.wf.pc = .verifyFix a rest)
      (i : Uuid) (exec : Option Uuid) (k : String)
      (hlast : w.run.wf.history.getLast? = some (.verifyFix i a exec k))
      (hr : ∀ e, w.db.executions e = some .running → exec = some e)
      (hd : w.done.isSome → NoneRunning w.db)
  | closing (hk : kindOf w.run.wf.pc = .closing)
      (hlast : ∃ c, w.run.wf.history.getLast? = some c ∧ closingCall c = true)
      (hr : NoneRunning w.db) (hd : w.done.isSome → Closed w.db.row)
  | closed (hk : kindOf w.run.wf.pc = .closed)
      (hlast : awaiting w.run.wf.pc = true →
        ∃ i n, w.run.wf.history.getLast? = some (.sendNotifications i n))
      (hr : NoneRunning w.db) (hc : Closed w.db.row)
  | stuck (hpc : w.run.wf.pc = .stuck)

structure Untried (w : World) : Prop where
  tries : w.tries = 0
  begun : w.begun = none
  done : w.done = none

structure Invariant (w : World) : Prop where
  tidy : Tidy w
  untried : awaiting w.run.wf.pc = false → Untried w
  done_ok : w.done ≠ some .error

theorem untried_goOn (w : World) (t : State) : Untried (w.goOn t) := ⟨rfl, rfl, rfl⟩

variable {w : World}

theorem tidy_of_next {t : State} (hn : Next t) (hu : Untried w) (ht : w.run.wf = t)
    (hr : NoneRunning w.db) : Tidy w := by
  subst ht
  cases hn with
  | plain hk hlast => exact .plain hk hlast hr
  | executing a rest hpc hlast =>
    refine .executing a rest hpc hlast ?_ (fun _ => hu.begun) ?_ ?_
    · rw [hu.tries]
      exact Nat.zero_le 1
    · exact fun e he => absurd he (hr e)
    · intro r hd
      rw [hu.done] at hd
      cases hd
  | closing hk hlast =>
    refine .closing hk hlast hr ?_
    rw [hu.done]
    exact nofun

theorem tidy_frame {w w' : World} (h : Tidy w) (hpc : w'.run.wf.pc = w.run.wf.pc)
    (hh : w'.run.wf.history = w.run.wf.history) (hdb : w'.db = w.db) (ht : w'.tries = w.tries)
    (hb : w'.begun = w.begun) (hd : w'.done = w.done) : Tidy w' := by
  cases h with
  | plain hk hlast hr =>
    rw [← hpc] at hk
    rw [← hpc, ← hh] at hlast
    rw [← hdb] at hr
    exact .plain hk hlast hr
  | executing a rest hp hlast htries hbegun hr hdone =>
    rw [← hpc] at hp
    rw [← hh] at hlast
    grind [Tidy]
  | settling a rest exec t hp hr =>
    rw [← hpc] at hp
    rw [← hdb] at hr
    exact .settling a rest exec t hp hr
  | verifying a rest hp i exec k hlast hr hdone => grind [Tidy]
  | closing hk hlast hr hdone =>
    rw [← hpc] at hk
    rw [← hh] at hlast
    rw [← hdb] at hr
    rw [← hdb, ← hd] at hdone
    exact .closing hk hlast hr hdone
  | closed hk hlast hr hc =>
    rw [← hpc] at hk
    rw [← hpc, ← hh] at hlast
    rw [← hdb] at hr hc
    exact .closed hk hlast hr hc
  | stuck hp => exact .stuck (hpc.trans hp)

variable {rest : List Action}

theorem tidy_afterExecute {a : Action} {ok : Bool} {e : Uuid}
    (hr : ∀ x, w.db.executions x = some .running → some e = some x)
    (hf : ok = false → NoneRunning w.db) :
    Tidy (w.goOn (w.run.wf.afterExecute w.run.now a rest ok (some e))) := by
  cases ok with
  | false => exact tidy_of_next (next_closing _ rfl rfl) (untried_goOn w _) rfl (hf rfl)
  | true =>
    unfold afterExecute
    simp only [Bool.not_true, Bool.false_eq_true, if_false]
    split_ifs
    · exact .verifying a rest rfl _ _ _ (getLast?_schedule _ _ _) hr nofun
    · exact .stuck rfl
    · exact .settling a rest (some e) _ rfl hr

theorem tidy_closed (hk : kindOf s.pc = .closing) (ha : a ≠ .error) (h : s.resume now a = some t)
    (hr : NoneRunning w.db) (hc : Closed w.db.row) : Tidy (w.goOn t) := by
  cases resumed_of_resume h with
  | rejectCase reason _ =>
    exact .closed rfl (fun _ => ⟨_, _, getLast?_schedule _ _ _⟩) hr hc
  | toNeedsHuman reason _ =>
    exact .closed rfl (fun _ => ⟨_, _, getLast?_schedule _ _ _⟩) hr hc
  | closeResolved _ => exact .closed rfl (fun _ => ⟨_, _, getLast?_schedule _ _ _⟩) hr hc
  | closeWithSummary reason _ => exact .closed rfl nofun hr hc
  | raised _ => exact absurd rfl ha
  | notifyApproval _ _ _ _ hn => exact (not_at_kind hk hn (by simp [kindOf])).elim
  | notified a o _ hn =>
    obtain ⟨_, hn, -⟩ | ⟨_, hn, -⟩ | ⟨hn, -⟩ := hn
    all_goals exact (not_at_kind hk hn (by simp [kindOf])).elim
  | _ =>
    rename_i hn
    exact (not_at_kind hk hn (by simp [kindOf])).elim

theorem fallible_of_closing (h : kindOf pc = .closing) : fallible pc = true := by
  cases pc
  all_goals first
    | rfl
    | cases h

theorem fallible_of_closed (h : kindOf pc = .closed) : fallible pc = false := by
  cases pc
  all_goals first
    | rfl
    | cases h

theorem resume_notified (hk : kindOf s.pc = .closed) (h : s.resume now a = some t) :
    ∃ o, t.pc = .returned o := by
  cases resumed_of_resume h with
  | notified a o _ _ => exact ⟨o, rfl⟩
  | raised hf =>
    rw [fallible_of_closed hk] at hf
    cases hf
  | notifyApproval _ _ _ _ hn => exact (not_at_kind hk hn (by simp [kindOf])).elim
  | _ =>
    rename_i hn
    exact (not_at_kind hk hn (by simp [kindOf])).elim

theorem not_resume_settle {now timer : Instant} {x : Action}
    (hpc : s.pc = .settle x rest exec timer) : s.resume now a ≠ some t := by
  intro h
  cases resumed_of_resume h with
  | raised hf =>
    rw [hpc] at hf
    cases hf
  | notifyApproval _ _ _ _ hn => grind
  | notified _ _ _ hn => grind
  | _ => grind

theorem resume_verifyFix {x : Action} (hpc : s.pc = .verifyFix x rest)
    (h : s.resume now a = some t) :
    (∃ ok, a = .verified ok ∧ t = s.afterVerify x rest ok) ∨ a = .error := by
  cases resumed_of_resume h with
  | verifyFix ok y rest' hp => grind
  | raised _ => exact .inr rfl
  | notifyApproval _ _ _ _ hn => grind
  | notified _ _ _ hn => grind
  | _ => grind

theorem tidy_resume {t : State} (hw : Invariant w)
    (ha : w.done = some a ∨ a = .error ∧ fallible w.run.wf.pc = false)
    (h : w.run.wf.resume w.run.now a = some t) : Tidy (w.goOn t) := by
  have hfail (hf : fallible w.run.wf.pc = true) : w.done = some a := by
    rcases ha with ha | ⟨-, hn⟩
    · exact ha
    · rw [hf] at hn
      cases hn
  cases hw.tidy with
  | plain hk hlast hr =>
    refine tidy_of_next (next_resume hk ?_ h) (untried_goOn w t) rfl hr
    rintro rfl
    exact (ha.resolve_left hw.done_ok).2
  | executing x rest hpc hlast ht hb hr hd =>
    obtain ⟨ok, e, rfl, hbegun, hfailed⟩ := hd a (hfail (by rw [hpc]; rfl))
    simp only [resume, hpc, Option.some.injEq] at h
    subst h
    apply tidy_afterExecute _ hfailed
    rw [← hbegun]
    exact hr
  | settling x rest exec timer hpc hr => exact absurd h (not_resume_settle hpc)
  | verifying x rest hpc i exec k hlast hr hd =>
    have hdone := hfail (by rw [hpc]; rfl)
    have hnone : NoneRunning w.db := hd (by rw [hdone]; rfl)
    obtain ⟨ok, rfl, rfl⟩ | rfl := resume_verifyFix hpc h
    · unfold afterVerify
      split_ifs
      · exact tidy_of_next (next_closing _ rfl rfl) (untried_goOn w _) rfl hnone
      · exact tidy_of_next (next_actionLoop _ _) (untried_goOn w _) rfl hnone
    · exact absurd hdone hw.done_ok
  | closing hk hlast hr hd =>
    have hdone := hfail (fallible_of_closing hk)
    have hne : a ≠ .error := by
      rintro rfl
      exact hw.done_ok hdone
    exact tidy_closed hk hne h hr (hd (by rw [hdone]; rfl))
  | closed hk hlast hr hc =>
    obtain ⟨o, ho⟩ := resume_notified hk h
    refine .closed ?_ ?_ hr hc
    · change kindOf t.pc = .closed
      rw [ho]
      rfl
    · change awaiting t.pc = true → _
      rw [ho]
      exact fun h => (by cases h)
  | stuck hpc =>
    have hstuck : t.pc = .stuck := stuck_step hpc (step_reply h)
    exact .stuck hstuck

theorem tidy_apply {w w' : World} {tx : Tx} (hw : Invariant w)
    (hne : ∀ a rest, w.run.wf.pc ≠ .executePlaybook a rest) (hrun : w'.run = w.run)
    (ha : w.apply tx = some w'.db) : Tidy w' := by
  obtain ⟨c, hc, happly⟩ := Option.bind_eq_some_iff.mp ha
  have hawait : awaiting w.run.wf.pc = true ∧ w.run.wf.history.getLast? = some c := by
    unfold awaited at hc
    split_ifs at hc with h
    exact ⟨h, hc⟩
  obtain ⟨hwait, hlastc⟩ := hawait
  cases hw.tidy with
  | plain hk hlast hr =>
    obtain ⟨c', hc', hexec⟩ := hlast hwait
    obtain rfl : c = c' := Option.some.inj (hlastc.symm.trans hc')
    refine .plain ?_ ?_ ?_
    · grind
    · grind
    · exact fun e he => hr e (apply_running hexec happly he)
  | executing a rest hpc => grind
  | settling a rest exec t hpc => rw [hpc] at hwait; cases hwait
  | verifying a rest hpc i exec k hlast hr hd =>
    obtain rfl := Option.some.inj (hlastc.symm.trans hlast)
    have hnone : NoneRunning w'.db := by
      intro e he
      obtain ⟨hrunning, hexec⟩ := apply_verifyFix happly he
      exact hexec (hr e hrunning)
    refine .verifying a rest ?_ i exec k ?_ ?_ (fun _ => hnone)
    · grind
    · grind
    · exact fun e he => absurd he (hnone e)
  | closing hk hlast hr hd =>
    obtain ⟨c', hc', hclose⟩ := hlast
    obtain rfl : c = c' := Option.some.inj (hlastc.symm.trans hc')
    obtain ⟨hclosed, hexec⟩ := apply_closing hclose happly
    refine .closing ?_ ?_ ?_ (fun _ => hclosed)
    · grind
    · grind
    · intro e he
      rw [hexec] at he
      exact hr e he
  | closed hk hlast hr hclosed =>
    obtain ⟨i, n, hn⟩ := hlast hwait
    obtain rfl := Option.some.inj (hlastc.symm.trans hn)
    have hdb := apply_notification happly
    refine .closed ?_ ?_ ?_ ?_
    · grind
    · grind
    · rw [hdb]
      exact hr
    · grind
  | stuck hpc => rw [hpc] at hwait; cases hwait

variable {db : Tables}

theorem apply_executing {tx : Tx}
    (hlast : ∃ c, w.run.wf.history.getLast? = some c ∧ executeCall c = true)
    (ha : w.apply tx = some db) :
    ∃ i a k d u, tx.apply w.run.now w.db (.executePlaybook i a k d u) = some db := by
  obtain ⟨c, hc, happly⟩ := Option.bind_eq_some_iff.mp ha
  obtain ⟨c', hc', hexec⟩ := hlast
  unfold awaited at hc
  split_ifs at hc
  obtain rfl : c = c' := Option.some.inj (hc.symm.trans hc')
  cases c with
  | executePlaybook i a k d u => grind
  | _ => cases hexec

theorem tidy_begin {e : Uuid} (hw : Invariant w) (htries : 0 < w.tries) (hbegun : w.begun = none)
    (hdone : w.done = none) (ha : w.apply (.begin e) = some db) :
    Tidy { w with db := db, begun := some e } := by
  by_cases hpc : ∃ a rest, w.run.wf.pc = .executePlaybook a rest
  · obtain ⟨a, rest, hpc⟩ := hpc
    cases hw.tidy with
    | executing a' rest' hp hlast ht hb hr hd =>
      obtain ⟨i, x, k, d, u, happly⟩ := apply_executing hlast ha
      cases happly
      refine .executing a rest hpc hlast ht (fun h => absurd h htries.ne') ?_ ?_
      · intro y hy
        by_cases hye : y = e
        · rw [hye]
        · change Function.update w.db.executions e _ y = _ at hy
          grind
      · grind
    | _ => simp_all [kindOf]
  · exact tidy_apply hw (fun a rest h => hpc ⟨a, rest, h⟩) rfl ha

theorem tidy_finish (hw : Invariant w) (ha : w.apply (.finish a w.begun) = some db) :
    Tidy { w with db := db, done := some a } := by
  by_cases hpc : ∃ x rest, w.run.wf.pc = .executePlaybook x rest
  · obtain ⟨x, rest, hpc⟩ := hpc
    cases hw.tidy with
    | executing a' rest' hp hlast ht hb hr hd =>
      obtain ⟨i, y, k, d, u, happly⟩ := apply_executing hlast ha
      cases a with
      | executed ok exec =>
        obtain ⟨e, hbegun, rfl, rfl⟩ : ∃ e, w.begun = some e ∧ exec = some e ∧
            db = w.db.endExecution ok e := by
          simp only [Tx.apply] at happly
          grind
        refine .executing x rest hpc hlast ht hb ?_ ?_
        · exact fun z hz => hr z (endExecution_running hz).1
        · rintro r ⟨⟩
          refine ⟨ok, e, rfl, hbegun, ?_⟩
          intro hok z hz
          obtain ⟨hrunning, hne⟩ := endExecution_running hz
          grind
      | _ => cases happly
    | _ => simp_all [kindOf]
  · exact tidy_apply hw (fun a rest h => hpc ⟨a, rest, h⟩) rfl ha

theorem tidy_start (hw : Invariant w) (ht : w.tries < maximumAttempts w.run.wf.pc) :
    Tidy { w with tries := w.tries+1, begun := none, done := none } := by
  cases hw.tidy with
  | plain hk hlast hr => exact .plain hk hlast hr
  | executing a rest hpc hlast htries hb hr hd =>
    have hzero : w.tries = 0 := by
      rw [hpc] at ht
      exact Nat.lt_one_iff.mp ht
    refine .executing a rest hpc hlast ?_ (fun _ => rfl) ?_ (fun r h => (by cases h))
    · rw [hzero]
    · grind
  | settling a rest exec t hpc hr => exact .settling a rest exec t hpc hr
  | verifying a rest hpc i exec k hlast hr hd =>
    exact .verifying a rest hpc i exec k hlast hr nofun
  | closing hk hlast hr hd => exact .closing hk hlast hr nofun
  | closed hk hlast hr hc => exact .closed hk hlast hr hc
  | stuck hpc => exact .stuck hpc

theorem noneRunning_of_plain (h : Tidy w) (hk : kindOf w.run.wf.pc = .plain)
    (hne : w.run.wf.pc ≠ .stuck) : NoneRunning w.db := by
  cases h with
  | plain _ _ hr => exact hr
  | stuck hpc => exact absurd hpc hne
  | _ => simp_all [kindOf]

theorem running_of_settling {a : Action} {t : Instant} (h : Tidy w)
    (hpc : w.run.wf.pc = .settle a rest exec t) :
    ∀ e, w.db.executions e = some .running → exec = some e := by
  cases h with
  | settling a' rest' exec' t' hp hr => grind
  | _ => simp_all [kindOf]

theorem tidy_internal {r : Run} {e : WorkflowRuns.Event} (hw : Invariant w) (he : ∀ a, e ≠ .reply a)
    (h : runs.step w.run e = some r) :
    Tidy { w with run := r } ∧ (awaiting r.wf.pc = false → awaiting w.run.wf.pc = false) := by
  -- nothing is tried where the run waits for a condition or a timer
  have hgo {s : State} (hwait : awaiting w.run.wf.pc = false) (hn : Next s)
      (hr : NoneRunning w.db) : Tidy { w with run := { w.run with wf := s } } ∧
        (awaiting s.pc = false → awaiting w.run.wf.pc = false) := by
    have hu := hw.untried hwait
    exact ⟨tidy_of_next hn ⟨hu.tries, hu.begun, hu.done⟩ rfl hr, fun _ => hwait⟩
  obtain ⟨sig, rfl, -, rfl⟩ | ⟨a, s, rfl, -, -⟩ | ⟨s, rfl, hs, rfl⟩ | ⟨s, rfl, hs, rfl⟩ |
    ⟨t, rfl, -, rfl⟩ := step_cases h
  · obtain ⟨p, a, b, d, hs, -⟩ := signal_frame w.run.wf sig
    rw [hs]
    exact ⟨tidy_frame hw.tidy rfl rfl rfl rfl rfl rfl, id⟩
  · exact absurd rfl (he a)
  · obtain ⟨n, hpc, -, rfl⟩ | ⟨g, aid, timer, d, hpc, -, -, rfl⟩ := wake_cases hs
    · apply hgo (by rw [hpc]; rfl) (next_checkBudget _ _ _)
      exact noneRunning_of_plain hw.tidy (by rw [hpc]; rfl) (by rw [hpc]; simp)
    · apply hgo (by rw [hpc]; rfl) (next_plain _ rfl rfl)
      exact noneRunning_of_plain hw.tidy (by rw [hpc]; rfl) (by rw [hpc]; simp)
  · obtain ⟨g, aid, timer, hpc, -, -, rfl⟩ | ⟨a, rest, exec, timer, hpc, -, rfl⟩ :=
      timer_cases hs
    · apply hgo (by rw [hpc]; rfl) (next_plain _ rfl rfl)
      exact noneRunning_of_plain hw.tidy (by rw [hpc]; rfl) (by rw [hpc]; simp)
    · have hwait : awaiting w.run.wf.pc = false := by rw [hpc]; rfl
      have hr := running_of_settling hw.tidy hpc
      refine ⟨.verifying a rest rfl _ exec _ (getLast?_schedule _ _ _) hr ?_, fun _ => hwait⟩
      change w.done.isSome = true → _
      rw [(hw.untried hwait).done]
      exact nofun
  · exact ⟨tidy_frame hw.tidy rfl rfl rfl rfl rfl rfl, id⟩

theorem apply_error {begun : Option Uuid} (h : w.apply (.finish .error begun) = some db) :
    False := by
  obtain ⟨c, -, hc⟩ := Option.bind_eq_some_iff.mp h
  cases c
  all_goals cases hc

theorem awaiting_of_apply {tx : Tx} (h : w.apply tx = some db) :
    awaiting w.run.wf.pc = true := by
  obtain ⟨c, hc, -⟩ := Option.bind_eq_some_iff.mp h
  unfold awaited at hc
  grind

theorem invariant_of_awaiting (hw : awaiting w.run.wf.pc = true) (ht : Tidy w)
    (hd : w.done ≠ some .error) : Invariant w := by
  refine ⟨ht, ?_, hd⟩
  rw [hw]
  exact nofun

theorem invariant_goOn {t : State} (h : Tidy (w.goOn t)) : Invariant (w.goOn t) :=
  ⟨h, fun _ => untried_goOn w t, nofun⟩

theorem invariant_step {w w' : World} {e : Event} (hw : Invariant w) (he : Orderly w e)
    (h : worlds.step w e = some w') : Invariant w' := by
  change w.step e = some w' at h
  cases e with
  | internal e =>
    have hne : ∀ a, e ≠ .reply a := by
      rintro a rfl
      cases h
    have hmap : (runs.step w.run e).map (fun r => { w with run := r }) = some w' := by
      cases e with
      | reply a => exact absurd rfl (hne a)
      | _ => exact h
    obtain ⟨r, hr, rfl⟩ := Option.map_eq_some_iff.mp hmap
    obtain ⟨ht, hwait⟩ := tidy_internal hw hne hr
    refine ⟨ht, ?_, hw.done_ok⟩
    intro ha
    have hu := hw.untried (hwait ha)
    exact ⟨hu.tries, hu.begun, hu.done⟩
  | start =>
    simp only [step] at h
    split_ifs at h with hs
    cases h
    exact invariant_of_awaiting hs.1 (tidy_start hw hs.2) (fun h => (by cases h))
  | commit tx =>
    cases tx with
    | begin e =>
      simp only [step] at h
      split_ifs at h with hs hb
      obtain ⟨db, ha, rfl⟩ := Option.map_eq_some_iff.mp h
      have hwait := awaiting_of_apply ha
      refine invariant_of_awaiting hwait ?_ hw.done_ok
      exact tidy_begin hw hs.1 (Option.isNone_iff_eq_none.mp hb)
        (Option.isNone_iff_eq_none.mp hs.2) ha
    | finish a begun =>
      simp only [step] at h
      split_ifs at h with hs hb
      subst hb
      obtain ⟨db, ha, rfl⟩ := Option.map_eq_some_iff.mp h
      have hwait := awaiting_of_apply ha
      refine invariant_of_awaiting hwait (tidy_finish hw ha) ?_
      rintro ⟨⟩
      exact apply_error ha
  | late tx =>
    simp only [step] at h
    split_ifs at h with hs
    obtain ⟨db, ha, rfl⟩ := Option.map_eq_some_iff.mp h
    have hwait := awaiting_of_apply ha
    refine invariant_of_awaiting hwait (tidy_apply hw ?_ rfl ha) hw.done_ok
    -- `execute_playbook` is not retried
    intro a rest hpc
    cases hw.tidy with
    | executing _ _ _ _ ht => omega
    | _ => simp_all [kindOf]
  | reply =>
    obtain ⟨a, ha, hr⟩ := Option.bind_eq_some_iff.mp h
    obtain ⟨t, ht, rfl⟩ := Option.map_eq_some_iff.mp hr
    exact invariant_goOn (tidy_resume hw (.inl ha) ht)
  | exhausted =>
    simp only [step] at h
    split_ifs at h
    obtain ⟨t, ht, rfl⟩ := Option.map_eq_some_iff.mp h
    exact invariant_goOn (tidy_resume hw (.inr ⟨rfl, he⟩) ht)
  | stray i tx => exact he.elim

theorem invariant_reachVia (w : World) (h : worlds.ReachVia Orderly w) : Invariant w := by
  apply reachVia_invariant worlds Orderly Invariant _ _ w h
  · rintro w ⟨⟨input, hr⟩, hn, ht, hb, hd⟩
    have hu : Untried w := ⟨ht, hb, hd⟩
    refine ⟨tidy_of_next (.plain rfl fun _ => ⟨_, rfl, rfl⟩) hu hr hn, fun _ => hu, ?_⟩
    rw [hd]
    exact nofun
  · intro w e w' _ he hw hs
    exact invariant_step hw he hs

/-- If no activity but a notification exhausts its retries, and no attempt commits
behind its activity, a run that has ended leaves a closed case. -/
theorem closed_case (w : World) (hw : worlds.ReachVia Orderly w)
    (hc : w.run.wf.closed = true) :
    w.db.row.status ∈ terminalStatuses ∧ w.db.row.closedAt.isSome ∧
      ∀ e, w.db.executions e ≠ some .running := by
  have hend : kindOf w.run.wf.pc = .closed ∨ kindOf w.run.wf.pc = .raised := by
    unfold closed at hc
    split at hc
    · exact .inl (by rw [‹w.run.wf.pc = _›]; rfl)
    · exact .inr (by rw [‹w.run.wf.pc = _›]; rfl)
    · cases hc
  cases (invariant_reachVia w hw).tidy with
  | closed hk hlast hr hclosed => exact ⟨hclosed.status, hclosed.closedAt, hr⟩
  | plain hk => simp [hk] at hend
  | closing hk => simp [hk] at hend
  | executing a rest hpc => simp [hpc, kindOf] at hend
  | settling a rest exec t hpc => simp [hpc, kindOf] at hend
  | verifying a rest hpc => simp [hpc, kindOf] at hend
  | stuck hpc => simp [hpc, kindOf] at hend

def sampleAttempt (a : Reply) : List Event := [.start, .commit (.finish a none), .reply]

def sampleWorld : World := ⟨sampleStart, ⟨⟨.received, none⟩, fun _ => none⟩, 0, none, none⟩

def sampleExecuted : List Event :=
  sampleAttempt (.case sampleCase) ++ sampleAttempt (.plan .null) ++ sampleAttempt (.spend 0) ++
    sampleAttempt (.evidence []) ++ sampleAttempt (.report sampleReport) ++ sampleAttempt .done ++
    sampleAttempt (.remediation ⟨[sampleAction], none⟩) ++ sampleAttempt (.approval 9) ++
    sampleAttempt .done ++
    [.internal (.signal (.approvalDecided ⟨some 9, some .approved, none, none⟩)),
      .internal .wake] ++ sampleAttempt .done ++
    [.start, .commit (.begin 5), .commit (.finish (.executed true (some 5)) (some 5)), .reply]

def sampleVerified : List Event :=
  sampleExecuted ++ (.start :: sampleAttempt (.verified true)) ++ sampleAttempt .done ++
    sampleAttempt .done

theorem closed_case_sampleVerified :
    ∃ w, worlds.run sampleWorld sampleVerified = some w ∧ w.run.wf.pc = .returned .resolved ∧
      w.db.row.status ∈ terminalStatuses ∧ w.db.row.closedAt.isSome ∧
      ∀ e, w.db.executions e ≠ some .running := by
  have hinit : worlds.ReachVia Orderly sampleWorld :=
    .init ⟨⟨sampleInput, rfl⟩, nofun, rfl, rfl, rfl⟩
  refine ⟨_, rfl, rfl, closed_case _ (run_reachVia worlds Orderly sampleVerified sampleWorld _
    hinit ?_ rfl) rfl⟩
  simp [sampleVerified, sampleExecuted, sampleAttempt, Orderly]

/-- `verify_fix` exhausts its retries: the run ends with an error and leaves the
case as `EXECUTING`, with its execution running. -/
theorem raised_leaves_case_open :
    worlds.init sampleWorld ∧
    ∃ w, worlds.run sampleWorld (sampleExecuted ++ [.start, .start, .start, .exhausted]) =
        some w ∧ w.run.wf.closed = true ∧ w.db.row.status = .executing ∧
      w.db.row.closedAt = none ∧ w.db.executions 5 = some .running := by
  refine ⟨⟨⟨sampleInput, rfl⟩, nofun, rfl, rfl, rfl⟩, ?_⟩
  exact ⟨_, rfl, rfl, rfl, rfl, rfl⟩

end DbAgent.ClosedCase
