import DbAgent.WorkflowRuns

/-! The remediation loop: which decisions and results lead to which end of a
run. -/
namespace DbAgent.WorkflowRuns

open Transition Workflow List State

/-- What a run has been told about the proposed actions, in order: the decisions
of the gates, the results of `execute_playbook` and those of `verify_fix`. -/
structure Log where
  decisions : List (Action × Option Decision)
  executions : List (Action × Bool)
  verifications : List (Action × Bool)

def Log.observe (l : Log) (s : State) : Event → Log
  | .reply .done =>
    match s.pc with
    | .recordDecision (.remediation a _) _ d =>
      { l with decisions := l.decisions ++ [(a, d.decision)] }
    | _ => l
  | .reply (.executed ok _) =>
    match s.pc with
    | .executePlaybook a _ => { l with executions := l.executions ++ [(a, ok)] }
    | _ => l
  | .reply (.verified ok) =>
    match s.pc with
    | .verifyFix a _ => { l with verifications := l.verifications ++ [(a, ok)] }
    | _ => l
  | _ => l

structure Observed where
  run : Run
  log : Log

def observed : System Observed Event where
  init x := runs.init x.run ∧ x.log = ⟨[], [], []⟩
  step x e := (runs.step x.run e).map (fun r => ⟨r, x.log.observe x.run.wf e⟩)

/-- The actions among the calls whose approval was asked for, that were executed,
and that were verified. -/
def requestedCalls (h : List Call) : List Action :=
  h.filterMap fun
    | .createApproval _ _ (.action a) => some a
    | _ => none

def executedCalls (h : List Call) : List Action :=
  h.filterMap fun
    | .executePlaybook _ a _ _ _ => some a
    | _ => none

def verifiedCalls (h : List Call) : List Action :=
  h.filterMap fun
    | .verifyFix _ a _ _ => some a
    | _ => none

def approvedOf (ds : List (Action × Option Decision)) : List Action :=
  (ds.filter (fun x => x.2 = some .approved)).map Prod.fst

def okay (as : List Action) : List (Action × Bool) := as.map (fun a => (a, true))

def playbooks (as : List Action) : List Action := as.filter (fun a => a.kind = some "playbook")

inductive Progress where
  | asked | executing | settling | verifying | failed | unverified
  deriving DecidableEq, Repr

abbrev Stage := Option (Action × Progress)

@[ext]
structure Account where
  requested : List Action
  executed : List Action
  verified : List Action
  decisions : List (Action × Option Decision)
  executions : List (Action × Bool)
  verifications : List (Action × Bool)

open Account

def account (h : List Call) (l : Log) : Account :=
  ⟨requestedCalls h, executedCalls h, verifiedCalls h, l.decisions, l.executions,
    l.verifications⟩

def Account.add (x y : Account) : Account where
  requested := x.requested ++ y.requested
  executed := x.executed ++ y.executed
  verified := x.verified ++ y.verified
  decisions := x.decisions ++ y.decisions
  executions := x.executions ++ y.executions
  verifications := x.verifications ++ y.verifications

/-- The account of actions that are done with: those that were approved have been
executed and verified, with success. -/
def Account.ofDone (before : List (Action × Option Decision)) : Account :=
  ⟨before.map Prod.fst, approvedOf before, approvedOf before, before, okay (approvedOf before),
    okay (approvedOf before)⟩

def Account.ofStage : Stage → Account
  | none => ⟨[], [], [], [], [], []⟩
  | some (a, .asked) => ⟨[a], [], [], [], [], []⟩
  | some (a, .executing) => ⟨[a], [a], [], [(a, some .approved)], [], []⟩
  | some (a, .settling) => ⟨[a], [a], [], [(a, some .approved)], [(a, true)], []⟩
  | some (a, .verifying) => ⟨[a], [a], [a], [(a, some .approved)], [(a, true)], []⟩
  | some (a, .failed) => ⟨[a], [a], [], [(a, some .approved)], [(a, false)], []⟩
  | some (a, .unverified) =>
    ⟨[a], [a], [a], [(a, some .approved)], [(a, true)], [(a, false)]⟩

/-- The books of the loop over the playbooks `P`: the actions `before` are done
with, one is in hand, and nothing has happened to the `rest`. -/
structure Books (P : List Action) (before : List (Action × Option Decision)) (st : Stage)
    (rest : List Action) (h : List Call) (l : Log) : Prop where
  plan : P = before.map Prod.fst ++ ((st.map Prod.fst).toList ++ rest)
  balance : account h l = (ofDone before).add (.ofStage st)

theorem add_assoc_account (x y z : Account) : (x.add y).add z = x.add (y.add z) := by
  simp [add]

theorem account_call (h : List Call) (c : Call) (l : Log) :
    account (h ++ [c]) l = (account h l).add (account [c] ⟨[], [], []⟩) := by
  simp [account, add, requestedCalls, executedCalls, verifiedCalls]

theorem account_log (h : List Call) (l : Log) (ds : List (Action × Option Decision))
    (es vs : List (Action × Bool)) :
    account h ⟨l.decisions ++ ds, l.executions ++ es, l.verifications ++ vs⟩ =
      (account h l).add ⟨[], [], [], ds, es, vs⟩ := by
  simp [account, add]

theorem ofDone_snoc_approved (before : List (Action × Option Decision)) (a : Action) :
    ofDone (before ++ [(a, some .approved)]) = (ofDone before).add
      ⟨[a], [a], [a], [(a, some .approved)], [(a, true)], [(a, true)]⟩ := by
  simp [ofDone, add, approvedOf, okay]

theorem ofDone_snoc_refused (before : List (Action × Option Decision)) (a : Action)
    {d : Option Decision} (hd : d ≠ some .approved) :
    ofDone (before ++ [(a, d)]) =
      (ofDone before).add ⟨[a], [], [], [(a, d)], [], []⟩ := by
  simp [ofDone, add, approvedOf, okay, hd]

section Books

variable {P : List Action} {before : List (Action × Option Decision)} {rest : List Action}
  {h : List Call} {l : Log}

theorem books_move {st st' : Stage} {h' : List Call} {l' : Log} {x : Account}
    (hb : Books P before st rest h l) (hact : st'.map Prod.fst = st.map Prod.fst)
    (hx : account h' l' = (account h l).add x)
    (hst : (ofStage st).add x = .ofStage st') : Books P before st' rest h' l' := by
  refine ⟨?_, ?_⟩
  · rw [hact]
    exact hb.plan
  · rw [hx, hb.balance, add_assoc_account, hst]

theorem books_call {st : Stage} {c : Call} (hb : Books P before st rest h l)
    (hc : account [c] ⟨[], [], []⟩ = ⟨[], [], [], [], [], []⟩) :
    Books P before st rest (h ++ [c]) l := by
  apply books_move hb rfl (account_call h c l)
  rw [hc]
  simp [add]

variable {a : Action}

theorem books_ask (i : Uuid) (k : ApprovalKind) (hb : Books P before none (a :: rest) h l) :
    Books P before (some (a, .asked)) rest (h ++ [.createApproval i k (.action a)]) l := by
  refine ⟨hb.plan, ?_⟩
  rw [account_call, hb.balance, add_assoc_account]
  rfl

theorem books_refuse {d : Option Decision} (hd : d ≠ some .approved)
    (hb : Books P before (some (a, .asked)) rest h l) :
    Books P (before ++ [(a, d)]) none rest h
      { l with decisions := l.decisions ++ [(a, d)] } := by
  refine ⟨?_, ?_⟩
  · rw [hb.plan, map_append, append_assoc]
    rfl
  · have hlog := account_log h l [(a, d)] [] []
    rw [append_nil, append_nil, hb.balance, add_assoc_account] at hlog
    rw [hlog, ofDone_snoc_refused before a hd, add_assoc_account]
    rfl

theorem books_approve (i : Uuid) (k : String) (dep : Option String) (u : Option Uuid)
    (hb : Books P before (some (a, .asked)) rest h l) :
    Books P before (some (a, .executing)) rest (h ++ [.executePlaybook i a k dep u])
      { l with decisions := l.decisions ++ [(a, some .approved)] } := by
  have hlog := account_log h l [(a, some .approved)] [] []
  rw [append_nil, append_nil] at hlog
  have hx := account_call h (.executePlaybook i a k dep u)
    { l with decisions := l.decisions ++ [(a, some .approved)] }
  rw [hlog, add_assoc_account] at hx
  exact books_move hb rfl hx rfl

theorem books_executed (ok : Bool) (hb : Books P before (some (a, .executing)) rest h l) :
    Books P before (some (a, if ok then .settling else .failed)) rest h
      { l with executions := l.executions ++ [(a, ok)] } := by
  have hlog := account_log h l [] [(a, ok)] []
  rw [append_nil, append_nil] at hlog
  cases ok with
  | true => exact books_move hb rfl hlog rfl
  | false => exact books_move hb rfl hlog rfl

theorem books_verify (i : Uuid) (e : Option Uuid) (k : String)
    (hb : Books P before (some (a, .settling)) rest h l) :
    Books P before (some (a, .verifying)) rest (h ++ [.verifyFix i a e k]) l :=
  books_move hb rfl (account_call h _ l) rfl

theorem books_fixed (hb : Books P before (some (a, .verifying)) rest h l) :
    Books P (before ++ [(a, some .approved)]) none rest h
      { l with verifications := l.verifications ++ [(a, true)] } := by
  refine ⟨?_, ?_⟩
  · rw [hb.plan, map_append, append_assoc]
    rfl
  · have hlog := account_log h l [] [] [(a, true)]
    rw [append_nil, append_nil, hb.balance, add_assoc_account] at hlog
    rw [hlog, ofDone_snoc_approved, add_assoc_account]
    rfl

theorem books_unverified (hb : Books P before (some (a, .verifying)) rest h l) :
    Books P before (some (a, .unverified)) rest h
      { l with verifications := l.verifications ++ [(a, false)] } := by
  have hlog := account_log h l [] [] [(a, false)]
  rw [append_nil, append_nil] at hlog
  exact books_move hb rfl hlog rfl

end Books

def failureOf : Progress → Option Reason
  | .failed => some .playbookFailed
  | .unverified => some .verificationFailed
  | _ => none

/-- Where the coroutine stands in the loop, with the action in hand, those to
come, and whether one was executed. -/
inductive Place : Pc → Stage → List Action → Bool → Prop
  | createApproval (a : Action) (rest : List Action) (b : Bool) :
      Place (.createApproval (.remediation a rest)) (some (a, .asked)) rest b
  | notifyApproval (a : Action) (rest : List Action) (aid : Uuid) (b : Bool) :
      Place (.notifyApproval (.remediation a rest) aid) (some (a, .asked)) rest b
  | waitDecision (a : Action) (rest : List Action) (aid : Uuid) (t : Instant) (b : Bool) :
      Place (.waitDecision (.remediation a rest) aid t) (some (a, .asked)) rest b
  | recordDecision (a : Action) (rest : List Action) (aid : Uuid) (d : DecisionDict) (b : Bool) :
      Place (.recordDecision (.remediation a rest) aid d) (some (a, .asked)) rest b
  | executePlaybook (a : Action) (rest : List Action) (b : Bool) :
      Place (.executePlaybook a rest) (some (a, .executing)) rest b
  | settle (a : Action) (rest : List Action) (exec : Option Uuid) (t : Instant) (b : Bool) :
      Place (.settle a rest exec t) (some (a, .settling)) rest b
  | verifyFix (a : Action) (rest : List Action) (b : Bool) :
      Place (.verifyFix a rest) (some (a, .verifying)) rest b
  | toNeedsHuman (a : Action) (p : Progress) (reason : Reason) (rest : List Action) (b : Bool)
      (hp : failureOf p = some reason) : Place (.toNeedsHuman reason) (some (a, p)) rest b
  | notifyNeedsHuman (a : Action) (p : Progress) (reason : Reason) (rest : List Action)
      (b : Bool) (hp : failureOf p = some reason) :
      Place (.notifyNeedsHuman reason) (some (a, p)) rest b
  | needsHuman (a : Action) (p : Progress) (reason : Reason) (rest : List Action) (b : Bool)
      (hp : failureOf p = some reason) :
      Place (.returned (.needsHuman reason)) (some (a, p)) rest b
  | closeResolved : Place .closeResolved none [] true
  | notifyResolved : Place .notifyResolved none [] true
  | resolved : Place (.returned .resolved) none [] true
  | closeWithSummary (reason : CloseReason) : Place (.closeWithSummary reason) none [] false
  | closedSummary (reason : CloseReason) : Place (.returned (.closedSummary reason)) none [] false

/-- How many moves the loop has before it, at most. -/
def remedyRank : Pc → ℕ
  | .createApproval (.remediation _ rest) => 7*rest.length+9
  | .notifyApproval (.remediation _ rest) _ => 7*rest.length+8
  | .waitDecision (.remediation _ rest) _ _ => 7*rest.length+7
  | .recordDecision (.remediation _ rest) _ _ => 7*rest.length+6
  | .executePlaybook _ rest => 7*rest.length+5
  | .settle _ rest _ _ => 7*rest.length+4
  | .verifyFix _ rest => 7*rest.length+3
  | .closeResolved => 2
  | .closeWithSummary _ => 2
  | .toNeedsHuman _ => 2
  | .notifyResolved => 1
  | .notifyNeedsHuman _ => 1
  | _ => 0

/-- What the loop does not change: the history before it and the settings of the
settle windows. -/
structure Setting where
  history : List Call
  remediation : RemediationConfig
  settleSeconds : Option ℤ

/-- The run is in the loop over `P`, and its books are in order. -/
structure Underway (P : List Action) (S : Setting) (before : List (Action × Option Decision))
    (st : Stage) (rest : List Action) (h : List Call) (s : State) (l : Log) : Prop where
  history : s.history = S.history ++ h
  books : Books P before st rest h l
  place : Place s.pc st rest s.executedAny
  executedAny : s.executedAny = true ↔ approvedOf before ≠ []
  remediation : s.remediation = S.remediation
  settleSeconds : s.input.settleSeconds = S.settleSeconds

def InLoop (P : List Action) (S : Setting) (s : State) (l : Log) : Prop :=
  ∃ before st rest h, Underway P S before st rest h s l

section Loop

variable {P : List Action} {S : Setting} {before : List (Action × Option Decision)}
  {rest : List Action} {h : List Call} {s : State} {l : Log}

variable {st : Stage}

theorem history_snoc (hu : Underway P S before st rest h s l) (c : Call) :
    s.history ++ [c] = S.history ++ (h ++ [c]) := by
  rw [hu.history, append_assoc]

theorem underway_schedule {u : State} {c : Call} {pc : Pc} (hu : Underway P S before st rest h s l)
    (hc : account [c] ⟨[], [], []⟩ = ⟨[], [], [], [], [], []⟩)
    (hpc : Place pc st rest s.executedAny) (hh : u.history = s.history)
    (he : u.executedAny = s.executedAny) (hr : u.remediation = s.remediation)
    (hi : u.input = s.input) :
    Underway P S before st rest (h ++ [c]) (u.schedule c pc) l where
  history := by
    change u.history ++ [c] = _
    rw [hh]
    exact history_snoc hu c
  books := books_call hu.books hc
  place := by
    change Place pc st rest u.executedAny
    rw [he]
    exact hpc
  executedAny := by
    change u.executedAny = true ↔ _
    rw [he]
    exact hu.executedAny
  remediation := hr.trans hu.remediation
  settleSeconds := by
    change u.input.settleSeconds = _
    rw [hi]
    exact hu.settleSeconds

theorem inLoop_actionLoop (hh : s.history = S.history ++ h)
    (hb : Books P before none rest h l) (hx : s.executedAny = true ↔ approvedOf before ≠ [])
    (hr : s.remediation = S.remediation) (hi : s.input.settleSeconds = S.settleSeconds) :
    InLoop P S (s.actionLoop rest) l ∧
      remedyRank (s.actionLoop rest).pc ≤ 7*rest.length+2 := by
  have hcall (c : Call) : (s.history ++ [c]) = S.history ++ (h ++ [c]) := by
    rw [hh, append_assoc]
  cases rest with
  | cons a rest =>
    refine ⟨⟨before, _, rest, _, hcall _, books_ask s.investigationId _ hb, ?_, hx, hr, hi⟩, ?_⟩
    · exact .createApproval a rest _
    · simp only [actionLoop, requestApproval, schedule, remedyRank,
        length_cons]
      omega
  | nil =>
    unfold actionLoop
    cases hany : s.executedAny with
    | true =>
      simp only [if_true]
      refine ⟨⟨before, _, [], _, hcall _, books_call hb rfl, ?_, ?_, hr, hi⟩, le_rfl⟩
      · change Place .closeResolved none [] s.executedAny
        rw [hany]
        exact .closeResolved
      · exact hx
    | false =>
      simp only [Bool.false_eq_true, if_false]
      refine ⟨⟨before, _, [], _, hcall _, books_call hb rfl, ?_, ?_, hr, hi⟩, le_rfl⟩
      · change Place (.closeWithSummary _) none [] s.executedAny
        rw [hany]
        exact .closeWithSummary _
      · exact hx

variable {a : Action}

theorem inLoop_afterDecision {aid : Uuid} {d : DecisionDict}
    (hu : Underway P S before (some (a, .asked)) rest h s l)
    (hpc : s.pc = .recordDecision (.remediation a rest) aid d) :
    InLoop P S (s.afterDecision (.remediation a rest) d)
        { l with decisions := l.decisions ++ [(a, d.decision)] } ∧
      remedyRank (s.afterDecision (.remediation a rest) d).pc+1 ≤ remedyRank s.pc := by
  have hrank : remedyRank s.pc = 7*rest.length+6 := by rw [hpc]; rfl
  rw [hrank]
  unfold afterDecision
  dsimp only
  split_ifs with hd
  · rw [hd]
    exact ⟨⟨before, _, rest, _, history_snoc hu _, books_approve _ _ _ _ hu.books,
      .executePlaybook a rest _, hu.executedAny, hu.remediation, hu.settleSeconds⟩, le_rfl⟩
  · have hx : s.executedAny = true ↔ approvedOf (before ++ [(a, d.decision)]) ≠ [] := by
      rw [hu.executedAny]
      simp [approvedOf, hd]
    obtain ⟨hin, hle⟩ := inLoop_actionLoop (s := { s with status := .investigating })
      hu.history (books_refuse hd hu.books) hx hu.remediation hu.settleSeconds
    grind

/-- `execute_playbook` has answered; the settle window is one that a `timedelta`
can hold. -/
theorem inLoop_afterExecute {now : Instant} {ok : Bool} {exec : Option Uuid}
    (hset : resolveActionSettleSeconds a S.remediation S.settleSeconds ≤ Py.maxTimedeltaSeconds)
    (hu : Underway P S before (some (a, .executing)) rest h s l)
    (hpc : s.pc = .executePlaybook a rest) :
    InLoop P S (s.afterExecute now a rest ok exec)
        { l with executions := l.executions ++ [(a, ok)] } ∧
      remedyRank (s.afterExecute now a rest ok exec).pc+1 ≤ remedyRank s.pc := by
  have hbooks := books_executed ok hu.books
  rw [← hu.remediation, ← hu.settleSeconds] at hset
  have hrank : remedyRank s.pc = 7*rest.length+5 := by rw [hpc]; rfl
  rw [hrank]
  unfold afterExecute
  cases ok with
  | false =>
    simp only [Bool.not_false, if_true]
    refine ⟨⟨before, _, rest, _, history_snoc hu _, books_call hbooks rfl, ?_, hu.executedAny,
      hu.remediation, hu.settleSeconds⟩, ?_⟩
    · exact .toNeedsHuman a .failed .playbookFailed rest _ rfl
    · simp only [needsHuman, schedule, remedyRank]
      omega
  | true =>
    simp only [Bool.not_true, Bool.false_eq_true, if_false]
    split_ifs with hle hmax
    · refine ⟨⟨before, _, rest, _, history_snoc hu _, books_verify _ _ _ hbooks,
        .verifyFix a rest _, hu.executedAny, hu.remediation, hu.settleSeconds⟩, ?_⟩
      simp only [verify, schedule, remedyRank]
      omega
    · omega
    · exact ⟨⟨before, _, rest, h, hu.history, hbooks, .settle a rest _ _ _, hu.executedAny,
        hu.remediation, hu.settleSeconds⟩, le_rfl⟩

theorem inLoop_afterVerify {ok : Bool} (hu : Underway P S before (some (a, .verifying)) rest h s l)
    (hpc : s.pc = .verifyFix a rest) :
    InLoop P S (s.afterVerify a rest ok)
        { l with verifications := l.verifications ++ [(a, ok)] } ∧
      remedyRank (s.afterVerify a rest ok).pc+1 ≤ remedyRank s.pc := by
  have hrank : remedyRank s.pc = 7*rest.length+3 := by rw [hpc]; rfl
  rw [hrank]
  unfold afterVerify
  cases ok with
  | false =>
    simp only [Bool.not_false, if_true]
    refine ⟨⟨before, _, rest, _, history_snoc hu _, books_call (books_unverified hu.books) rfl, ?_,
      hu.executedAny, hu.remediation, hu.settleSeconds⟩, ?_⟩
    · exact .toNeedsHuman a .unverified .verificationFailed rest _ rfl
    · simp only [needsHuman, schedule, remedyRank]
      omega
  | true =>
    simp only [Bool.not_true, Bool.false_eq_true, if_false]
    obtain ⟨hin, hle⟩ := inLoop_actionLoop (s := { s with
      executedAny := true, appliedPlaybooks := s.appliedPlaybooks ++ (truthy a.playbookId).toList })
      hu.history (books_fixed hu.books) (by simp [approvedOf]) hu.remediation hu.settleSeconds
    grind

/-- The settle windows of the playbooks are ones that a `timedelta` can hold. -/
def Holdable (P : List Action) (S : Setting) : Prop :=
  ∀ a ∈ P, resolveActionSettleSeconds a S.remediation S.settleSeconds ≤ Py.maxTimedeltaSeconds

theorem mem_of_underway {p : Progress} (hu : Underway P S before (some (a, p)) rest h s l) :
    a ∈ P := by
  rw [hu.books.plan]
  simp

theorem underway_frame {t : State} (hu : Underway P S before st rest h s l)
    (hpc : Place t.pc st rest t.executedAny) (hh : t.history = s.history)
    (he : t.executedAny = s.executedAny) (hr : t.remediation = s.remediation)
    (hi : t.input = s.input) : Underway P S before st rest h t l where
  history := hh.trans hu.history
  books := hu.books
  place := hpc
  executedAny := by rw [he]; exact hu.executedAny
  remediation := hr.trans hu.remediation
  settleSeconds := by rw [hi]; exact hu.settleSeconds

theorem inLoop_resume {t : State} {now : Instant} {a : Reply} (hset : Holdable P S)
    (hin : InLoop P S s l) (ha : a ≠ .error) (hs : s.resume now a = some t) :
    InLoop P S t (l.observe s (.reply a)) ∧ remedyRank t.pc+1 ≤ remedyRank s.pc := by
  obtain ⟨before, st, rest, h, hu⟩ := hin
  have hplace := hu.place
  cases resumed_of_resume hs with
  | createApproval aid g hpc =>
    rw [hpc] at hplace ⊢
    cases hplace with
    | createApproval x rest b =>
      exact ⟨⟨before, _, rest, _, underway_schedule hu rfl (.notifyApproval x rest aid _)
        rfl rfl rfl rfl⟩, le_rfl⟩
  | notifyApproval _ g aid hdone hpc =>
    rw [hpc] at hplace ⊢
    obtain rfl : a = .done := hdone.resolve_right ha
    cases hplace with
    | notifyApproval x rest aid b =>
      simp only [Log.observe, hpc]
      exact ⟨⟨before, _, rest, h, underway_frame hu (.waitDecision x rest aid _ _)
        rfl rfl rfl rfl⟩, le_rfl⟩
  | recordDecision g aid d hpc =>
    rw [hpc] at hplace
    cases hplace with
    | recordDecision x rest aid d b =>
      simp only [Log.observe, hpc]
      rw [← hpc]
      exact inLoop_afterDecision hu hpc
  | executePlaybook ok exec x rest hpc =>
    rw [hpc] at hplace
    cases hplace with
    | executePlaybook x rest b =>
      simp only [Log.observe, hpc]
      rw [← hpc]
      exact inLoop_afterExecute (hset x (mem_of_underway hu)) hu hpc
  | verifyFix ok x rest hpc =>
    rw [hpc] at hplace
    cases hplace with
    | verifyFix x rest b =>
      simp only [Log.observe, hpc]
      rw [← hpc]
      exact inLoop_afterVerify hu hpc
  | closeResolved hpc =>
    rw [hpc] at hplace ⊢
    generalize hb : s.executedAny = b at hplace
    cases hplace with
    | closeResolved =>
      simp only [Log.observe, hpc]
      refine ⟨⟨before, _, [], _, underway_schedule hu rfl ?_ rfl rfl rfl rfl⟩, le_rfl⟩
      rw [hb]
      exact .notifyResolved
  | closeWithSummary reason hpc =>
    rw [hpc] at hplace ⊢
    generalize hb : s.executedAny = b at hplace
    cases hplace with
    | closeWithSummary reason =>
      simp only [Log.observe, hpc]
      exact ⟨⟨before, _, [], h, underway_frame hu (.closedSummary reason) rfl hb.symm rfl rfl⟩,
        Nat.le_succ _⟩
  | toNeedsHuman reason hpc =>
    rw [hpc] at hplace ⊢
    cases hplace with
    | toNeedsHuman x p reason rest b hp =>
      simp only [Log.observe, hpc]
      exact ⟨⟨before, _, rest, _, underway_schedule hu rfl
        (.notifyNeedsHuman x p reason rest _ hp) rfl rfl rfl rfl⟩, le_rfl⟩
  | notified _ o hdone hpc =>
    obtain rfl : a = .done := hdone.resolve_right ha
    obtain ⟨reason, hpc, rfl⟩ | ⟨reason, hpc, rfl⟩ | ⟨hpc, rfl⟩ := hpc
    · rw [hpc] at hplace
      cases hplace
    · rw [hpc] at hplace ⊢
      cases hplace with
      | notifyNeedsHuman x p reason rest b hp =>
        simp only [Log.observe, hpc]
        exact ⟨⟨before, _, rest, h, underway_frame hu (.needsHuman x p reason rest _ hp)
          rfl rfl rfl rfl⟩, le_rfl⟩
    · rw [hpc] at hplace ⊢
      generalize hb : s.executedAny = b at hplace
      cases hplace with
      | notifyResolved =>
        simp only [Log.observe, hpc]
        exact ⟨⟨before, _, [], h, underway_frame hu .resolved rfl hb.symm rfl rfl⟩, le_rfl⟩
  | raised _ => exact absurd rfl ha
  | _ =>
    rename_i hpc
    rw [hpc] at hplace
    cases hplace

end Loop

variable {P : List Action} {S : Setting}

/-- Every event but a failure keeps the loop going, and the moves of the
coroutine bring it nearer to its end. -/
theorem inLoop_step (hset : Holdable P S) {x y : Observed} {e : Event} (he : e.Smooth)
    (hin : InLoop P S x.run.wf x.log) (h : observed.step x e = some y) :
    InLoop P S y.run.wf y.log ∧
      remedyRank y.run.wf.pc + (if e.isMove then 1 else 0) ≤ remedyRank x.run.wf.pc := by
  obtain ⟨r, hr, rfl⟩ := Option.map_eq_some_iff.mp h
  obtain ⟨sig, rfl, -, rfl⟩ | ⟨a, s, rfl, hs, rfl⟩ | ⟨s, rfl, hs, rfl⟩ | ⟨s, rfl, hs, rfl⟩ |
    ⟨t, rfl, -, rfl⟩ := step_cases hr
  · obtain ⟨p, a, b, d, hs, -⟩ := signal_frame x.run.wf sig
    dsimp only
    rw [hs]
    obtain ⟨before, st, rest, h, hu⟩ := hin
    exact ⟨⟨before, st, rest, h, underway_frame hu hu.place rfl rfl rfl rfl⟩, le_rfl⟩
  · apply inLoop_resume hset hin _ hs
    rintro rfl
    cases he
  · obtain ⟨before, st, rest, h, hu⟩ := hin
    have hplace := hu.place
    obtain ⟨round, hpc, -⟩ | ⟨g, aid, timer, d, hpc, -, -, rfl⟩ := wake_cases hs
    · rw [hpc] at hplace
      cases hplace
    · rw [hpc] at hplace ⊢
      cases hplace with
      | waitDecision a rest aid t b =>
        exact ⟨⟨before, _, rest, _, underway_schedule hu rfl (.recordDecision a rest aid _ _)
          rfl rfl rfl rfl⟩, le_rfl⟩
  · obtain ⟨before, st, rest, h, hu⟩ := hin
    have hplace := hu.place
    obtain ⟨g, aid, timer, hpc, -, -, rfl⟩ | ⟨action, rest, exec, timer, hpc, -, rfl⟩ :=
      timer_cases hs
    · rw [hpc] at hplace ⊢
      cases hplace with
      | waitDecision a rest aid t b =>
        exact ⟨⟨before, _, rest, _, underway_schedule hu rfl (.recordDecision a rest aid _ _)
          rfl rfl rfl rfl⟩, le_rfl⟩
    · rw [hpc] at hplace ⊢
      cases hplace with
      | settle a rest exec t b =>
        exact ⟨⟨before, _, rest, _, history_snoc hu _, books_verify _ _ _ hu.books,
          .verifyFix action rest _, hu.executedAny, hu.remediation, hu.settleSeconds⟩, le_rfl⟩
  · exact ⟨hin, le_rfl⟩


def Unplanned (s : State) : Prop := phaseOf s.pc ≠ .ended ∨ s.pc = .planRemediation

/-- No playbook is run on the way from `s` to `t`. -/
structure Unremedied (s t : State) : Prop where
  executedAny : t.executedAny = s.executedAny
  executed : executedCalls t.history = executedCalls s.history

variable {s t : State}

theorem unremedied_frame (he : t.executedAny = s.executedAny) (hh : t.history = s.history) :
    Unremedied s t :=
  ⟨he, by rw [hh]⟩

theorem unremedied_schedule {s u : State} (c : Call) (pc : Pc) (hc : executedCalls [c] = [])
    (he : u.executedAny = s.executedAny) (hh : u.history = s.history) :
    Unremedied s (u.schedule c pc) := by
  refine ⟨he, ?_⟩
  change executedCalls (u.history ++ [c]) = _
  rw [hh]
  unfold executedCalls at hc ⊢
  grind

theorem unremedied_enterRound {s u : State} (now : Instant) (round : ℤ)
    (he : u.executedAny = s.executedAny) (hh : u.history = s.history) :
    Unremedied s (u.enterRound now round) := by
  unfold enterRound checkBudget
  split_ifs
  all_goals first
    | exact unremedied_schedule _ _ rfl he hh
    | exact unremedied_frame he hh

theorem unremedied_rawLoop {s u : State} (round : ℤ) (report : Report)
    (reqs : List RawCommandRequest) (he : u.executedAny = s.executedAny)
    (hh : u.history = s.history) : Unremedied s (u.rawLoop round report reqs) := by
  cases reqs with
  | cons req rest => exact unremedied_schedule _ _ rfl he hh
  | nil =>
    unfold rawLoop endRound
    split_ifs
    all_goals exact unremedied_schedule _ _ rfl he hh

variable {now : Instant}

theorem unremedied_resume {a : Reply} (hpc : Unplanned s) (h : s.resume now a = some t) :
    Unremedied s t ∨ s.pc = .planRemediation := by
  have habs {pc : Pc} (hs : s.pc = pc) (he : phaseOf pc = .ended) (hp : pc ≠ .planRemediation) :
      False := by
    rcases hpc with hpc | hpc
    · grind
    · grind
  cases resumed_of_resume h with
  | createCase c _ =>
    left
    unfold afterCreateCase
    dsimp only
    split_ifs
    all_goals exact unremedied_schedule _ _ rfl rfl rfl
  | planInitial p _ => grind [afterPlanInitial, unremedied_frame, unremedied_enterRound]
  | getSpend usd round _ =>
    left
    unfold afterGetSpend
    split_ifs
    · exact unremedied_schedule _ _ rfl rfl rfl
    · split
      · exact unremedied_frame rfl rfl
      · rename_i u hu
        obtain ⟨b, r, c, d, o, rfl⟩ := applyOverride_frame s now hu
        exact unremedied_schedule _ _ rfl rfl rfl
  | collect es round spent _ => exact .inl (unremedied_schedule _ _ rfl rfl rfl)
  | analyze r round _ => exact .inl (unremedied_schedule _ _ rfl rfl rfl)
  | recordIteration round report _ => exact .inl (unremedied_rawLoop _ _ _ rfl rfl)
  | validateRaw ok round report req rest _ =>
    left
    split_ifs
    · exact unremedied_schedule _ _ rfl rfl rfl
    · exact unremedied_rawLoop _ _ _ rfl rfl
  | createApproval aid g _ => exact .inl (unremedied_schedule _ _ rfl rfl rfl)
  | notifyApproval _ g aid _ _ => exact .inl (unremedied_frame rfl rfl)
  | recordDecision g aid d hg =>
    left
    cases g with
    | raw round report req rest =>
      unfold afterDecision
      dsimp only
      split_ifs
      · exact unremedied_schedule _ _ rfl rfl rfl
      · exact unremedied_rawLoop _ _ _ rfl rfl
    | remediation action rest => exact (habs hg rfl (by simp)).elim
  | runRaw es round report rest _ => exact .inl (unremedied_rawLoop _ _ _ rfl rfl)
  | planNext p round _ => exact .inl (unremedied_enterRound _ _ rfl rfl)
  | planRemediation r hp => exact .inr hp
  | notified a o ha hn =>
    obtain ⟨_, hn, -⟩ | ⟨_, hn, -⟩ | ⟨hn, -⟩ := hn
    all_goals exact (habs hn rfl (by simp)).elim
  | raised _ => exact .inl (unremedied_frame rfl rfl)
  | _ =>
    rename_i hn
    exact (habs hn rfl (by simp)).elim

def NotBegun (s : State) : Prop :=
  Unplanned s → s.executedAny = false ∧ executedCalls s.history = []

theorem notBegun_of_unremedied (hs : NotBegun s) (he : Unplanned s) (hu : Unremedied s t) :
    NotBegun t := by
  intro _
  rw [hu.executedAny, hu.executed]
  exact hs he

theorem notBegun_of_ended {t : State} (ht : phaseOf t.pc = .ended ∧ t.pc ≠ .planRemediation) :
    NotBegun t := by
  rintro (h | h)
  · exact absurd ht.1 h
  · exact absurd h ht.2

theorem notBegun_resume {a : Reply} (hs : NotBegun s) (h : s.resume now a = some t) :
    NotBegun t := by
  by_cases hover : phaseOf s.pc = .ended
  · exact notBegun_of_ended (ended_resume hover h)
  · rcases unremedied_resume (.inl hover) h with hu | hp
    · exact notBegun_of_unremedied hs (.inl hover) hu
    · exact absurd (by rw [hp]; rfl) hover

theorem notBegun_recordDecision {s : State} {g : Gate} {aid : Uuid} {timer : Instant}
    (hs : NotBegun s) (hpc : s.pc = .waitDecision g aid timer) (d : DecisionDict)
    (isTimeout : Bool) : NotBegun (s.recordDecision g aid d isTimeout) := by
  cases g with
  | raw round report req rest =>
    exact notBegun_of_unremedied hs (.inl (by rw [hpc]; simp [phaseOf]))
      (unremedied_schedule _ _ rfl rfl rfl)
  | remediation action rest =>
    exact notBegun_of_ended ⟨rfl, by simp [recordDecision, schedule]⟩

theorem notBegun_wake (hs : NotBegun s) (h : s.wake now = some t) : NotBegun t := by
  obtain ⟨round, hpc, -, rfl⟩ | ⟨g, aid, timer, d, hpc, -, -, rfl⟩ := wake_cases h
  · apply notBegun_of_unremedied hs (.inl (by rw [hpc]; simp [phaseOf]))
    unfold checkBudget
    split_ifs
    all_goals exact unremedied_schedule _ _ rfl rfl rfl
  · exact notBegun_recordDecision hs hpc _ _

theorem notBegun_timer (hs : NotBegun s) (h : s.timer now = some t) : NotBegun t := by
  obtain ⟨g, aid, timer, hpc, -, -, rfl⟩ | ⟨action, rest, exec, timer, -, -, rfl⟩ :=
    timer_cases h
  · exact notBegun_recordDecision hs hpc _ _
  · exact notBegun_of_ended ⟨rfl, by simp [verify, schedule]⟩

theorem notBegun_reachable (r : Run) (h : runs.Reachable r) : NotBegun r.wf := by
  apply reachable_invariant runs (fun r => NotBegun r.wf) _ _ r h
  · rintro r ⟨input, hr⟩
    rw [hr]
    exact fun _ => ⟨rfl, rfl⟩
  · intro r e r' hr hstep
    obtain ⟨sig, -, -, rfl⟩ | ⟨a, s, -, hs, rfl⟩ | ⟨s, -, hs, rfl⟩ | ⟨s, -, hs, rfl⟩ |
      ⟨t, -, -, rfl⟩ := step_cases hstep
    · obtain ⟨p, a, b, d, hs, -⟩ := signal_frame r.wf sig
      change NotBegun (r.wf.signal sig)
      rw [hs]
      exact hr
    · exact notBegun_resume hr hs
    · exact notBegun_wake hr hs
    · exact notBegun_timer hr hs
    · exact hr

theorem inLoop_afterPlanRemediation (s : State) (rem : Remediation)
    (hx : s.executedAny = false) :
    InLoop (playbooks rem.proposedActions) ⟨s.history, s.remediation, s.input.settleSeconds⟩
        (s.afterPlanRemediation rem) ⟨[], [], []⟩ ∧
      remedyRank (s.afterPlanRemediation rem).pc ≤
        7*(playbooks rem.proposedActions).length+2 := by
  have hbooks (P : List Action) : Books P [] none P [] ⟨[], [], []⟩ := ⟨rfl, rfl⟩
  have hnone : s.executedAny = true ↔ approvedOf [] ≠ [] := by simp [hx, approvedOf]
  unfold afterPlanRemediation
  dsimp only
  split_ifs with hall
  · -- nothing but recommendations: there is no playbook to ask about
    have hempty : playbooks rem.proposedActions = [] := by
      rw [playbooks, filter_eq_nil_iff]
      intro a ha
      have hk := all_eq_true.mp hall a ha
      simp only [mem_cons, not_mem_nil, or_false, decide_eq_true_eq] at hk ⊢
      rintro hp
      simp [hp] at hk
    rw [hempty]
    refine ⟨⟨[], none, [], _, rfl, books_call (hbooks []) rfl, ?_, hnone, rfl, rfl⟩, le_rfl⟩
    change Place (.closeWithSummary .summaryOnly) none [] s.executedAny
    rw [hx]
    exact .closeWithSummary _
  · exact inLoop_actionLoop (append_nil _).symm (hbooks _) hnone rfl rfl

def CanGoOn (P : List Action) (S : Setting) (x : Observed) : Prop :=
  ∃ es y, (∀ e ∈ es, e.Smooth) ∧ observed.run x es = some y ∧
    InLoop P S y.run.wf y.log ∧ remedyRank y.run.wf.pc < remedyRank x.run.wf.pc

theorem go_one (hset : Holdable P S) {x : Observed} {r : Run} {e : Event}
    (hin : InLoop P S x.run.wf x.log) (he : e.Smooth) (hm : e.isMove = true)
    (h : runs.step x.run e = some r) :
    CanGoOn P S x := by
  have hstep : observed.step x e = some ⟨r, x.log.observe x.run.wf e⟩ := by
    change (runs.step x.run e).map _ = _
    rw [h]
    rfl
  obtain ⟨hy, hrank⟩ := inLoop_step hset he hin hstep
  rw [hm] at hrank
  refine ⟨[e], _, ?_, ?_, hy, hrank⟩
  · grind
  · change (observed.step x e).bind _ = _
    rw [hstep]
    rfl

theorem go_timer (hset : Holdable P S) {x : Observed} {t : Instant}
    (hin : InLoop P S x.run.wf x.log) (ht : ∀ now, t ≤ now → ∃ s, x.run.wf.timer now = some s) :
    CanGoOn P S x := by
  obtain ⟨s, hs⟩ := ht (max x.run.now t) (le_max_right _ _)
  have htick : observed.step x (.tick (max x.run.now t)) =
      some ⟨{ x.run with now := max x.run.now t }, x.log⟩ := by
    change (runs.step x.run _).map _ = _
    rw [step_tick (le_max_left _ _)]
    rfl
  have hsmooth : (Event.tick (max x.run.now t)).Smooth := rfl
  have hfires : Event.timer.Smooth := rfl
  have hwait := (inLoop_step hset hsmooth hin htick).1
  obtain ⟨es, y, hok, hr, hy, hlt⟩ := go_one hset hwait hfires rfl
    (step_timer (r := { x.run with now := max x.run.now t }) hs)
  refine ⟨.tick (max x.run.now t) :: es, y, ?_, ?_, hy, hlt⟩
  · grind
  · change (observed.step x _).bind _ = _
    rw [htick]
    exact hr

theorem go_on (hset : Holdable P S) (x : Observed) (hin : InLoop P S x.run.wf x.log)
    (hopen : ¬ x.run.wf.closed = true) :
    CanGoOn P S x := by
  obtain ⟨before, st, rest, h, hu⟩ := id hin
  have hplace := hu.place
  generalize x.run.wf.executedAny = b at hplace
  generalize hpc : x.run.wf.pc = pc at hplace
  -- an activity that is awaited can answer
  have reply {a : Reply} (ha : (Event.reply a).Smooth)
      (hs : (x.run.wf.resume x.run.now a).isSome) : CanGoOn P S x := by
    obtain ⟨s, hs⟩ := Option.isSome_iff_exists.mp hs
    exact go_one hset hin ha rfl (step_reply hs)
  have ended (o : Outcome) (ho : x.run.wf.pc = .returned o) : False := by
    simp [closed, ho] at hopen
  cases hplace with
  | createApproval a rest b =>
    exact reply (a := .approval 0) rfl (by simp [resume, hpc])
  | notifyApproval a rest aid b =>
    exact reply (a := .done) rfl (by simp [resume, afterNotify, hpc])
  | waitDecision a rest aid t b =>
    cases hd : x.run.wf.decided aid with
    | true =>
      have hw : (x.run.wf.wake x.run.now).isSome := by
        unfold decided at hd
        unfold wake
        rw [hpc]
        split at hd
        · grind
        · cases hd
      obtain ⟨s, hs⟩ := Option.isSome_iff_exists.mp hw
      have hwake : Event.wake.Smooth := rfl
      exact go_one hset hin hwake rfl (step_wake hs)
    | false =>
      apply go_timer hset hin (t := t)
      intro now hnow
      exact ⟨_, by simp only [timer, hpc, hnow, hd, and_self, if_true]; rfl⟩
  | recordDecision a rest aid d b =>
    exact reply (a := .done) rfl (by simp [resume, hpc])
  | executePlaybook a rest b =>
    exact reply (a := .executed true none) rfl (by simp [resume, hpc])
  | settle a rest exec t b =>
    apply go_timer hset hin (t := t)
    intro now hnow
    exact ⟨_, by simp only [timer, hpc, hnow, if_true]; rfl⟩
  | verifyFix a rest b =>
    exact reply (a := .verified true) rfl (by simp [resume, hpc])
  | toNeedsHuman a p reason rest b hp =>
    exact reply (a := .done) rfl (by simp [resume, hpc])
  | notifyNeedsHuman a p reason rest b hp =>
    exact reply (a := .done) rfl (by simp [resume, afterNotify, hpc])
  | closeResolved =>
    exact reply (a := .done) rfl (by simp [resume, hpc])
  | notifyResolved =>
    exact reply (a := .done) rfl (by simp [resume, afterNotify, hpc])
  | closeWithSummary reason =>
    exact reply (a := .done) rfl (by simp [resume, hpc])
  | needsHuman a p reason rest b hp => grind
  | resolved => grind
  | closedSummary reason => grind

/-- What the end of a run says about the playbooks `P`, given the calls and
answers since they were planned. -/
structure Verdict (P : List Action) (h : List Call) (l : Log) (o : Outcome) : Prop where
  resolved : o = .resolved ↔ approvedOf l.decisions ≠ [] ∧
    l.executions = okay (approvedOf l.decisions) ∧
    l.verifications = okay (approvedOf l.decisions)
  playbook_failed : o = .needsHuman .playbookFailed ↔
    ∃ a ∈ approvedOf l.decisions, (a, false) ∈ l.executions
  verification_failed : o = .needsHuman .verificationFailed ↔
    ∃ a ∈ approvedOf l.decisions, (a, false) ∈ l.verifications
  otherwise : o ≠ .resolved → o ≠ .needsHuman .playbookFailed →
    o ≠ .needsHuman .verificationFailed → ∃ reason, o = .closedSummary reason
  /-- The action that failed is the last one to be asked about, executed or
  verified. -/
  stopped : ∀ reason, o = .needsHuman reason → ∃ before a p after, failureOf p = some reason ∧
    P = before.map Prod.fst ++ a :: after ∧
    account h l = (ofDone before).add (.ofStage (some (a, p)))
  /-- Otherwise all of them were asked about, and those that were approved were
  executed and verified. -/
  completed : (∀ reason, o ≠ .needsHuman reason) → P = l.decisions.map Prod.fst ∧
    account h l = ofDone l.decisions

section Verdict

variable {P : List Action} {before : List (Action × Option Decision)} {rest : List Action}
  {h : List Call} {l : Log}

theorem not_mem_okay (a : Action) (as : List Action) : (a, false) ∉ okay as := by
  simp [okay]

theorem approvedOf_snoc (before : List (Action × Option Decision)) (a : Action) :
    approvedOf (before ++ [(a, some .approved)]) = approvedOf before ++ [a] := by
  simp [approvedOf]

theorem okay_snoc (as : List Action) (a : Action) :
    okay (as ++ [a]) = okay as ++ [(a, true)] := by
  simp [okay]

theorem verdict_failed {a : Action} (hb : Books P before (some (a, .failed)) rest h l) :
    Verdict P h l (.needsHuman .playbookFailed) := by
  have hd : l.decisions = before ++ [(a, some .approved)] :=
    congrArg decisions hb.balance
  have he : l.executions = okay (approvedOf before) ++ [(a, false)] :=
    congrArg executions hb.balance
  have hv : l.verifications = okay (approvedOf before) :=
    (congrArg verifications hb.balance).trans (append_nil _)
  constructor
  · rw [hd, he, approvedOf_snoc, okay_snoc]
    simp
  · rw [hd, he, approvedOf_snoc]
    simp
  · rw [hv]
    simp [not_mem_okay]
  · grind
  · rintro reason ⟨⟩
    exact ⟨before, a, .failed, rest, rfl, hb.plan, hb.balance⟩
  · grind

theorem verdict_unverified {a : Action}
    (hb : Books P before (some (a, .unverified)) rest h l) :
    Verdict P h l (.needsHuman .verificationFailed) := by
  have hd : l.decisions = before ++ [(a, some .approved)] :=
    congrArg decisions hb.balance
  have he : l.executions = okay (approvedOf before) ++ [(a, true)] :=
    congrArg executions hb.balance
  have hv : l.verifications = okay (approvedOf before) ++ [(a, false)] :=
    congrArg verifications hb.balance
  constructor
  · rw [hd, hv, approvedOf_snoc, okay_snoc]
    simp
  · rw [he, ← okay_snoc]
    simp [not_mem_okay]
  · rw [hd, hv, approvedOf_snoc]
    simp
  · grind
  · rintro reason ⟨⟩
    exact ⟨before, a, .unverified, rest, rfl, hb.plan, hb.balance⟩
  · grind

theorem verdict_completed {o : Outcome} (hb : Books P before none [] h l)
    (hres : o = .resolved ↔ approvedOf before ≠ [])
    (ho : o = .resolved ∨ ∃ reason, o = .closedSummary reason) : Verdict P h l o := by
  have hbal : account h l = ofDone before := by
    rw [hb.balance]
    simp [add, ofStage, ofDone]
  have hd : l.decisions = before := congrArg decisions hbal
  have he : l.executions = okay (approvedOf before) := congrArg executions hbal
  have hv : l.verifications = okay (approvedOf before) := congrArg verifications hbal
  have hno (reason : Reason) : o ≠ .needsHuman reason := by
    rcases ho with rfl | ⟨_, rfl⟩
    · simp
    · simp
  constructor
  · grind
  · rw [he]
    simp [hno, not_mem_okay]
  · rw [hv]
    simp [hno, not_mem_okay]
  · grind
  · grind
  · intro _
    rw [hd]
    exact ⟨hb.plan.trans (append_nil _), hbal⟩

theorem verdict_of_closed {S : Setting} {s : State} (hin : InLoop P S s l)
    (hc : s.closed = true) :
    ∃ o, s.pc = .returned o ∧ Verdict P (s.history.drop S.history.length) l o := by
  obtain ⟨before, st, rest, h, hu⟩ := hin
  have hsince : s.history.drop S.history.length = h := by
    rw [hu.history, drop_left]
  have hplace := hu.place
  generalize hx : s.executedAny = b at hplace
  generalize hpc : s.pc = pc at hplace
  have hx' := hu.executedAny
  rw [hsince]
  cases hplace with
  | needsHuman a p reason rest b hp =>
    refine ⟨_, rfl, ?_⟩
    cases p with
    | failed =>
      cases hp
      exact verdict_failed hu.books
    | unverified =>
      cases hp
      exact verdict_unverified hu.books
    | _ => cases hp
  | resolved =>
    refine ⟨_, rfl, verdict_completed hu.books ?_ (.inl rfl)⟩
    grind
  | closedSummary reason =>
    refine ⟨_, rfl, verdict_completed hu.books ?_ (.inr ⟨reason, rfl⟩)⟩
    grind
  | _ => simp [closed, hpc] at hc

theorem executed_subset {S : Setting} {s : State} (hin : InLoop P S s l)
    (hs : executedCalls S.history = []) : ∀ a ∈ executedCalls s.history, a ∈ P := by
  obtain ⟨before, st, rest, h, hu⟩ := hin
  have hbal : executedCalls h = approvedOf before ++ (ofStage st).executed :=
    congrArg executed hu.books.balance
  have hall : executedCalls s.history = executedCalls h := by
    rw [hu.history]
    unfold executedCalls at hs ⊢
    grind
  intro a ha
  rw [hall, hbal, mem_append] at ha
  rw [hu.books.plan, mem_append, mem_append]
  rcases ha with ha | ha
  · left
    obtain ⟨x, hx, rfl⟩ := mem_map.mp ha
    grind
  · right
    left
    rcases st with _ | ⟨b, p⟩
    · cases ha
    · cases p
      all_goals simp_all [ofStage]

end Verdict

/-- From the plan of the remediation on, a run in which no activity fails makes a bounded number
of moves, can always be brought to its end, returns there, and returns what the decisions and
results say. -/
theorem resolved_gate (r : Run) (hr : runs.Reachable r) (hpc : r.wf.pc = .planRemediation)
    (rem : Remediation)
    (hset : Holdable (playbooks rem.proposedActions)
      ⟨r.wf.history, r.wf.remediation, r.wf.input.settleSeconds⟩)
    (es : List Event) (hes : ∀ e ∈ es, e.Smooth) (x : Observed)
    (hx : observed.run ⟨r, ⟨[], [], []⟩⟩ (.reply (.remediation rem) :: es) = some x) :
    es.countP Event.isMove ≤ 7*(playbooks rem.proposedActions).length+2 ∧
    (∃ fs y, (∀ e ∈ fs, e.Smooth) ∧ observed.run x fs = some y ∧ y.run.wf.closed = true) ∧
    (x.run.wf.closed = true → ∃ o, x.run.wf.pc = .returned o ∧
      Verdict (playbooks rem.proposedActions) (x.run.wf.history.drop r.wf.history.length)
        x.log o) ∧
    ∀ a ∈ executedCalls x.run.wf.history, a.kind = some "playbook" := by
  obtain ⟨hany, hexec⟩ := notBegun_reachable r hr (.inr hpc)
  obtain ⟨hstart, hrank⟩ := inLoop_afterPlanRemediation r.wf rem hany
  have hfirst : observed.step ⟨r, ⟨[], [], []⟩⟩ (.reply (.remediation rem)) =
      some ⟨{ r with wf := r.wf.afterPlanRemediation rem }, ⟨[], [], []⟩⟩ := by
    change (runs.step r _).map _ = _
    rw [step_reply (s := r.wf.afterPlanRemediation rem) (by simp only [resume, hpc])]
    rfl
  change (observed.step _ _).bind _ = _ at hx
  rw [hfirst] at hx
  have hin : InLoop _ _ x.run.wf x.log :=
    run_invariant observed Event.Smooth (fun y => InLoop _ _ y.run.wf y.log)
      (fun s e t he hs ht => (inLoop_step hset he hs ht).1) es _ x hes hstart hx
  refine ⟨?_, ?_, fun hc => verdict_of_closed hin hc, ?_⟩
  · have hbound := run_rank observed Event.Smooth Event.isMove (fun y => InLoop _ _ y.run.wf y.log)
      (fun y => remedyRank y.run.wf.pc) (fun s e t he hs ht => inLoop_step hset he hs ht)
      es _ x hes hstart hx
    dsimp only at hbound
    omega
  · obtain ⟨fs, y, hok, hrun, -, hdone⟩ := run_to_end observed Event.Smooth
      (fun y => InLoop _ _ y.run.wf y.log) (fun y => y.run.wf.closed = true)
      (fun y => remedyRank y.run.wf.pc) (fun y hy hd => go_on hset y hy hd) x hin
    exact ⟨fs, y, hok, hrun, hdone⟩
  · intro a ha
    have hmem := executed_subset hin hexec a ha
    simpa using (mem_filter.mp hmem).2

def sampleRemediation : Remediation :=
  ⟨[⟨some "manual_recommendation", none, .null, none, none, [], none, false, []⟩, sampleAction,
    sampleAction], none⟩

def sampleFix : List Event :=
  [.reply (.approval 9), .reply .done,
    .signal (.approvalDecided ⟨some 9, some .approved, none, none⟩), .wake, .reply .done,
    .reply (.executed true (some 5)), .reply (.verified true), .reply (.approval 10),
    .reply .done, .signal (.approvalDecided ⟨some 10, some .denied, none, none⟩), .wake,
    .reply .done, .reply .done, .reply .done]

theorem resolved_gate_sampleFix :
    ∃ r x, runs.Reachable r ∧ r.wf.pc = .planRemediation ∧
      observed.run ⟨r, ⟨[], [], []⟩⟩ (.reply (.remediation sampleRemediation) :: sampleFix) =
        some x ∧ x.run.wf.pc = .returned .resolved ∧
      ∃ o, x.run.wf.pc = .returned o ∧ Verdict (playbooks sampleRemediation.proposedActions)
        (x.run.wf.history.drop r.wf.history.length) x.log o := by
  have hr := run_reachable runs (sampleGate.take 6) sampleStart _ (.init ⟨sampleInput, rfl⟩) rfl
  refine ⟨_, _, hr, rfl, rfl, rfl, ?_⟩
  apply (resolved_gate _ hr rfl sampleRemediation _ sampleFix _ _ rfl).2.2.1 rfl
  · intro a ha
    obtain rfl : a = sampleAction := by
      simpa [playbooks, sampleRemediation, sampleAction] using ha
    decide
  · simp [sampleFix, Event.Smooth, Event.isError]

/-- A playbook that is approved and executed with success, with a settle window
that no `timedelta` can hold: the workflow task fails behind it, and the run
never ends. -/
theorem settle_window_overflows :
    ∃ r x, runs.Reachable r ∧ r.wf.pc = .planRemediation ∧
      observed.run ⟨r, ⟨[], [], []⟩⟩
        [.reply (.remediation ⟨[{ sampleAction with settleSeconds := some 86400000000000 }],
            none⟩), .reply (.approval 9), .reply .done,
          .signal (.approvalDecided ⟨some 9, some .approved, none, none⟩), .wake, .reply .done,
          .reply (.executed true (some 5))] = some x ∧
      ∀ es y, observed.run x es = some y → y.run.wf.closed = false := by
  have hr := run_reachable runs (sampleGate.take 6) sampleStart _ (.init ⟨sampleInput, rfl⟩) rfl
  refine ⟨_, _, hr, rfl, rfl, ?_⟩
  intro es y hy
  have hstuck : y.run.wf.pc = .stuck := by
    apply run_invariant observed (fun _ => True) (fun x => x.run.wf.pc = .stuck) _ es _ y
      (fun _ _ => trivial) _ hy
    · intro x e y _ hx hs
      obtain ⟨r, hr, rfl⟩ := Option.map_eq_some_iff.mp hs
      exact stuck_step hx hr
    · rfl
  simp only [closed, hstuck]

end DbAgent.WorkflowRuns
