import DbAgent.WorkflowProgress

/-! Runs of `InvestigationWorkflow` in which signals, activity results and the
clock come in any order. -/
namespace DbAgent.WorkflowRuns

open Transition Workflow State

structure Run where
  wf : State
  now : Instant

inductive Event where
  | signal (sig : Signal)
  | reply (a : Reply)
  | wake
  | timer
  | tick (t : Instant)

def Run.step (r : Run) : Event → Option Run
  | .signal sig => if r.wf.closed then none else some { r with wf := r.wf.signal sig }
  | .reply a => (r.wf.resume r.now a).map (fun s => { r with wf := s })
  | .wake => (r.wf.wake r.now).map (fun s => { r with wf := s })
  | .timer => (r.wf.timer r.now).map (fun s => { r with wf := s })
  | .tick t => if r.now ≤ t then some { r with now := t } else none

def runs : System Run Event where
  init r := ∃ input, r.wf = start input
  step := Run.step

def Event.isError : Event → Bool
  | .reply .error => true
  | _ => false

def Event.isMove : Event → Bool
  | .reply _ => true
  | .wake => true
  | .timer => true
  | _ => false

def Event.Smooth (e : Event) : Prop := e.isError = false

def writes (s : State) : ℕ := s.history.countP Call.isWrite

variable {r r' : Run} {e : Event}

/-- What one event does to the state of the workflow: a signal is handled, the
coroutine goes on, or time passes. -/
theorem step_cases (h : runs.step r e = some r') :
    (∃ sig, e = .signal sig ∧ r.wf.closed = false ∧ r' = { r with wf := r.wf.signal sig }) ∨
    (∃ a s, e = .reply a ∧ r.wf.resume r.now a = some s ∧ r' = { r with wf := s }) ∨
    (∃ s, e = .wake ∧ r.wf.wake r.now = some s ∧ r' = { r with wf := s }) ∨
    (∃ s, e = .timer ∧ r.wf.timer r.now = some s ∧ r' = { r with wf := s }) ∨
    ∃ t, e = .tick t ∧ r.now ≤ t ∧ r' = { r with now := t } := by
  change r.step e = some r' at h
  cases e with
  | signal sig => grind [Run.step]
  | reply a =>
    obtain ⟨s, hs, rfl⟩ := Option.map_eq_some_iff.mp h
    exact .inr (.inl ⟨a, s, rfl, hs, rfl⟩)
  | wake =>
    obtain ⟨s, hs, rfl⟩ := Option.map_eq_some_iff.mp h
    grind
  | timer =>
    obtain ⟨s, hs, rfl⟩ := Option.map_eq_some_iff.mp h
    grind
  | tick t => grind [Run.step]

variable {a : Reply}

theorem step_reply {r : Run} {s : State} (h : r.wf.resume r.now a = some s) :
    runs.step r (.reply a) = some { r with wf := s } := by
  change (r.wf.resume r.now a).map _ = _
  rw [h]
  rfl

theorem step_wake {r : Run} {s : State} (h : r.wf.wake r.now = some s) :
    runs.step r .wake = some { r with wf := s } := by
  change (r.wf.wake r.now).map _ = _
  rw [h]
  rfl

theorem step_timer {r : Run} {s : State} (h : r.wf.timer r.now = some s) :
    runs.step r .timer = some { r with wf := s } := by
  change (r.wf.timer r.now).map _ = _
  rw [h]
  rfl

theorem step_tick {r : Run} {t : Instant} (h : r.now ≤ t) :
    runs.step r (.tick t) = some { r with now := t } :=
  if_pos h

theorem step_signal {r : Run} (sig : Signal) (h : r.wf.closed = false) :
    runs.step r (.signal sig) = some { r with wf := r.wf.signal sig } := by
  change (if r.wf.closed then _ else _) = _
  rw [h]
  rfl

/-- A signal handler only writes the four fields that signals are kept in, and
none takes an abort back. -/
theorem signal_frame (s : State) (sig : Signal) :
    ∃ paused aborted override decision, s.signal sig = { s with
      paused := paused, aborted := aborted, budgetOverride := override,
      approvalDecision := decision } ∧ (s.aborted = true → aborted = true) := by
  cases sig with
  | pause =>
    simp only [signal]
    split_ifs
    · grind
    · simp
  | resume => exact ⟨false, s.aborted, s.budgetOverride, s.approvalDecision, rfl, id⟩
  | abort =>
    simp only [signal]
    split_ifs
    · grind
    · simp
  | adjustBudget b =>
    simp only [signal]
    split_ifs
    · grind
    · grind
  | approvalDecided d =>
    have hkept : ∃ decision, s.signal (.approvalDecided d) =
        { s with approvalDecision := decision } := by
      simp only [signal]
      split
      · split_ifs
        · exact ⟨s.approvalDecision, rfl⟩
        · exact ⟨some d, rfl⟩
      · exact ⟨some d, rfl⟩
    grind

def fallible : Pc → Bool
  | .waitPaused _ => false
  | .waitDecision _ _ _ => false
  | .settle _ _ _ _ => false
  | .returned _ => false
  | .raised => false
  | .stuck => false
  | .notifyApproval _ _ => false
  | .notifyRejected _ => false
  | .notifyNeedsHuman _ => false
  | .notifyResolved => false
  | _ => true

/-- What the result of an activity can make of a run, one case for each awaited
activity and one for the failure of any of them. -/
inductive Resumed (s : State) (now : Instant) : Reply → State → Prop
  | createCase (c : Case) (hpc : s.pc = .createCase) :
      Resumed s now (.case c) (s.afterCreateCase c)
  | rejectCase (reason : String) (hpc : s.pc = .rejectCase reason) :
      Resumed s now .done (s.afterReject reason)
  | planInitial (p : Value) (hpc : s.pc = .planInitial) :
      Resumed s now (.plan p) (s.afterPlanInitial now p)
  | getSpend (usd : ℚ) (round : ℤ) (hpc : s.pc = .getSpend round) :
      Resumed s now (.spend usd) (s.afterGetSpend now round usd)
  | collect (es : List Evidence) (round : ℤ) (spent : ℚ) (hpc : s.pc = .collect round spent) :
      Resumed s now (.evidence es) (s.afterCollect round spent es)
  | analyze (r : Report) (round : ℤ) (hpc : s.pc = .analyze round) :
      Resumed s now (.report r) (s.afterAnalyze round r)
  | recordIteration (round : ℤ) (report : Report) (hpc : s.pc = .recordIteration round report) :
      Resumed s now .done (s.rawLoop round report report.rawCommandRequests)
  | validateRaw (ok : Bool) (round : ℤ) (report : Report) (req : RawCommandRequest)
      (rest : List RawCommandRequest) (hpc : s.pc = .validateRaw round report req rest) :
      Resumed s now (.validation ok) (if ok then s.requestApproval (.raw round report req rest)
        else s.rawLoop round report rest)
  | createApproval (aid : Uuid) (g : Gate) (hpc : s.pc = .createApproval g) :
      Resumed s now (.approval aid) (s.afterCreateApproval g aid)
  | notifyApproval (a : Reply) (g : Gate) (aid : Uuid) (ha : a = .done ∨ a = .error)
      (hpc : s.pc = .notifyApproval g aid) :
      Resumed s now a { s with pc := .waitDecision g aid (now+g.timeout) }
  | recordDecision (g : Gate) (aid : Uuid) (d : DecisionDict)
      (hpc : s.pc = .recordDecision g aid d) : Resumed s now .done (s.afterDecision g d)
  | runRaw (es : List Evidence) (round : ℤ) (report : Report) (rest : List RawCommandRequest)
      (hpc : s.pc = .runRaw round report rest) : Resumed s now (.evidence es)
        (rawLoop { s with evidence := s.evidence ++ es } round report rest)
  | planNext (p : Value) (round : ℤ) (hpc : s.pc = .planNext round) :
      Resumed s now (.plan p) (enterRound { s with plan := p } now (round+1))
  | planRemediation (r : Remediation) (hpc : s.pc = .planRemediation) :
      Resumed s now (.remediation r) (s.afterPlanRemediation r)
  | closeWithSummary (reason : CloseReason) (hpc : s.pc = .closeWithSummary reason) :
      Resumed s now .done
        { s with status := .closedSummary, pc := .returned (.closedSummary reason) }
  | executePlaybook (ok : Bool) (exec : Option Uuid) (action : Action) (rest : List Action)
      (hpc : s.pc = .executePlaybook action rest) :
      Resumed s now (.executed ok exec) (s.afterExecute now action rest ok exec)
  | verifyFix (ok : Bool) (action : Action) (rest : List Action)
      (hpc : s.pc = .verifyFix action rest) :
      Resumed s now (.verified ok) (s.afterVerify action rest ok)
  | closeResolved (hpc : s.pc = .closeResolved) : Resumed s now .done s.afterCloseResolved
  | toNeedsHuman (reason : Reason) (hpc : s.pc = .toNeedsHuman reason) :
      Resumed s now .done (s.afterNeedsHuman reason)
  | notified (a : Reply) (o : Outcome) (ha : a = .done ∨ a = .error)
      (hpc : (∃ reason, s.pc = .notifyRejected reason ∧ o = .rejected reason) ∨
        (∃ reason, s.pc = .notifyNeedsHuman reason ∧ o = .needsHuman reason) ∨
        s.pc = .notifyResolved ∧ o = .resolved) :
      Resumed s now a { s with pc := .returned o }
  | raised (hpc : fallible s.pc = true) : Resumed s now .error { s with pc := .raised }

variable {s t : State} {now : Instant}

theorem resumed_afterNotify (ha : a = .done ∨ a = .error) (h : s.afterNotify now = some t) :
    Resumed s now a t := by
  unfold afterNotify at h
  split at h
  · rename_i g aid hpc
    cases h
    exact .notifyApproval a g aid ha hpc
  · rename_i reason hpc
    cases h
    exact .notified a _ ha (.inl ⟨reason, hpc, rfl⟩)
  · rename_i reason hpc
    cases h
    exact .notified a _ ha (.inr (.inl ⟨reason, hpc, rfl⟩))
  · rename_i hpc
    cases h
    exact .notified a _ ha (.inr (.inr ⟨hpc, rfl⟩))
  · cases h

theorem resumed_of_fail (h : s.fail now = some t) :
    Resumed s now .error t := by
  cases hpc : s.pc
  all_goals simp only [fail, hpc, reduceCtorEq, Option.some.injEq] at h
  all_goals first
    | exact resumed_afterNotify (.inr rfl) h
    | subst h
      exact .raised (by rw [hpc]; rfl)

theorem resumed_of_resume (h : s.resume now a = some t) : Resumed s now a t := by
  cases a with
  | error => exact resumed_of_fail h
  | case c =>
    simp only [resume] at h
    split at h <;> cases h
    exact .createCase c ‹_›
  | plan p =>
    simp only [resume] at h
    split at h <;> cases h
    · exact .planInitial p ‹_›
    · exact .planNext p _ ‹_›
  | spend usd =>
    simp only [resume] at h
    split at h <;> cases h
    exact .getSpend usd _ ‹_›
  | evidence es =>
    simp only [resume] at h
    split at h <;> cases h
    · exact .collect es _ _ ‹_›
    · exact .runRaw es _ _ _ ‹_›
  | report r =>
    simp only [resume] at h
    split at h <;> cases h
    exact .analyze r _ ‹_›
  | validation ok =>
    simp only [resume] at h
    split at h <;> cases h
    exact .validateRaw ok _ _ _ _ ‹_›
  | approval aid =>
    simp only [resume] at h
    split at h <;> cases h
    exact .createApproval aid _ ‹_›
  | remediation r =>
    simp only [resume] at h
    split at h <;> cases h
    exact .planRemediation r ‹_›
  | executed ok exec =>
    simp only [resume] at h
    split at h <;> cases h
    exact .executePlaybook ok exec _ _ ‹_›
  | verified ok =>
    simp only [resume] at h
    split at h <;> cases h
    exact .verifyFix ok _ _ ‹_›
  | done =>
    simp only [resume] at h
    split at h
    · cases h
      exact .recordIteration _ _ ‹_›
    · cases h
      exact .recordDecision _ _ _ ‹_›
    · cases h
      exact .rejectCase _ ‹_›
    · cases h
      exact .toNeedsHuman _ ‹_›
    · cases h
      exact .closeResolved ‹_›
    · cases h
      exact .closeWithSummary _ ‹_›
    · exact resumed_afterNotify (.inl rfl) h

theorem wake_cases (h : s.wake now = some t) :
    (∃ round, s.pc = .waitPaused round ∧ (s.paused = false ∨ s.aborted = true) ∧
      t = s.checkBudget now round) ∨
    ∃ g aid timer d, s.pc = .waitDecision g aid timer ∧ s.approvalDecision = some d ∧
      d.approvalId = some aid ∧ t = s.recordDecision g aid d false := by
  unfold wake at h
  split at h
  · grind
  · grind
  · cases h

theorem timer_cases (h : s.timer now = some t) :
    (∃ g aid timer, s.pc = .waitDecision g aid timer ∧ timer ≤ now ∧ s.decided aid = false ∧
      t = s.recordDecision g aid (timeoutDecision aid) true) ∨
    ∃ action rest exec timer, s.pc = .settle action rest exec timer ∧ timer ≤ now ∧
      t = s.verify action rest exec := by grind [timer]

theorem afterDecision_cases (s : State) (g : Gate) (d : DecisionDict) :
    (d.decision = some .approved ∧ ∃ c, c.isWrite = true ∧
      (s.afterDecision g d).history = s.history ++ [c] ∧
      (s.afterDecision g d).pc.inGate = false) ∨
    (d.decision ≠ some .approved ∧
      Outside s.history s.approvalDecision (s.afterDecision g d)) := by
  unfold afterDecision
  cases g with
  | raw round report req rest =>
    dsimp only
    split_ifs with hd
    · exact .inl ⟨hd, _, rfl, rfl, rfl⟩
    · exact .inr ⟨hd, outside_of_frame (outside_rawLoop _ round report rest) rfl rfl⟩
  | remediation action rest =>
    dsimp only
    split_ifs with hd
    · exact .inl ⟨hd, _, rfl, rfl, rfl⟩
    · exact .inr ⟨hd, outside_of_frame (outside_actionLoop _ rest) rfl rfl⟩

theorem history_of_outside {h : List Call} {d : Option DecisionDict} {t : State}
    (ho : Outside h d t) : ∃ l, t.history = h ++ l := by
  cases ho with
  | quiet _ _ hh => exact ⟨[], by rw [hh, List.append_nil]⟩
  | call c _ _ _ hh => exact ⟨[c], hh⟩
  | request g _ _ hh => exact ⟨_, hh⟩

theorem resume_inGate (hpc : s.pc.inGate = true) (h : s.resume now a = some t) :
    (∃ g aid, t = s.afterCreateApproval g aid) ∨
    (∃ g aid, s.pc = .notifyApproval g aid ∧
      t = { s with pc := .waitDecision g aid (now+g.timeout) }) ∨
    (∃ g d, t = s.afterDecision g d) ∨ t = { s with pc := .raised } := by
  cases resumed_of_resume h with
  | createApproval aid g _ => exact .inl ⟨g, aid, rfl⟩
  | notifyApproval _ g aid _ hn => exact .inr (.inl ⟨g, aid, hn, rfl⟩)
  | recordDecision g aid d _ => exact .inr (.inr (.inl ⟨g, d, rfl⟩))
  | raised _ => exact .inr (.inr (.inr rfl))
  | notified a o ha hn =>
    obtain ⟨_, hn, -⟩ | ⟨_, hn, -⟩ | ⟨hn, -⟩ := hn
    all_goals
      rw [hn] at hpc
      cases hpc
  | _ =>
    rename_i hn
    rw [hn] at hpc
    cases hpc

theorem history_resume (h : s.resume now a = some t) : ∃ l, t.history = s.history ++ l := by
  cases hpc : s.pc.inGate with
  | false => exact history_of_outside (outside_resume s now a hpc h)
  | true =>
    obtain ⟨g, aid, rfl⟩ | ⟨g, aid, -, rfl⟩ | ⟨g, d, rfl⟩ | rfl := resume_inGate hpc h
    · exact ⟨_, rfl⟩
    · exact ⟨[], (List.append_nil _).symm⟩
    · rcases afterDecision_cases s g d with ⟨-, c, -, hh, -⟩ | ⟨-, ho⟩
      · exact ⟨[c], hh⟩
      · exact history_of_outside ho
    · exact ⟨[], (List.append_nil _).symm⟩

theorem history_step (h : runs.step r e = some r') :
    ∃ l, r'.wf.history = r.wf.history ++ l := by
  obtain ⟨sig, -, -, rfl⟩ | ⟨a, s, -, hs, rfl⟩ | ⟨s, -, hs, rfl⟩ | ⟨s, -, hs, rfl⟩ |
    ⟨t, -, -, rfl⟩ := step_cases h
  · obtain ⟨p, a, b, d, hs, -⟩ := signal_frame r.wf sig
    simp_all
  · exact history_resume hs
  · obtain ⟨round, -, -, rfl⟩ | ⟨g, aid, timer, d, -, -, -, rfl⟩ := wake_cases hs
    · exact history_of_outside (outside_checkBudget r.wf r.now round)
    · exact ⟨_, rfl⟩
  · obtain ⟨g, aid, timer, -, -, -, rfl⟩ | ⟨action, rest, exec, timer, -, -, rfl⟩ :=
      timer_cases hs
    · exact ⟨_, rfl⟩
    · exact ⟨_, rfl⟩
  · exact ⟨[], (List.append_nil _).symm⟩

theorem writes_step (h : runs.step r e = some r') :
    writes r.wf ≤ writes r'.wf := by
  obtain ⟨l, hl⟩ := history_step h
  unfold writes
  grind

/-- While a gate is announced or awaited, its id is the one that decisions are
compared with. -/
def Awaited (s : State) : Prop :=
  match s.pc with
  | .notifyApproval _ aid => s.awaitingApprovalId = some aid
  | .waitDecision _ aid _ => s.awaitingApprovalId = some aid
  | _ => True

theorem awaited_of_outside {h : List Call} {d : Option DecisionDict} {t : State}
    (ho : Outside h d t) : Awaited t := by
  have hpc : t.pc.inGate = false ∨ ∃ g, t.pc = .createApproval g := by
    cases ho with
    | quiet hpc _ _ => exact .inl hpc
    | call _ _ hpc _ _ => exact .inl hpc
    | request g hpc _ _ => exact .inr ⟨g, hpc⟩
  unfold Awaited
  rcases hpc with hpc | ⟨g, hg⟩
  · split
    · rename_i hs
      rw [hs] at hpc
      cases hpc
    · rename_i hs
      rw [hs] at hpc
      cases hpc
    · trivial
  · rw [hg]
    trivial

theorem awaited_resume (hs : Awaited s) (h : s.resume now a = some t) : Awaited t := by
  cases hpc : s.pc.inGate with
  | false => exact awaited_of_outside (outside_resume s now a hpc h)
  | true =>
    obtain ⟨g, aid, rfl⟩ | ⟨g, aid, hn, rfl⟩ | ⟨g, d, rfl⟩ | rfl := resume_inGate hpc h
    · exact rfl
    · simpa only [Awaited, hn] using hs
    · rcases afterDecision_cases s g d with ⟨-, c, -, -, hout⟩ | ⟨-, ho⟩
      · exact awaited_of_outside (.quiet (d := (s.afterDecision g d).approvalDecision) hout rfl rfl)
      · exact awaited_of_outside ho
    · trivial

theorem awaited_step (hr : Awaited r.wf) (h : runs.step r e = some r') : Awaited r'.wf := by
  obtain ⟨sig, -, -, rfl⟩ | ⟨a, s, -, hs, rfl⟩ | ⟨s, -, hs, rfl⟩ | ⟨s, -, hs, rfl⟩ |
    ⟨t, -, -, rfl⟩ := step_cases h
  · obtain ⟨p, a, b, d, hs, -⟩ := signal_frame r.wf sig
    change Awaited (r.wf.signal sig)
    rw [hs]
    exact hr
  · exact awaited_resume hr hs
  · obtain ⟨round, -, -, rfl⟩ | ⟨g, aid, timer, d, -, -, -, rfl⟩ := wake_cases hs
    · exact awaited_of_outside (outside_checkBudget r.wf r.now round)
    · trivial
  · obtain ⟨g, aid, timer, -, -, -, rfl⟩ | ⟨action, rest, exec, timer, -, -, rfl⟩ :=
      timer_cases hs
    · trivial
    · trivial
  · exact hr

theorem awaited_reachable (r : Run) (h : runs.Reachable r) : Awaited r.wf := by
  apply reachable_invariant runs (fun r => Awaited r.wf) _ _ r h
  · rintro r ⟨input, hr⟩
    rw [hr]
    trivial
  · intro r e r' hr hs
    exact awaited_step hr hs

theorem resume_of_closed {s : State} (h : s.closed = true) :
    s.resume now a = none := by
  rw [Option.eq_none_iff_forall_ne_some]
  intro t ht
  cases resumed_of_resume ht with
  | raised hpc =>
    unfold closed at h
    split at h
    · rename_i hs
      rw [hs] at hpc
      cases hpc
    · rename_i hs
      rw [hs] at hpc
      cases hpc
    · cases h
  | notified a o ha hpc => grind [closed]
  | notifyApproval _ _ _ _ hpc => simp [closed, hpc] at h
  | _ =>
    rename_i hpc
    simp [closed, hpc] at h

theorem pc_signal (s : State) (sig : Signal) : (s.signal sig).pc = s.pc := by
  obtain ⟨p, a, b, d, hs, -⟩ := signal_frame s sig
  rw [hs]

theorem step_of_closed (hr : r.wf.closed = true) (h : runs.step r e = some r') : r'.wf = r.wf := by
  obtain ⟨sig, rfl, hc, rfl⟩ | ⟨a, s, rfl, hs, rfl⟩ | ⟨s, rfl, hs, rfl⟩ | ⟨s, rfl, hs, rfl⟩ |
    ⟨t, rfl, -, rfl⟩ := step_cases h
  · rw [hr] at hc
    cases hc
  · rw [resume_of_closed hr] at hs
    cases hs
  · obtain ⟨round, hpc, -⟩ | ⟨g, aid, timer, d, hpc, -⟩ := wake_cases hs
    all_goals simp [closed, hpc] at hr
  · obtain ⟨g, aid, timer, hpc, -⟩ | ⟨action, rest, exec, timer, hpc, -⟩ := timer_cases hs
    all_goals simp [closed, hpc] at hr
  · rfl

theorem stuck_step (hr : r.wf.pc = .stuck) (h : runs.step r e = some r') : r'.wf.pc = .stuck := by
  obtain ⟨sig, rfl, -, rfl⟩ | ⟨a, s, rfl, hs, rfl⟩ | ⟨s, rfl, hs, rfl⟩ | ⟨s, rfl, hs, rfl⟩ |
    ⟨t, rfl, -, rfl⟩ := step_cases h
  · exact (pc_signal r.wf sig).trans hr
  · cases resumed_of_resume hs with
    | raised hpc =>
      rw [hr] at hpc
      cases hpc
    | notifyApproval _ _ _ _ hpc =>
      rw [hr] at hpc
      cases hpc
    | notified a o ha hpc =>
      rw [hr] at hpc
      simp at hpc
    | _ => grind
  · grind [wake_cases]
  · grind [timer_cases]
  · exact hr

inductive Phase where
  | opening | planning | spending | rounds | ended
  deriving DecidableEq, Repr

def phaseOf : Pc → Phase
  | .createCase => .opening
  | .planInitial => .planning
  | .getSpend _ => .spending
  | .waitPaused _ => .rounds
  | .collect _ _ => .rounds
  | .analyze _ => .rounds
  | .recordIteration _ _ => .rounds
  | .validateRaw _ _ _ _ => .rounds
  | .createApproval (.raw _ _ _ _) => .rounds
  | .notifyApproval (.raw _ _ _ _) _ => .rounds
  | .waitDecision (.raw _ _ _ _) _ _ => .rounds
  | .recordDecision (.raw _ _ _ _) _ _ => .rounds
  | .runRaw _ _ _ => .rounds
  | .planNext _ => .rounds
  | _ => .ended

theorem ended_actionLoop (s : State) (rest : List Action) :
    phaseOf (s.actionLoop rest).pc = .ended ∧ (s.actionLoop rest).pc ≠ .planRemediation := by
  cases rest with
  | cons a rest => exact ⟨rfl, by simp [actionLoop, requestApproval, schedule]⟩
  | nil =>
    unfold actionLoop
    split_ifs
    all_goals exact ⟨rfl, by simp [schedule]⟩

theorem ended_resume (hpc : phaseOf s.pc = .ended) (h : s.resume now a = some t) :
    phaseOf t.pc = .ended ∧ t.pc ≠ .planRemediation := by
  have habs {pc : Pc} (hs : s.pc = pc) (he : phaseOf pc ≠ .ended) : False := by
    rw [hs] at hpc
    exact he hpc
  cases resumed_of_resume h with
  | planRemediation r _ =>
    unfold afterPlanRemediation
    dsimp only
    split_ifs
    · exact ⟨rfl, by simp [schedule]⟩
    · exact ended_actionLoop _ _
  | createApproval aid g hg =>
    cases g with
    | raw round report req rest => exact (habs hg (by simp [phaseOf])).elim
    | remediation action rest => exact ⟨rfl, by simp [afterCreateApproval, schedule]⟩
  | notifyApproval _ g aid _ hg =>
    cases g with
    | raw round report req rest => exact (habs hg (by simp [phaseOf])).elim
    | remediation action rest => exact ⟨rfl, by simp⟩
  | recordDecision g aid d hg =>
    cases g with
    | raw round report req rest => exact (habs hg (by simp [phaseOf])).elim
    | remediation action rest =>
      unfold afterDecision
      dsimp only
      split_ifs
      · exact ⟨rfl, by simp [schedule]⟩
      · exact ended_actionLoop _ _
  | executePlaybook ok exec action rest _ =>
    unfold afterExecute
    dsimp only
    split_ifs
    all_goals exact ⟨rfl, by simp [needsHuman, verify, schedule]⟩
  | verifyFix ok action rest _ =>
    unfold afterVerify
    split_ifs
    · exact ⟨rfl, by simp [needsHuman, schedule]⟩
    · exact ended_actionLoop _ _
  | rejectCase reason _ => exact ⟨rfl, by simp [afterReject, schedule]⟩
  | closeWithSummary reason _ => exact ⟨rfl, by simp⟩
  | closeResolved _ => exact ⟨rfl, by simp [afterCloseResolved, schedule]⟩
  | toNeedsHuman reason _ => exact ⟨rfl, by simp [afterNeedsHuman, schedule]⟩
  | notified a o ha _ => exact ⟨rfl, by simp⟩
  | raised _ => exact ⟨rfl, by simp⟩
  | _ =>
    rename_i hn
    exact (habs hn (by simp [phaseOf])).elim

section Sample

def sampleEvent : AlertEvent :=
  ⟨7, "7", "grafana", "presto-1", "query stuck", none, "", none, "high", [], "fp"⟩

def sampleInput : Input := ⟨sampleEvent, none, "investigation-7", none, none⟩

def sampleCase : Case :=
  ⟨1, "presto-1", ⟨some 3, some 5, some 600, []⟩, some 1, none, none, ⟨none, []⟩, false, none⟩

def sampleReport : Report := ⟨.concluded, 1, [], [], none, none, []⟩

def sampleAction : Action :=
  ⟨some "playbook", some "presto.kill_query", .null, none, none, [], none, false, []⟩

def sampleStart : Run := ⟨start sampleInput, 0⟩

def sampleGate : List Event :=
  [.reply (.case sampleCase), .reply (.plan .null), .reply (.spend 0), .reply (.evidence []),
    .reply (.report sampleReport), .reply .done, .reply (.remediation ⟨[sampleAction], none⟩),
    .reply (.approval 9), .reply .done]

end Sample

end DbAgent.WorkflowRuns
