import DbAgent.Workflow

/-! What one stretch of `run` between two `await`s can do, as far as approvals
and the activities that act on the platform are concerned. -/
namespace DbAgent.Workflow

open State

def Call.isWrite : Call → Bool
  | .executePlaybook _ _ _ _ _ => true
  | .runRawCommand _ _ _ _ => true
  | _ => false

/-- The activities that are neither part of `_request_approval` nor behind it. -/
def Call.isPlain : Call → Bool
  | .createApproval _ _ _ => false
  | .recordApprovalDecision _ => false
  | .executePlaybook _ _ _ _ _ => false
  | .runRawCommand _ _ _ _ => false
  | _ => true

/-- The points inside `_request_approval`. -/
def Pc.inGate : Pc → Bool
  | .createApproval _ => true
  | .notifyApproval _ _ => true
  | .waitDecision _ _ _ => true
  | .recordDecision _ _ _ => true
  | _ => false

theorem isWrite_of_isPlain (c : Call) (h : c.isPlain = true) : c.isWrite = false := by
  cases c <;> simp_all [Call.isPlain, Call.isWrite]

/-- What the code outside `_request_approval` does before it awaits again,
from a history `h` and a stored decision `d`: it stays outside, with at most
one more activity in the history, or it enters a gate, which forgets `d`. -/
inductive Outside (h : List Call) (d : Option DecisionDict) (t : State) : Prop
  | quiet (hpc : t.pc.inGate = false) (hd : t.approvalDecision = d) (hh : t.history = h)
  | call (c : Call) (hc : c.isPlain = true) (hpc : t.pc.inGate = false)
      (hd : t.approvalDecision = d) (hh : t.history = h ++ [c])
  | request (g : Gate) (hpc : t.pc = .createApproval g) (hd : t.approvalDecision = none)
      (hh : t.history = h ++ [.createApproval t.investigationId g.kind g.subject])

variable (s : State) (now : Instant) (round : ℤ)

variable {t : State}

theorem outside_of_frame {s u : State} (ho : Outside u.history u.approvalDecision t)
    (hh : u.history = s.history) (hd : u.approvalDecision = s.approvalDecision) :
    Outside s.history s.approvalDecision t :=
  hh ▸ hd ▸ ho

theorem outside_schedule (c : Call) (pc : Pc) (hc : c.isPlain = true) (hpc : pc.inGate = false) :
    Outside s.history s.approvalDecision (s.schedule c pc) :=
  .call c hc hpc rfl rfl

theorem outside_setPc (pc : Pc) (hpc : pc.inGate = false) :
    Outside s.history s.approvalDecision { s with pc := pc } :=
  .quiet hpc rfl rfl

theorem outside_needsHuman (reason : Reason) :
    Outside s.history s.approvalDecision (s.needsHuman reason) :=
  outside_schedule s _ _ rfl rfl

theorem outside_checkBudget :
    Outside s.history s.approvalDecision (s.checkBudget now round) := by
  unfold checkBudget
  split_ifs
  · exact outside_needsHuman s _
  · exact outside_needsHuman s _
  · exact outside_schedule s _ _ rfl rfl

theorem outside_enterRound :
    Outside s.history s.approvalDecision (s.enterRound now round) := by
  unfold enterRound
  split_ifs
  · exact outside_needsHuman s _
  · exact outside_setPc s _ rfl
  · exact outside_checkBudget s now round

theorem outside_afterCreateCase (c : Case) :
    Outside s.history s.approvalDecision (s.afterCreateCase c) := by
  simp only [afterCreateCase]
  split_ifs
  · exact outside_of_frame (outside_schedule _ _ _ rfl rfl) rfl rfl
  · exact outside_of_frame (outside_schedule _ _ _ rfl rfl) rfl rfl

theorem outside_afterPlanInitial (plan : Value) :
    Outside s.history s.approvalDecision (s.afterPlanInitial now plan) := by
  unfold afterPlanInitial
  split
  · exact outside_setPc s _ rfl
  · exact outside_of_frame (outside_enterRound _ now 1) rfl rfl

theorem applyOverride_frame (h : s.applyOverride now = some t) :
    ∃ budget maxRounds maxCost deadline override, t = { s with
      budget := budget
      maxRounds := maxRounds
      maxCost := maxCost
      deadline := deadline
      budgetOverride := override } := by
  unfold applyOverride at h
  split at h
  · cases h
    exact ⟨_, _, _, _, _, rfl⟩
  · split_ifs at h
    · cases h
      exact ⟨_, _, _, _, _, rfl⟩
    · grind [Option.map_eq_some_iff]

theorem outside_afterGetSpend (spent : ℚ) :
    Outside s.history s.approvalDecision (s.afterGetSpend now round spent) := by
  unfold afterGetSpend
  split_ifs
  · exact outside_needsHuman s _
  · split
    · exact outside_setPc s _ rfl
    · rename_i t ht
      obtain ⟨b, r, c, d, o, rfl⟩ := applyOverride_frame s now ht
      exact outside_of_frame (outside_schedule _ _ _ rfl rfl) rfl rfl

theorem outside_endRound (report : Report) :
    Outside s.history s.approvalDecision (s.endRound round report) := by
  unfold endRound
  split_ifs
  · exact outside_schedule s _ _ rfl rfl
  · exact outside_needsHuman s _
  · exact outside_schedule s _ _ rfl rfl

theorem outside_rawLoop (report : Report) (rest : List RawCommandRequest) :
    Outside s.history s.approvalDecision (s.rawLoop round report rest) := by
  cases rest with
  | nil => exact outside_endRound s round report
  | cons req rest => exact outside_schedule s _ _ rfl rfl

theorem outside_requestApproval (d : Option DecisionDict) (g : Gate) :
    Outside s.history d (s.requestApproval g) :=
  .request g rfl rfl rfl

theorem outside_actionLoop (rest : List Action) :
    Outside s.history s.approvalDecision (s.actionLoop rest) := by
  cases rest with
  | nil =>
    unfold actionLoop
    split_ifs
    · exact outside_schedule s _ _ rfl rfl
    · exact outside_schedule s _ _ rfl rfl
  | cons a rest => exact outside_requestApproval s _ _

theorem outside_afterPlanRemediation (r : Remediation) :
    Outside s.history s.approvalDecision (s.afterPlanRemediation r) := by
  simp only [afterPlanRemediation]
  split_ifs
  · exact outside_of_frame (outside_schedule _ _ _ rfl rfl) rfl rfl
  · exact outside_of_frame (outside_actionLoop _ _) rfl rfl

theorem outside_afterExecute (action : Action) (rest : List Action) (ok : Bool)
    (exec : Option Uuid) :
    Outside s.history s.approvalDecision (s.afterExecute now action rest ok exec) := by
  simp only [afterExecute]
  split_ifs
  · exact outside_needsHuman s _
  · exact outside_schedule s _ _ rfl rfl
  · exact outside_setPc s _ rfl
  · exact outside_setPc s _ rfl

theorem outside_afterVerify (action : Action) (rest : List Action) (ok : Bool) :
    Outside s.history s.approvalDecision (s.afterVerify action rest ok) := by
  unfold afterVerify
  split_ifs
  · exact outside_needsHuman s _
  · exact outside_of_frame (outside_actionLoop _ rest) rfl rfl

theorem outside_afterNotify (hpc : s.pc.inGate = false) (h : s.afterNotify now = some t) :
    Outside s.history s.approvalDecision t := by
  unfold afterNotify at h
  split at h
  · rename_i hg
    rw [hg] at hpc
    cases hpc
  all_goals cases h
  all_goals exact outside_setPc s _ rfl

theorem outside_fail (hpc : s.pc.inGate = false) (h : s.fail now = some t) :
    Outside s.history s.approvalDecision t := by
  unfold fail at h
  split at h
  all_goals first
    | cases h
      done
    | exact outside_afterNotify s now hpc h
    | cases h
      exact outside_setPc s _ rfl

/-- Outside `_request_approval`, the completion of an activity leaves the run
outside or at the entry of a gate. -/
theorem outside_resume (r : Reply) (hpc : s.pc.inGate = false) (h : s.resume now r = some t) :
    Outside s.history s.approvalDecision t := by
  cases r with
  | error => exact outside_fail s now hpc h
  | case c => grind [resume, outside_afterCreateCase]
  | plan p =>
    simp only [resume] at h
    split at h <;> cases h
    · exact outside_afterPlanInitial s now p
    · exact outside_enterRound { s with plan := p } now _
  | spend usd => grind [resume, outside_afterGetSpend]
  | evidence es =>
    simp only [resume] at h
    split at h <;> cases h
    · exact outside_schedule { s with evidence := s.evidence ++ es } _ _ rfl rfl
    · exact outside_rawLoop { s with evidence := s.evidence ++ es } _ _ _
  | report r =>
    simp only [resume] at h
    split at h <;> cases h
    exact outside_of_frame (outside_schedule _ _ _ rfl rfl) rfl rfl
  | validation ok => grind [resume, outside_requestApproval, outside_rawLoop]
  | approval aid =>
    simp only [resume] at h
    split at h
    · rename_i hg
      rw [hg] at hpc
      cases hpc
    · cases h
  | remediation r => grind [resume, outside_afterPlanRemediation]
  | executed ok exec => grind [resume, outside_afterExecute]
  | verified ok => grind [resume, outside_afterVerify]
  | done =>
    simp only [resume] at h
    split at h
    · cases h
      exact outside_rawLoop s _ _ _
    · rename_i hg
      rw [hg] at hpc
      cases hpc
    · cases h
      exact outside_of_frame (outside_schedule _ _ _ rfl rfl) rfl rfl
    · cases h
      exact outside_of_frame (outside_schedule _ _ _ rfl rfl) rfl rfl
    · cases h
      exact outside_of_frame (outside_schedule _ _ _ rfl rfl) rfl rfl
    · cases h
      exact .quiet rfl rfl rfl
    · exact outside_afterNotify s now hpc h

theorem outside_wake (hpc : s.pc.inGate = false) (h : s.wake now = some t) :
    Outside s.history s.approvalDecision t := by
  unfold wake at h
  split at h
  · split_ifs at h
    cases h
    exact outside_checkBudget s now _
  · rename_i hg
    rw [hg] at hpc
    cases hpc
  · cases h

theorem outside_timer (hpc : s.pc.inGate = false) (h : s.timer now = some t) :
    Outside s.history s.approvalDecision t := by
  unfold timer at h
  split at h
  · rename_i hg
    rw [hg] at hpc
    cases hpc
  · split_ifs at h
    cases h
    exact outside_schedule s _ _ rfl rfl
  · cases h

end DbAgent.Workflow
