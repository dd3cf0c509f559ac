import DbAgent.ApprovalSafety
import DbAgent.PlaybookMaturity

/-! The rows of `remediation_executions` that a run inserts, and whether
`approved_by` names the user who has decided the approval behind them. -/
namespace DbAgent.Attribution

open Transition Approval Workflow ApprovalWorld List
open JsonText (Json)
open PlaybookMaturity (ExecutionStatus)

structure RemediationExecution where
  executionId : Uuid
  investigationId : Uuid
  playbookId : Option String
  params : Value
  mode : String
  approvedBy : Option Uuid
  status : ExecutionStatus
  preSnapshot : Option Value
  verificationResult : Option Value
  startedAt : Option Instant
  finishedAt : Option Instant

/-- `bool(x)`. -/
def truthy : Value → Bool
  | .null => false
  | .bool b => b
  | .num q => q ≠ 0
  | .str s => s ≠ ""
  | .arr xs => !xs.isEmpty
  | .obj kvs => !kvs.isEmpty

/-- `action.get("playbook_params") or action.get("params") or {}`. -/
def paramsOf (action : Action) : Value :=
  if truthy action.playbookParams then action.playbookParams
  else ((JsonText.lookup "params" action.rest).filter truthy).getD (.obj [])

section Table

-- Python's `dict(x)`, `none` where it raises
variable (dict : Value → Option Value)

/-- The row that the first transaction of `execute_playbook` merges, for the
payload of the activity. The payload of the workflow has no `execution_id`. -/
def executePlaybook (executionId : Uuid) (now : Instant) : Call → Option RemediationExecution
  | .executePlaybook investigationId action _ _ approvedBy =>
    (dict (paramsOf action)).map fun params =>
      { executionId := executionId
        investigationId := investigationId
        playbookId := action.playbookId
        params := params
        mode := "approved"
        approvedBy := approvedBy
        status := .running
        preSnapshot := none
        verificationResult := none
        startedAt := some now
        finishedAt := none }
  | _ => none

/-- A run and the rows it has inserted, each with the position of its activity
among the writes that the run has started. -/
structure Run where
  world : World
  executions : List (ℕ × RemediationExecution)

inductive RunEvent where
  | world (e : Event)
  | execute (n : ℕ) (executionId : Uuid)

/-- The attempts of `execute_playbook` run beside the workflow. There is one
for each activity (`_NO_RETRY`), under an id that `uuid4` has just drawn. -/
def Run.step (r : Run) : RunEvent → Option Run
  | .world e => (r.world.step e).map fun w => { r with world := w }
  | .execute n executionId =>
    match r.world.grants[n]? with
    | some (_, c) =>
      if ∃ x ∈ r.executions, x.1 = n ∨ x.2.executionId = executionId then none
      else (executePlaybook dict executionId r.world.now c).map fun row =>
        { r with executions := r.executions ++ [(n, row)] }
    | none => none

def runSystem (input : Input) : System Run RunEvent where
  init r := (system input).init r.world ∧ r.executions = []
  step r e := r.step dict e

end Table

/-- `decide_approval_atomic` has committed the approval of the `n`th write of
the run, for the user `u`. -/
def ApprovedBy (w : World) (n : ℕ) (u : Uuid) : Prop :=
  ∃ aid c st, w.grants[n]? = some (aid, c) ∧ w.rows aid = some st ∧ (.approved, u) ∈ st.commits

def Attributed (r : Run) : Prop :=
  ∀ x ∈ r.executions, ∃ u, x.2.approvedBy = some u ∧ ApprovedBy r.world x.1 u

/-- The `approved_by` of a payload. -/
def approverOf : Call → Option Uuid
  | .executePlaybook _ _ _ _ approvedBy => approvedBy
  | _ => none

theorem approvedBy_executePlaybook (dict : Value → Option Value) (id : Uuid) (now : Instant)
    (c : Call) (row : RemediationExecution) (h : executePlaybook dict id now c = some row) :
    row.approvedBy = approverOf c := by
  cases c with
  | executePlaybook inv action pk dep approvedBy =>
    obtain ⟨params, -, rfl⟩ := Option.map_eq_some_iff.mp h
    rfl
  | _ => cases h

variable {w : World}

section Decisions

/-- No decision that the run holds says who has made it, and neither does a
write that it has started; each of these was approved all the same. -/
structure Unsigned (w : World) : Prop where
  decision : ∀ d, w.wf.approvalDecision = some d → d.decidedBy = none
  recording : ∀ g aid d, w.wf.pc = .recordDecision g aid d → d.decidedBy = none
  grants : ∀ x ∈ w.grants, approverOf x.2 = none
  approved : ∀ x ∈ w.grants, Committed w x.1 .approved

theorem approverOf_newGrants (s : State) (g : Gate) (d : DecisionDict) (aid : Uuid)
    (hd : d.decidedBy = none) (x : Uuid × Call)
    (hx : x ∈ newGrants aid s.history (s.afterDecision g d).history) : approverOf x.2 = none := by
  by_cases happ : d.decision = some .approved
  · cases g with
    | raw round report req rest =>
      simp only [State.afterDecision, if_pos happ, State.schedule, newGrants_append] at hx
      cases mem_singleton.mp hx
      rfl
    | remediation action rest =>
      simp only [State.afterDecision, if_pos happ, State.schedule, newGrants_append] at hx
      cases mem_singleton.mp hx
      exact hd
  · grind [afterDecision_cases, newGrants_outside]

/-- What has to be looked at in a step: the decision it stores, the one it is
about to record, and the writes it starts. -/
theorem unsigned_move (w' : World) (h : Unsigned w) (hg : Grow w w') (new : List (Uuid × Call))
    (hd : ∀ d, w'.wf.approvalDecision = some d →
      w.wf.approvalDecision = some d ∨ d.decidedBy = none)
    (hpc : ∀ g aid d, w'.wf.pc = .recordDecision g aid d →
      w.wf.pc = .recordDecision g aid d ∨ d.decidedBy = none) (hgr : w'.grants = w.grants ++ new)
    (hnew : ∀ x ∈ new, approverOf x.2 = none) (hok : ∀ x ∈ new, Committed w x.1 .approved) :
    Unsigned w' where
  decision := by
    intro d hd'
    rcases hd d hd' with hold | hnone
    · exact h.decision d hold
    · exact hnone
  recording := by
    intro g aid d hpc'
    rcases hpc g aid d hpc' with hold | hnone
    · exact h.recording g aid d hold
    · exact hnone
  grants := by
    intro x hx
    rw [hgr] at hx
    rcases mem_append.mp hx with hold | hx
    · exact h.grants x hold
    · exact hnew x hx
  approved := by
    intro x hx
    rw [hgr] at hx
    apply committed_grow w w' hg
    rcases mem_append.mp hx with hold | hx
    · exact h.approved x hold
    · exact hok x hx

theorem unsigned_quiet (w' : World) (h : Unsigned w) (hg : Grow w w')
    (hd : ∀ d, w'.wf.approvalDecision = some d →
      w.wf.approvalDecision = some d ∨ d.decidedBy = none)
    (hpc : ∀ g aid d, w'.wf.pc = .recordDecision g aid d →
      w.wf.pc = .recordDecision g aid d ∨ d.decidedBy = none) (hgr : w'.grants = w.grants) :
    Unsigned w' := by
  apply unsigned_move w' h hg [] hd hpc (by rw [hgr, append_nil])
  · exact fun x hx => absurd hx not_mem_nil
  · simp

theorem unsigned_outside (h : Unsigned w) (wf : State) (hg : Grow w { w with wf := wf })
    (ho : Outside w.wf.history w.wf.approvalDecision wf) : Unsigned { w with wf := wf } := by
  have hd : ∀ d, wf.approvalDecision = some d → w.wf.approvalDecision = some d := by
    intro d hd
    cases ho with
    | quiet _ hold _ => exact hold ▸ hd
    | call _ _ _ hold _ => exact hold ▸ hd
    | request _ _ hnone _ =>
      rw [hnone] at hd
      cases hd
  have hpc : ∀ g aid d, wf.pc ≠ .recordDecision g aid d := by
    intro g aid d hpc
    cases ho with
    | quiet hout => simp [hpc, Pc.inGate] at hout
    | call _ _ hout => simp [hpc, Pc.inGate] at hout
    | request _ hreq => simp [hpc] at hreq
  grind [unsigned_quiet]

theorem unsigned_recordDecision (h : Unsigned w) (g : Gate) (aid : Uuid) (d : DecisionDict)
    (late : Bool) (hd : d.decidedBy = none)
    (hg : Grow w { w with wf := w.wf.recordDecision g aid d late }) :
    Unsigned { w with wf := w.wf.recordDecision g aid d late } := by
  apply unsigned_quiet _ h hg (fun _ hd' => .inl hd') _ rfl
  intro g' aid' d' hpc
  cases hpc
  exact .inr hd

theorem unsigned_recordReply (hs : Safe w) (h : Unsigned w) (g : Gate) (aid : Uuid)
    (d : DecisionDict) (hpc : w.wf.pc = .recordDecision g aid d) (w' : World) (hw' : w' = { w with
      wf := w.wf.afterDecision g d
      grants := w.grants ++ newGrants aid w.wf.history (w.wf.afterDecision g d).history })
    (hg : Grow w w') : Unsigned w' := by
  subst hw'
  have hnone : d.decidedBy = none := h.recording g aid d hpc
  obtain ⟨happ, c, -, hwrite, hh, hout, hdec⟩ | ⟨-, ho⟩ := afterDecision_cases w.wf g d
  · apply unsigned_move _ h hg _ _ _ rfl (approverOf_newGrants w.wf g d aid hnone)
    · intro x hx
      rw [hh, newGrants_append, if_pos hwrite] at hx
      cases mem_singleton.mp hx
      exact (hs.recording g aid d hpc).2 happ
    · intro d' hd'
      exact .inl (hdec ▸ hd')
    · intro g' aid' d' hpc'
      rw [hpc'] at hout
      cases hout
  · grind [newGrants_outside, unsigned_outside]

/-- `post_decision` sends a signal without `decided_by`, so no decision that
reaches the workflow has one. -/
theorem unsigned_step (w' : World) (e : Event) (hs : Safe w) (h : Unsigned w)
    (hstep : w.step e = some w') : Unsigned w' := by
  have hg : Grow w w' := grow_step hs hstep
  cases world_step_sound w w' e hstep with
  | control sig wf hpc hh hd => grind [unsigned_quiet]
  | deliver aid st g wf hrow hsig hpc hh hd =>
    apply unsigned_quiet _ h hg _ (fun g aid d hp => .inl (hpc ▸ hp)) rfl
    intro d hd'
    rcases hd with hd | hd
    · exact .inl (hd ▸ hd')
    · -- the decision is the dictionary of the signal
      have hdict : decisionDict g = d := Option.some.inj (hd.symm.trans hd')
      exact .inr (congrArg DecisionDict.decidedBy hdict).symm
  | outside _ wf ho => exact unsigned_outside h wf hg ho
  | recordReply tx g aid d st p loaded hpc hrow hwork =>
    exact unsigned_recordReply hs h g aid d hpc _ rfl hg
  | decided g aid t d hpc hd hid =>
    exact unsigned_recordDecision h g aid d false (h.decision d hd) hg
  | expired g aid t hpc => exact unsigned_recordDecision h g aid _ true rfl hg
  | createReply aid g hpc hc =>
    exact unsigned_quiet _ h hg (fun d hd => .inl hd) (fun g' aid' d hp => nomatch hp) rfl
  | announced r g aid hpc =>
    exact unsigned_quiet _ h hg (fun d hd => .inl hd) (fun g' aid' d hp => nomatch hp) rfl
  | createAttempt n aid inv kind subject hcall hfree =>
    exact unsigned_quiet _ h hg (fun d hd => .inl hd) (fun g aid d hp => .inl hp) rfl
  | row aid st st' e hrow hsched hst =>
    exact unsigned_quiet _ h hg (fun d hd => .inl hd) (fun g aid d hp => .inl hp) rfl
  | tick t => exact unsigned_quiet _ h hg (fun d hd => .inl hd) (fun g aid d hp => .inl hp) rfl

theorem unsigned_init (input : Input) (h : (system input).init w) : Unsigned w := by
  obtain ⟨hwf, -, hg, -⟩ := h
  refine ⟨?_, ?_, ?_, ?_⟩ <;> simp [hwf, hg, start]

theorem grants_extend (w' : World) (e : Event) (h : w.step e = some w') :
    w.grants <+: w'.grants := by
  cases world_step_sound w w' e h with
  | recordReply => exact prefix_append _ _
  | _ => exact prefix_refl _

end Decisions

section Runs

variable {dict : Value → Option Value} {input : Input}

structure RunInv (dict : Value → Option Value) (r : Run) : Prop where
  safe : Safe r.world
  unsigned : Unsigned r.world
  rows : ∀ x ∈ r.executions, ∃ aid c id now, r.world.grants[x.1]? = some (aid, c) ∧
    executePlaybook dict id now c = some x.2

theorem runInv_step (r r' : Run) (e : RunEvent) (h : RunInv dict r)
    (hstep : r.step dict e = some r') : RunInv dict r' := by
  cases e with
  | world e =>
    obtain ⟨w, hw, rfl⟩ := Option.map_eq_some_iff.mp hstep
    refine ⟨safe_step h.safe hw, unsigned_step w e h.safe h.unsigned hw, ?_⟩
    intro x hx
    obtain ⟨aid, c, id, now, hn, hrow⟩ := h.rows x hx
    have hn' := getElem?_of_extends _ _ x.1 _ (grants_extend w e hw) hn
    exact ⟨aid, c, id, now, hn', hrow⟩
  | execute n id =>
    simp only [Run.step] at hstep
    split at hstep
    · rename_i aid c hn
      split_ifs at hstep
      grind [Option.map_eq_some_iff, RunInv]
    · cases hstep

theorem runInv_reachable (r : Run) (h : (runSystem dict input).Reachable r) : RunInv dict r := by
  apply reachable_invariant (runSystem dict input) (RunInv dict) _ _ r h
  · rintro r ⟨hw, hnone⟩
    refine ⟨safe_init input r.world hw, unsigned_init input hw, ?_⟩
    simp [hnone]
  · exact fun r e r' hr hs => runInv_step r r' e hr hs

theorem execution_unsigned (r : Run) (h : RunInv dict r) (x : ℕ × RemediationExecution)
    (hx : x ∈ r.executions) : x.2.approvedBy = none := by
  obtain ⟨aid, c, id, now, hn, hrow⟩ := h.rows x hx
  rw [approvedBy_executePlaybook dict id now c x.2 hrow]
  exact h.unsigned.grants (aid, c) (mem_of_getElem? hn)

theorem execution_approved (r : Run) (h : RunInv dict r) (x : ℕ × RemediationExecution)
    (hx : x ∈ r.executions) : ∃ u, ApprovedBy r.world x.1 u := by
  obtain ⟨aid, c, id, now, hn, -⟩ := h.rows x hx
  obtain ⟨st, u, hrow, hu⟩ := h.unsigned.approved (aid, c) (mem_of_getElem? hn)
  exact ⟨u, aid, c, st, hn, hrow, hu⟩

/-- Every row that a run inserts was approved by some user and names nobody, so
the rows are attributed to their approvers only while there are none. -/
theorem executions_attributed_iff (dict : Value → Option Value) (input : Input) (r : Run)
    (hr : (runSystem dict input).Reachable r) :
    (∀ x ∈ r.executions, x.2.approvedBy = none ∧ ∃ u, ApprovedBy r.world x.1 u) ∧
    (Attributed r ↔ r.executions = []) := by
  have h : RunInv dict r := runInv_reachable r hr
  refine ⟨fun x hx => ⟨execution_unsigned r h x hx, execution_approved r h x hx⟩, ?_⟩
  constructor
  · intro hall
    apply eq_nil_iff_forall_not_mem.mpr
    intro x hx
    obtain ⟨u, hu, -⟩ := hall x hx
    rw [execution_unsigned r h x hx] at hu
    cases hu
  · intro hnil x hx
    grind

end Runs

/-- `dict` of an object. -/
def dictOfObject : Value → Option Value
  | .obj kvs => some (.obj kvs)
  | _ => none

def sampleAction : Action :=
  ⟨some "playbook", some "presto.restart_cluster", .null, none, none, [], none, false, []⟩

/-- A run whose report concludes; user 7 approves the restart it proposes, and
the activity inserts its row. -/
def approvedRun : List RunEvent :=
  [.world (.reply (.case { sampleCase with confidenceThreshold := some 1 })),
    .world (.reply (.plan .null)), .world (.reply (.spend 0)), .world (.reply (.evidence [])),
    .world (.reply (.report ⟨.concluded, 1, [], [], none, none, []⟩)), .world (.reply .done),
    .world (.reply (.remediation ⟨[sampleAction], none⟩)), .world (.createAttempt 7 1),
    .world (.createReply 1), .world (.reply .done),
    .world (.row 1 (.check 0 ⟨some "approved", none, 7⟩ (some .opened))),
    .world (.row 1 (.update 0 5)), .world (.row 1 (.commit 0)), .world (.row 1 (.signal 0)),
    .world (.deliver 1 ⟨1, .approved, none⟩), .world .wake,
    .world (.row 1 (.select 0 ⟨2, 1, some .approved, none, .remediation, false⟩ 9)),
    .world (.row 1 (.finish 0)), .world (.recordReply 0), .execute 0 5]

theorem sample_init : (runSystem dictOfObject sampleInput).init ⟨sampleWorld, []⟩ := by
  refine ⟨⟨rfl, rfl, rfl, ?_⟩, rfl⟩
  intro aid st h
  cases h

def sampleExecution : RemediationExecution where
  executionId := 5
  investigationId := 2
  playbookId := some "presto.restart_cluster"
  params := .obj []
  mode := "approved"
  approvedBy := none
  status := .running
  preSnapshot := none
  verificationResult := none
  startedAt := some 0
  finishedAt := none

theorem executions_attributed_approvedRun : ∃ r, (runSystem dictOfObject sampleInput).Reachable r ∧
    r.executions = [(0, sampleExecution)] ∧ (∃ u, ApprovedBy r.world 0 u) ∧ ¬Attributed r := by
  have hr := run_reachable (runSystem dictOfObject sampleInput) approvedRun ⟨sampleWorld, []⟩ _
    (.init sample_init) rfl
  obtain ⟨hall, hiff⟩ := executions_attributed_iff dictOfObject sampleInput _ hr
  refine ⟨_, hr, rfl, (hall (0, sampleExecution) (mem_singleton.mpr rfl)).2, ?_⟩
  intro h
  cases hiff.mp h

/-- User 7 has approved the restart, and the row of its execution says NULL. -/
theorem approver_not_recorded : ∃ r, (runSystem dictOfObject sampleInput).Reachable r ∧
    r.executions = [(0, sampleExecution)] ∧ ApprovedBy r.world 0 7 ∧ ¬ Attributed r := by
  have hr := run_reachable (runSystem dictOfObject sampleInput) approvedRun ⟨sampleWorld, []⟩ _
    (.init sample_init) rfl
  refine ⟨_, hr, rfl, ?_, ?_⟩
  · exact ⟨1, _, _, rfl, rfl, mem_singleton.mpr rfl⟩
  · intro h
    obtain ⟨u, hu, -⟩ := h (0, sampleExecution) (mem_singleton.mpr rfl)
    cases hu

end DbAgent.Attribution
