import DbAgent.ApprovalRow

/-! What one statement can do to an approvals row, and what holds of the row
after any number of them. -/
namespace DbAgent.Approval

open Transition

section Fields

variable (s : RowState) (tx tx' : ℕ) (dpc : DashPc) (wpc : WorkPc) (new : ApprovalRow)
  (audits : List ApprovalAuditRow)

@[simp] theorem setDash_dash :
    (s.setDash tx dpc).dash tx' = if tx' = tx then dpc else s.dash tx' := by
  simp [RowState.setDash, Function.update_apply]

@[simp] theorem setWork_work :
    (s.setWork tx wpc).work tx' = if tx' = tx then wpc else s.work tx' := by
  simp [RowState.setWork, Function.update_apply]

@[simp] theorem install_dash : (s.install new audits).dash = s.dash := rfl
@[simp] theorem install_work : (s.install new audits).work = s.work := rfl

end Fields

inductive RowStep (s : RowState) : RowEvent → RowState → Prop
  | checkFailed (tx : ℕ) (req : DecisionRequest) (inv : Option Status) (e : ApiError)
      (hpc : s.dash tx = .idle) :
      RowStep s (.check tx req inv) (s.setDash tx (.failed (some e)))
  | checkPassed (tx : ℕ) (req : DecisionRequest) (inv : Option Status) (d : Decision)
      (hpc : s.dash tx = .idle) (hd : req.decision.bind Decision.parse = some d) :
      RowStep s (.check tx req inv) (s.setDash tx (.checked req d))
  | updateMissed (tx : ℕ) (now : Instant) (req : DecisionRequest) (d : Decision)
      (hpc : s.dash tx = .checked req d) (hlock : s.lock = none)
      (hdec : s.row.decision ≠ none) :
      RowStep s (.update tx now) (s.setDash tx (.failed (some .alreadyDecided)))
  | updateHit (tx : ℕ) (now : Instant) (req : DecisionRequest) (d : Decision)
      (hpc : s.dash tx = .checked req d) (hlock : s.lock = none)
      (hdec : s.row.decision = none) :
      RowStep s (.update tx now)
        { s.setDash tx (.updated req d { s.row with
            decision := some d, decidedBy := some req.decidedBy,
            decidedAt := some now, comment := req.comment }) with
          lock := some (.dash tx) }
  | commit (tx : ℕ) (req : DecisionRequest) (d : Decision) (new : ApprovalRow)
      (hpc : s.dash tx = .updated req d new) :
      RowStep s (.commit tx)
        { (s.install new (decideAudits s.row d req)).setDash tx (.committed req d) with
          lock := none, commits := (d, req.decidedBy) :: s.commits }
  | rollbackChecked (tx : ℕ) (req : DecisionRequest) (d : Decision)
      (hpc : s.dash tx = .checked req d) :
      RowStep s (.rollback tx) (s.setDash tx (.failed none))
  | rollbackUpdated (tx : ℕ) (req : DecisionRequest) (d : Decision) (new : ApprovalRow)
      (hpc : s.dash tx = .updated req d new) :
      RowStep s (.rollback tx) { s.setDash tx (.failed none) with lock := none }
  | signal (tx : ℕ) (req : DecisionRequest) (d : Decision)
      (hpc : s.dash tx = .committed req d) :
      RowStep s (.signal tx)
        { s.setDash tx (.signalled req d) with
          signals := ⟨s.row.approvalId, d, req.comment⟩ :: s.signals }
  | selectUndecided (tx : ℕ) (p : RecordPayload) (now : Instant)
      (hpc : s.work tx = .idle) (hdec : s.row.decision = none) :
      RowStep s (.select tx p now)
        (s.setWork tx (.selected p s.row (.ok { s.row with
          decision := some (p.decision.getD .denied), decidedBy := none,
          comment := p.comment, decidedAt := some now })))
  | selectDecided (tx : ℕ) (p : RecordPayload) (now : Instant)
      (hpc : s.work tx = .idle) (hdec : s.row.decision ≠ none) :
      RowStep s (.select tx p now) (s.setWork tx (.selected p s.row (.error .valueError)))
  | flush (tx : ℕ) (p : RecordPayload) (loaded assigned : ApprovalRow)
      (hpc : s.work tx = .selected p loaded (.ok assigned)) (hlock : s.lock = none) :
      RowStep s (.flush tx)
        { s.setWork tx (.flushed p loaded (ormUpdate loaded assigned s.row)) with
          lock := some (.work tx) }
  | finishUnchanged (tx : ℕ) (p : RecordPayload) (loaded : ApprovalRow) (e : DecideError)
      (hpc : s.work tx = .selected p loaded (.error e)) :
      RowStep s (.finish tx)
        ((s.install s.row (recordAudits p (e = .valueError))).setWork tx (.finished p loaded))
  | finishFlushed (tx : ℕ) (p : RecordPayload) (loaded new : ApprovalRow)
      (hpc : s.work tx = .flushed p loaded new) :
      RowStep s (.finish tx)
        { (s.install new (recordAudits p false)).setWork tx (.finished p loaded) with
          lock := none }
  | workRollbackSelected (tx : ℕ) (p : RecordPayload) (loaded : ApprovalRow)
      (o : Except DecideError ApprovalRow) (hpc : s.work tx = .selected p loaded o) :
      RowStep s (.workRollback tx) (s.setWork tx .failed)
  | workRollbackFlushed (tx : ℕ) (p : RecordPayload) (loaded new : ApprovalRow)
      (hpc : s.work tx = .flushed p loaded new) :
      RowStep s (.workRollback tx) { s.setWork tx .failed with lock := none }

theorem checkDecision_ok (req : DecisionRequest) (row : Option ApprovalRow)
    (inv : Option Status) (d : Decision) (h : checkDecision req row inv = .ok d) :
    req.decision.bind Decision.parse = some d := by grind [checkDecision]

theorem row_step_sound (s t : RowState) (e : RowEvent) (h : s.step e = some t) :
    RowStep s e t := by
  cases e with
  | check tx req inv => grind [RowState.step, checkDecision_ok, RowStep]
  | update tx now =>
    simp only [RowState.step] at h
    split at h
    · next hpc =>
      split_ifs at h with hl
      have hlock : s.lock = none := not_not.mp hl
      grind [decideUpdate, RowStep]
    · cases h
  | select tx p now => grind [RowState.step, decideApproval, RowStep]
  | _ => grind [RowState.step, RowStep]

def ApprovalRow.request (r : ApprovalRow) : Uuid × Uuid × ApprovalKind × Subject :=
  (r.approvalId, r.investigationId, r.kind, r.subject)

/-- What holds of a row created as `r0`, in every interleaving. A transaction
that has executed its UPDATE holds the lock, so the row it will replace is
still the undecided one it saw; hence at most one decision is ever committed
by the dashboard, and a signal is only sent for a committed decision. -/
structure RowInv (r0 : ApprovalRow) (s : RowState) : Prop where
  request : ApprovalRow.request s.row = ApprovalRow.request r0
  updated : ∀ tx req d new, s.dash tx = .updated req d new →
    s.lock = some (.dash tx) ∧ s.row.decision = none ∧
    new.verdict = (some d, some req.decidedBy) ∧
    ApprovalRow.request new = ApprovalRow.request r0
  flushed : ∀ tx p loaded new, s.work tx = .flushed p loaded new →
    s.lock = some (.work tx) ∧ new.decision = some (p.decision.getD .denied) ∧
    ApprovalRow.request new = ApprovalRow.request r0
  selected : ∀ tx p loaded assigned, s.work tx = .selected p loaded (.ok assigned) →
    loaded.decision = none ∧ assigned.decision = some (p.decision.getD .denied)
  committed : ∀ tx req d, s.dash tx = .committed req d → (d, req.decidedBy) ∈ s.commits
  signals : ∀ g ∈ s.signals, g.approvalId = r0.approvalId ∧ ∃ u, (g.decision, u) ∈ s.commits
  decided : s.commits ≠ [] → s.row.decision ≠ none
  once : s.commits.length ≤ 1

theorem rowInv_created (r0 : ApprovalRow) : RowInv r0 (.created r0) := by
  constructor <;> simp [RowState.created]

theorem ormUpdate_decision (loaded assigned current : ApprovalRow)
    (h : assigned.decision ≠ loaded.decision) :
    (ormUpdate loaded assigned current).decision = assigned.decision := by
  simp [ormUpdate, h]

variable {r0 : ApprovalRow}

section Steps

variable {s : RowState} (h : RowInv r0 s)

include h

theorem rowInv_setDash (tx : ℕ) (pc : DashPc) (hu : ∀ req d new, pc ≠ .updated req d new)
    (hc : ∀ req d, pc ≠ .committed req d) : RowInv r0 (s.setDash tx pc) :=
  { h with
    updated := by
      intro tx' req d new hpc
      rw [setDash_dash] at hpc
      split_ifs at hpc
      · exact absurd hpc (hu req d new)
      · exact h.updated tx' req d new hpc
    committed := by
      intro tx' req d hpc
      rw [setDash_dash] at hpc
      split_ifs at hpc
      · exact absurd hpc (hc req d)
      · exact h.committed tx' req d hpc }

theorem rowInv_setWork (tx : ℕ) (pc : WorkPc) (hf : ∀ p loaded new, pc ≠ .flushed p loaded new)
    (hsel : ∀ p loaded assigned, pc = .selected p loaded (.ok assigned) →
      loaded.decision = none ∧ assigned.decision = some (p.decision.getD .denied)) :
    RowInv r0 (s.setWork tx pc) :=
  { h with
    flushed := by
      intro tx' p loaded new hpc
      rw [setWork_work] at hpc
      split_ifs at hpc
      · exact absurd hpc (hf p loaded new)
      · exact h.flushed tx' p loaded new hpc
    selected := by
      intro tx' p loaded assigned hpc
      rw [setWork_work] at hpc
      split_ifs at hpc
      · exact hsel p loaded assigned hpc
      · exact h.selected tx' p loaded assigned hpc }

theorem rowInv_unlock (hd : ∀ tx req d new, s.dash tx ≠ .updated req d new)
    (hw : ∀ tx p loaded new, s.work tx ≠ .flushed p loaded new) :
    RowInv r0 { s with lock := none } :=
  { h with
    updated := fun tx req d new hpc => absurd hpc (hd tx req d new)
    flushed := fun tx p loaded new hpc => absurd hpc (hw tx p loaded new) }

theorem sole_dash_holder (tx : ℕ) (hl : s.lock = some (.dash tx)) :
    (∀ tx' req d new, s.dash tx' = .updated req d new → tx' = tx) ∧
    ∀ tx' p loaded new, s.work tx' ≠ .flushed p loaded new := by
  refine ⟨?_, ?_⟩
  · intro tx' req d new hpc
    have hl' := (h.updated tx' req d new hpc).1
    rw [hl] at hl'
    cases hl'
    rfl
  · intro tx' p loaded new hpc
    have hl' := (h.flushed tx' p loaded new hpc).1
    rw [hl] at hl'
    cases hl'

theorem sole_work_holder (tx : ℕ) (hl : s.lock = some (.work tx)) :
    (∀ tx' p loaded new, s.work tx' = .flushed p loaded new → tx' = tx) ∧
    ∀ tx' req d new, s.dash tx' ≠ .updated req d new := by
  refine ⟨?_, ?_⟩
  · intro tx' p loaded new hpc
    have hl' := (h.flushed tx' p loaded new hpc).1
    rw [hl] at hl'
    cases hl'
    rfl
  · intro tx' req d new hpc
    have hl' := (h.updated tx' req d new hpc).1
    rw [hl] at hl'
    cases hl'

theorem no_holder (hl : s.lock = none) :
    (∀ tx req d new, s.dash tx ≠ .updated req d new) ∧
    ∀ tx p loaded new, s.work tx ≠ .flushed p loaded new := by
  refine ⟨?_, ?_⟩
  · intro tx req d new hpc
    have hl' := (h.updated tx req d new hpc).1
    rw [hl] at hl'
    cases hl'
  · intro tx p loaded new hpc
    have hl' := (h.flushed tx p loaded new hpc).1
    rw [hl] at hl'
    cases hl'

theorem rowInv_updateHit (tx : ℕ) (now : Instant) (req : DecisionRequest) (d : Decision)
    (hl : s.lock = none) (hdec : s.row.decision = none) :
    RowInv r0 { s.setDash tx (.updated req d { s.row with
        decision := some d, decidedBy := some req.decidedBy,
        decidedAt := some now, comment := req.comment }) with
      lock := some (.dash tx) } := by
  obtain ⟨hd, hw⟩ := no_holder h hl
  exact
    { h with
      updated := by
        intro tx' req' d' new hpc
        simp only [setDash_dash] at hpc
        split_ifs at hpc with htx
        · cases hpc
          subst htx
          exact ⟨rfl, hdec, rfl, h.request⟩
        · exact absurd hpc (hd tx' req' d' new)
      committed := by
        intro tx' req' d' hpc
        simp only [setDash_dash] at hpc
        split_ifs at hpc
        exact h.committed tx' req' d' hpc
      flushed := fun tx' p loaded new hpc => absurd hpc (hw tx' p loaded new) }

theorem rowInv_commit (tx : ℕ) (req : DecisionRequest) (d : Decision) (new : ApprovalRow)
    (hpc : s.dash tx = .updated req d new) :
    RowInv r0 { (s.install new (decideAudits s.row d req)).setDash tx (.committed req d) with
      lock := none, commits := (d, req.decidedBy) :: s.commits } := by
  obtain ⟨hl, hdec, hv, hreq⟩ := h.updated tx req d new hpc
  obtain ⟨hd, hw⟩ := sole_dash_holder h tx hl
  have hnone : s.commits = [] := by
    by_contra hne
    exact h.decided hne hdec
  exact
    { request := hreq
      updated := by
        intro tx' req' d' new' hpc'
        simp only [setDash_dash, install_dash] at hpc'
        grind
      flushed := fun tx' p loaded new' hpc' => absurd hpc' (hw tx' p loaded new')
      selected := h.selected
      committed := by
        intro tx' req' d' hpc'
        simp only [setDash_dash, install_dash] at hpc'
        split_ifs at hpc' with htx
        · grind
        · exact List.mem_cons_of_mem _ (h.committed tx' req' d' hpc')
      signals := by
        intro g hg
        obtain ⟨ha, u, hu⟩ := h.signals g hg
        exact ⟨ha, u, List.mem_cons_of_mem _ hu⟩
      decided := by
        intro _ hn
        have hn' : new.decision = none := hn
        have hv' := congrArg Prod.fst hv
        simp [ApprovalRow.verdict, hn'] at hv'
      once := by simp [hnone] }

theorem rowInv_signal (tx : ℕ) (req : DecisionRequest) (d : Decision)
    (hpc : s.dash tx = .committed req d) :
    RowInv r0 { s.setDash tx (.signalled req d) with
      signals := ⟨s.row.approvalId, d, req.comment⟩ :: s.signals } := by
  have hbase := rowInv_setDash h tx (.signalled req d) (by simp) (by simp)
  refine { hbase with signals := ?_ }
  intro g hg
  rcases List.mem_cons.mp hg with rfl | hg
  · have hid : s.row.approvalId = r0.approvalId := congrArg Prod.fst h.request
    exact ⟨hid, req.decidedBy, h.committed tx req d hpc⟩
  · exact h.signals g hg

theorem rowInv_flush (tx : ℕ) (p : RecordPayload) (loaded assigned : ApprovalRow)
    (hpc : s.work tx = .selected p loaded (.ok assigned)) (hl : s.lock = none) :
    RowInv r0 { s.setWork tx (.flushed p loaded (ormUpdate loaded assigned s.row)) with
      lock := some (.work tx) } := by
  obtain ⟨hd, hw⟩ := no_holder h hl
  obtain ⟨hload, hass⟩ := h.selected tx p loaded assigned hpc
  have hne : assigned.decision ≠ loaded.decision := by simp [hload, hass]
  exact
    { h with
      updated := fun tx' req d new hpc' => absurd hpc' (hd tx' req d new)
      flushed := by
        intro tx' p' loaded' new hpc'
        simp only [setWork_work] at hpc'
        split_ifs at hpc' with htx
        · cases hpc'
          subst htx
          exact ⟨rfl, (ormUpdate_decision _ _ _ hne).trans hass, h.request⟩
        · exact absurd hpc' (hw tx' p' loaded' new)
      selected := by
        intro tx' p' loaded' assigned' hpc'
        simp only [setWork_work] at hpc'
        split_ifs at hpc'
        exact h.selected tx' p' loaded' assigned' hpc' }

theorem rowInv_finishFlushed (tx : ℕ) (p : RecordPayload) (loaded new : ApprovalRow)
    (hpc : s.work tx = .flushed p loaded new) :
    RowInv r0 { (s.install new (recordAudits p false)).setWork tx (.finished p loaded) with
      lock := none } := by
  obtain ⟨hl, hnew, hreq⟩ := h.flushed tx p loaded new hpc
  obtain ⟨hw, hd⟩ := sole_work_holder h tx hl
  exact
    { request := hreq
      updated := fun tx' req d new' hpc' => absurd hpc' (hd tx' req d new')
      flushed := by
        intro tx' p' loaded' new' hpc'
        simp only [setWork_work, install_work] at hpc'
        grind
      selected := by
        intro tx' p' loaded' assigned' hpc'
        simp only [setWork_work, install_work] at hpc'
        split_ifs at hpc'
        exact h.selected tx' p' loaded' assigned' hpc'
      committed := h.committed
      signals := h.signals
      decided := by
        intro _ hn
        have hn' : new.decision = none := hn
        rw [hnew] at hn'
        cases hn'
      once := h.once }

end Steps

theorem rowInv_step (s t : RowState) (e : RowEvent) (h : RowInv r0 s) (hs : s.step e = some t) :
    RowInv r0 t := by
  cases row_step_sound s t e hs with
  | checkFailed tx req inv e hpc => exact rowInv_setDash h tx _ (by simp) (by simp)
  | checkPassed tx req inv d hpc hd => exact rowInv_setDash h tx _ (by simp) (by simp)
  | updateMissed tx now req d hpc hl hd => exact rowInv_setDash h tx _ (by simp) (by simp)
  | updateHit tx now req d hpc hl hd => exact rowInv_updateHit h tx now req d hl hd
  | commit tx req d new hpc => exact rowInv_commit h tx req d new hpc
  | rollbackChecked tx req d hpc => exact rowInv_setDash h tx _ (by simp) (by simp)
  | rollbackUpdated tx req d new hpc =>
    have hl := (h.updated tx req d new hpc).1
    obtain ⟨hd, hw⟩ := sole_dash_holder h tx hl
    apply rowInv_unlock (rowInv_setDash h tx _ (by simp) (by simp))
    · grind [setDash_dash]
    · exact hw
  | signal tx req d hpc => exact rowInv_signal h tx req d hpc
  | selectUndecided tx p now hpc hd =>
    apply rowInv_setWork h tx _ (by simp)
    grind
  | selectDecided tx p now hpc hd => exact rowInv_setWork h tx _ (by simp) (by simp)
  | flush tx p loaded assigned hpc hl => exact rowInv_flush h tx p loaded assigned hpc hl
  | finishUnchanged tx p loaded e hpc =>
    have hi : RowInv r0 (s.install s.row (recordAudits p (e = .valueError))) := { h with }
    exact rowInv_setWork hi tx _ (by simp) (by simp)
  | finishFlushed tx p loaded new hpc => exact rowInv_finishFlushed h tx p loaded new hpc
  | workRollbackSelected tx p loaded o hpc => exact rowInv_setWork h tx _ (by simp) (by simp)
  | workRollbackFlushed tx p loaded new hpc =>
    have hl := (h.flushed tx p loaded new hpc).1
    obtain ⟨hw, hd⟩ := sole_work_holder h tx hl
    apply rowInv_unlock (rowInv_setWork h tx _ (by simp) (by simp))
    · exact hd
    · grind [setWork_work]

end DbAgent.Approval
