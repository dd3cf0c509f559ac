import DbAgent.ApprovalRowInvariant

/-! Who decides an approval. The dashboard decides by a conditional UPDATE,
the worker by an ORM read followed by a write; the audit log is compared with
what the row finally says. -/
namespace DbAgent.Approval

open Transition Prod

/-- The row of `approvals` that `create_approval` has committed as `r0`. -/
def rowSystem (r0 : ApprovalRow) : System RowState RowEvent where
  init s := s = .created r0
  step s e := s.step e

/-- What `_request_approval` hands to `record_approval_decision`: the denial
of an expired timer, or the content of a signal that was delivered to it. -/
def RecordInput (s : RowState) (p : RecordPayload) : Prop :=
  p.approvalId = s.row.approvalId ∧
  ((p.isTimeout = true ∧ p.decision = some .denied) ∨
    (p.isTimeout = false ∧ ∃ g ∈ s.signals, p.decision = some g.decision))

/-- The worker runs one `record_approval_decision` transaction for the row. -/
def OneWorker (s : RowState) (e : RowEvent) : Prop :=
  ∀ tx p now, e = .select tx p now → (∀ tx', s.work tx' = .idle) ∧ RecordInput s p

/-- No dashboard transaction commits while the worker stands between its read
of the undecided row and its UPDATE. -/
def NotOvertaken (s : RowState) (e : RowEvent) : Prop :=
  ∀ tx, e = .commit tx →
    ∀ tx' p loaded assigned, s.work tx' ≠ .selected p loaded (.ok assigned)

def ApprovalAudit.isDecided : ApprovalAudit → Bool
  | .approvalDecided _ _ _ _ => true
  | _ => false

/-- The `approval_decided` rows of an audit log. -/
def decisionRows (audit : List ApprovalAuditRow) : List ApprovalAuditRow :=
  audit.filter (fun a => ApprovalAudit.isDecided a.entry)

/-- The actor `decided_by` stands for; NULL is the system. -/
def deciderOf (row : ApprovalRow) : Actor :=
  match row.decidedBy with
  | some u => .user u
  | none => .system

def Matches (a : ApprovalAuditRow) (row : ApprovalRow) : Prop :=
  a.actor = deciderOf row ∧
    ∃ comment kind, a.entry = .approvalDecided row.approvalId row.decision comment kind

/-- The `approval_decided` row the worker writes for an expired timer. -/
def timeoutRow (p : RecordPayload) : ApprovalAuditRow :=
  ⟨p.investigationId, .system, .approvalDecided p.approvalId p.decision p.comment p.kind⟩

/-- The pair (`decision`, `decided_by`) has changed at most once, from NULL. -/
def ChangedOnce (s : RowState) : Prop :=
  s.changes.length ≤ 1 ∧ ∀ c ∈ s.changes, c.1 = (none, none)

/-- The audit log has exactly one `approval_decided` row, and it matches. -/
def AuditedOnce (s : RowState) : Prop :=
  ∃ a, Matches a s.row ∧ decisionRows s.audit = [a]

@[simp] theorem decisionRows_append (xs ys : List ApprovalAuditRow) :
    decisionRows (xs ++ ys) = decisionRows xs ++ decisionRows ys := by
  simp [decisionRows]

theorem decisionRows_decideAudits (row : ApprovalRow) (d : Decision) (req : DecisionRequest) :
    decisionRows (decideAudits row d req) = [⟨row.investigationId, .user req.decidedBy,
      .approvalDecided row.approvalId (some d) req.comment row.kind⟩] := by
  unfold decideAudits decisionRows
  cases row.kind <;> cases d <;> rfl

theorem decisionRows_recordAudits (p : RecordPayload) (already : Bool) :
    decisionRows (recordAudits p already) =
      if already = true ∧ p.isTimeout = false then [] else [timeoutRow p] := by
  obtain ⟨inv, aid, dec, com, kind, late⟩ := p
  unfold recordAudits decisionRows timeoutRow
  cases already <;> cases late <;> cases kind <;> rcases dec with _ | (_ | _ | _) <;> rfl

/-- What the committed row, its history and its audit rows say at every point
of a run that is not overtaken. While the row is undecided nothing has been
written; from then on the worker can only add the audit row of a timer that
expired too late. -/
structure Ledger (r0 : ApprovalRow) (s : RowState) : Prop where
  inv : RowInv r0 s
  sole : ∀ tx tx', s.work tx ≠ .idle → s.work tx' ≠ .idle → tx = tx'
  undecided : s.row.decision = none → s.row.decidedBy = none ∧ s.changes = [] ∧
    decisionRows s.audit = [] ∧ ∀ tx p loaded, s.work tx ≠ .finished p loaded
  decided : s.row.decision ≠ none → s.changes = [((none, none), s.row.verdict)]
  audited : s.row.decision ≠ none → ∃ a, Matches a s.row ∧
    (((∀ tx p loaded, s.work tx = .finished p loaded →
        ¬(p.isTimeout = true ∧ loaded.decision ≠ none)) ∧ decisionRows s.audit = [a]) ∨
      ∃ tx p loaded, s.work tx = .finished p loaded ∧ p.isTimeout = true ∧
        loaded.decision ≠ none ∧ decisionRows s.audit = [a, timeoutRow p])
  pending : ∀ tx p loaded assigned, s.work tx = .selected p loaded (.ok assigned) →
    s.row.decision = none ∧ loaded = s.row ∧ assigned.verdict = (some .denied, none) ∧
    p.decision = some .denied ∧ p.approvalId = r0.approvalId
  flushed : ∀ tx p loaded new, s.work tx = .flushed p loaded new →
    s.row.decision = none ∧ loaded.decision = none ∧ new.verdict = (some .denied, none) ∧
    p.decision = some .denied ∧ p.approvalId = r0.approvalId
  refused : ∀ tx p loaded e, s.work tx = .selected p loaded (.error e) →
    e = .valueError ∧ loaded.decision ≠ none ∧ s.row.decision ≠ none

variable {r0 : ApprovalRow}

theorem ledger_created (h0 : r0.verdict = (none, none)) : Ledger r0 (.created r0) := by
  have hd : r0.decision = none := congrArg fst h0
  have hb : r0.decidedBy = none := congrArg snd h0
  refine ⟨rowInv_created r0, ?_, ?_, ?_, ?_, ?_, ?_, ?_⟩ <;>
    simp [RowState.created, hd, hb, decisionRows]

variable {s t : RowState}

theorem ledger_frame (h : Ledger r0 s) (hi : RowInv r0 t) (hrow : t.row = s.row)
    (haudit : t.audit = s.audit) (hchanges : t.changes = s.changes) (hwork : t.work = s.work) :
    Ledger r0 t := by
  obtain ⟨_, hsole, hund, hdec, haud, hpen, hflu, href⟩ := h
  refine ⟨hi, ?_, ?_, ?_, ?_, ?_, ?_, ?_⟩
  · rwa [hwork]
  · rwa [hrow, haudit, hchanges, hwork]
  · rwa [hrow, hchanges]
  · rwa [hrow, haudit, hwork]
  · rwa [hrow, hwork]
  · rwa [hrow, hwork]
  · rwa [hrow, hwork]

theorem ledger_commit (h : Ledger r0 s) (hi : RowInv r0 t) (tx : ℕ) (req : DecisionRequest)
    (d : Decision) (new : ApprovalRow) (hpc : s.dash tx = .updated req d new)
    (hno : ∀ tx' p loaded assigned, s.work tx' ≠ .selected p loaded (.ok assigned))
    (hrow : t.row = new) (haudit : t.audit = s.audit ++ decideAudits s.row d req)
    (hchanges : t.changes = (s.install new (decideAudits s.row d req)).changes)
    (hwork : t.work = s.work) : Ledger r0 t := by
  obtain ⟨hlock, hdec, hv, hreq⟩ := h.inv.updated tx req d new hpc
  obtain ⟨hby, hch, hau, hfin⟩ := h.undecided hdec
  have hold : s.row.verdict = (none, none) := by simp [ApprovalRow.verdict, hdec, hby]
  have hnd : new.decision = some d := congrArg fst hv
  have hnb : new.decidedBy = some req.decidedBy := congrArg snd hv
  have hid : new.approvalId = s.row.approvalId :=
    congrArg fst (hreq.trans h.inv.request.symm)
  -- this transaction holds the row lock, so the worker has flushed nothing
  have hnf := (sole_dash_holder h.inv tx hlock).2
  refine ⟨hi, ?_, ?_, ?_, ?_, ?_, ?_, ?_⟩
  · rw [hwork]
    exact h.sole
  · grind
  · intro _
    rw [hchanges, hrow]
    simp [RowState.install, hch, hold, hv]
  · intro _
    rw [hrow, haudit, hwork]
    refine ⟨⟨s.row.investigationId, .user req.decidedBy,
      .approvalDecided s.row.approvalId (some d) req.comment s.row.kind⟩, ?_, Or.inl ⟨?_, ?_⟩⟩
    · refine ⟨by simp [deciderOf, hnb], req.comment, s.row.kind, ?_⟩
      rw [hid, hnd]
    · grind
    · simp [hau, decisionRows_decideAudits]
  · simp_all
  · simp_all
  · intro tx' p loaded e hpc'
    rw [hwork] at hpc'
    exact absurd hdec (h.refused tx' p loaded e hpc').2.2

theorem work_of_move (h : Ledger r0 s) (tx : ℕ) (pc : WorkPc) (hne : s.work tx ≠ .idle)
    (hwork : ∀ tx', t.work tx' = if tx' = tx then pc else s.work tx') (tx' : ℕ) :
    t.work tx' = if tx' = tx then pc else .idle := by
  rw [hwork]
  split_ifs with htx
  · rfl
  · by_contra hn
    exact htx (h.sole tx' tx hn hne)

section OneMover

variable (w : ℕ → WorkPc) (tx : ℕ) (pc : WorkPc)
  (hw : ∀ tx', w tx' = if tx' = tx then pc else .idle)
include hw

theorem eq_of_mover (tx' : ℕ) (pc' : WorkPc) (hpc : w tx' = pc') (hne : pc' ≠ .idle) :
    pc = pc' := by grind

theorem sole_of_mover (a b : ℕ) (ha : w a ≠ .idle) (hb : w b ≠ .idle) : a = b := by grind

end OneMover

variable {p : RecordPayload}

/-- The worker's read. On the human path the signal proves that the dashboard
has committed, so only an expired timer can find the row undecided. -/
theorem ledger_select (h : Ledger r0 s) (hi : RowInv r0 t) (tx : ℕ)
    (o : Except DecideError ApprovalRow) (hidle : ∀ tx', s.work tx' = .idle) (hp : RecordInput s p)
    (hok : ∀ a, o = .ok a → s.row.decision = none ∧
      a.verdict = (some (p.decision.getD .denied), none))
    (herr : ∀ e, o = .error e → e = .valueError ∧ s.row.decision ≠ none)
    (ht : t = s.setWork tx (.selected p s.row o)) : Ledger r0 t := by
  have hwork (tx' : ℕ) : t.work tx' = if tx' = tx then .selected p s.row o else .idle := by
    rw [ht, setWork_work, hidle tx']
  have hrow : t.row = s.row := by rw [ht]; rfl
  have haudit : t.audit = s.audit := by rw [ht]; rfl
  have hchanges : t.changes = s.changes := by rw [ht]; rfl
  have hnofin (tx' : ℕ) (p' : RecordPayload) (l : ApprovalRow) : t.work tx' ≠ .finished p' l := by
    rw [hwork]
    split_ifs <;> simp
  refine ⟨hi, sole_of_mover _ tx _ hwork, ?_, ?_, ?_, ?_, ?_, ?_⟩
  · intro hn
    rw [hrow] at hn
    obtain ⟨hb, hc, ha, -⟩ := h.undecided hn
    grind
  · rw [hrow, hchanges]
    exact h.decided
  · intro hd
    rw [hrow] at hd
    obtain ⟨a, hm, ha⟩ := h.audited hd
    grind
  · intro tx' p' l a hpc
    cases eq_of_mover _ tx _ hwork tx' _ hpc (by simp)
    obtain ⟨hd, hv⟩ := hok a rfl
    rcases hp.2 with ⟨-, hdec⟩ | ⟨-, g, hg, -⟩
    · have hid : s.row.approvalId = r0.approvalId := congrArg fst h.inv.request
      rw [hdec] at hv
      exact ⟨hrow ▸ hd, hrow.symm, hv, hdec, hp.1.trans hid⟩
    -- a signal is sent behind a commit, after which the row is decided
    · obtain ⟨-, u, hu⟩ := h.inv.signals g hg
      exact absurd hd (h.inv.decided (List.ne_nil_of_mem hu))
  · grind
  · grind

variable {loaded : ApprovalRow}

theorem ormUpdate_verdict (assigned : ApprovalRow) (hl : loaded.verdict = (none, none))
    (ha : assigned.verdict = (some .denied, none)) :
    (ormUpdate loaded assigned loaded).verdict = (some .denied, none) := by
  grind [ApprovalRow.verdict, mk.injEq, ormUpdate]

theorem ledger_flush (h : Ledger r0 s) (hi : RowInv r0 t) (tx : ℕ) (assigned : ApprovalRow)
    (hpc : s.work tx = .selected p loaded (.ok assigned)) (hrow : t.row = s.row)
    (haudit : t.audit = s.audit) (hchanges : t.changes = s.changes)
    (hmove : ∀ tx', t.work tx' = if tx' = tx then
      .flushed p loaded (ormUpdate loaded assigned s.row) else s.work tx') : Ledger r0 t := by
  obtain ⟨hdec, hload, hv, hp, hid⟩ := h.pending tx p loaded assigned hpc
  obtain ⟨hby, hch, hau, -⟩ := h.undecided hdec
  have hwork := work_of_move h tx _ (by simp [hpc]) hmove
  have hold : s.row.verdict = (none, none) := by simp [ApprovalRow.verdict, hdec, hby]
  refine ⟨hi, sole_of_mover _ tx _ hwork, ?_, ?_, ?_, ?_, ?_, ?_⟩
  · grind
  · grind
  · grind
  · grind
  · intro tx' p' l n hpc'
    cases eq_of_mover _ tx _ hwork tx' _ hpc' (by simp)
    subst hload
    exact ⟨hrow ▸ hdec, hdec, ormUpdate_verdict _ hold hv, hp, hid⟩
  · grind

theorem ledger_finishFlushed (h : Ledger r0 s) (hi : RowInv r0 t) (tx : ℕ) (new : ApprovalRow)
    (hpc : s.work tx = .flushed p loaded new) (hrow : t.row = new)
    (haudit : t.audit = s.audit ++ recordAudits p false)
    (hchanges : t.changes = (s.install new (recordAudits p false)).changes)
    (hmove : ∀ tx', t.work tx' = if tx' = tx then .finished p loaded else s.work tx') :
    Ledger r0 t := by
  obtain ⟨hdec, hload, hv, hp, hid⟩ := h.flushed tx p loaded new hpc
  obtain ⟨hby, hch, hau, -⟩ := h.undecided hdec
  have hwork := work_of_move h tx _ (by simp [hpc]) hmove
  have hold : s.row.verdict = (none, none) := by simp [ApprovalRow.verdict, hdec, hby]
  have hnd : new.decision = some .denied := congrArg fst hv
  have hnb : new.decidedBy = none := congrArg snd hv
  have hnid : new.approvalId = r0.approvalId :=
    congrArg fst (h.inv.flushed tx p loaded new hpc).2.2
  refine ⟨hi, sole_of_mover _ tx _ hwork, ?_, ?_, ?_, ?_, ?_, ?_⟩
  · grind
  · intro _
    rw [hchanges, hrow]
    simp [RowState.install, hch, hold, hv]
  · intro _
    refine ⟨timeoutRow p, ⟨?_, p.comment, p.kind, ?_⟩, Or.inl ⟨?_, ?_⟩⟩
    · simp [timeoutRow, deciderOf, hrow, hnb]
    · simp [timeoutRow, hrow, hnd, hp, hid, hnid]
    · intro tx' p' l hpc'
      cases eq_of_mover _ tx _ hwork tx' _ hpc' (by simp)
      -- the timer has found the row undecided and adds no second row
      exact fun hc => hc.2 hload
    · simp [haudit, hau, decisionRows_recordAudits]
  · grind
  · grind
  · grind

/-- The worker found the row decided: on the human path it writes nothing, on
the timer's path it adds its own audit row. -/
theorem ledger_finishUnchanged (h : Ledger r0 s) (hi : RowInv r0 t) (tx : ℕ) (e : DecideError)
    (hpc : s.work tx = .selected p loaded (.error e)) (hrow : t.row = s.row)
    (haudit : t.audit = s.audit ++ recordAudits p (e = .valueError))
    (hchanges : t.changes = s.changes)
    (hmove : ∀ tx', t.work tx' = if tx' = tx then .finished p loaded else s.work tx') :
    Ledger r0 t := by
  obtain ⟨rfl, hload, hdec⟩ := h.refused tx p loaded e hpc
  have hwork := work_of_move h tx _ (by simp [hpc]) hmove
  refine ⟨hi, sole_of_mover _ tx _ hwork, ?_, ?_, ?_, ?_, ?_, ?_⟩
  · grind
  · rw [hrow, hchanges]
    exact h.decided
  · intro _
    obtain ⟨a, hm, ha⟩ := h.audited hdec
    -- no other attempt has finished, so the decider's row stands alone
    have hone : decisionRows s.audit = [a] := by
      rcases ha with ⟨-, ha⟩ | ⟨tx', p', l, hpc', -⟩
      · exact ha
      · grind
    refine ⟨a, hrow ▸ hm, ?_⟩
    cases hto : p.isTimeout with
    | false =>
      refine Or.inl ⟨?_, by simp [haudit, hone, decisionRows_recordAudits, hto]⟩
      grind
    | true =>
      refine Or.inr ⟨tx, p, loaded, by rw [hwork, if_pos rfl], hto, hload, ?_⟩
      simp [haudit, hone, decisionRows_recordAudits, hto]
  · grind
  · grind
  · grind

theorem ledger_workRollback (h : Ledger r0 s) (hi : RowInv r0 t) (tx : ℕ) (hne : s.work tx ≠ .idle)
    (hnf : ∀ p loaded, s.work tx ≠ .finished p loaded) (hrow : t.row = s.row)
    (haudit : t.audit = s.audit) (hchanges : t.changes = s.changes)
    (hmove : ∀ tx', t.work tx' = if tx' = tx then .failed else s.work tx') : Ledger r0 t := by
  have hwork := work_of_move h tx _ hne hmove
  have hnofin (tx' : ℕ) (p : RecordPayload) (l : ApprovalRow) : t.work tx' ≠ .finished p l := by
    intro hpc
    cases eq_of_mover _ tx _ hwork tx' _ hpc (by simp)
  refine ⟨hi, sole_of_mover _ tx _ hwork, ?_, ?_, ?_, ?_, ?_, ?_⟩
  · intro hn
    rw [hrow] at hn
    obtain ⟨hb, hc, ha, -⟩ := h.undecided hn
    grind
  · rw [hrow, hchanges]
    exact h.decided
  · intro hd
    rw [hrow] at hd
    obtain ⟨a, hm, ha⟩ := h.audited hd
    grind
  · grind
  · grind
  · grind

theorem ledger_step (e : RowEvent) (h : Ledger r0 s) (hone : OneWorker s e)
    (hover : NotOvertaken s e) (hs : s.step e = some t) : Ledger r0 t := by
  have hi := rowInv_step s t e h.inv hs
  cases row_step_sound s t e hs with
  | checkFailed tx req inv e hpc => exact ledger_frame h hi rfl rfl rfl rfl
  | checkPassed tx req inv d hpc hd => exact ledger_frame h hi rfl rfl rfl rfl
  | updateMissed tx now req d hpc hl hd => exact ledger_frame h hi rfl rfl rfl rfl
  | updateHit tx now req d hpc hl hd => exact ledger_frame h hi rfl rfl rfl rfl
  | rollbackChecked tx req d hpc => exact ledger_frame h hi rfl rfl rfl rfl
  | rollbackUpdated tx req d new hpc => exact ledger_frame h hi rfl rfl rfl rfl
  | signal tx req d hpc => exact ledger_frame h hi rfl rfl rfl rfl
  | commit tx req d new hpc =>
    exact ledger_commit h hi tx req d new hpc (hover tx rfl) rfl rfl rfl rfl
  | selectUndecided tx p now hpc hd =>
    obtain ⟨hidle, hp⟩ := hone tx p now rfl
    refine ledger_select h hi tx _ hidle hp ?_ (by simp) rfl
    intro a ha
    cases ha
    exact ⟨hd, rfl⟩
  | selectDecided tx p now hpc hd =>
    obtain ⟨hidle, hp⟩ := hone tx p now rfl
    refine ledger_select h hi tx _ hidle hp (by simp) ?_ rfl
    grind
  | flush tx p loaded assigned hpc hl =>
    exact ledger_flush h hi tx assigned hpc rfl rfl rfl (setWork_work s tx · _)
  | finishUnchanged tx p loaded e hpc =>
    refine ledger_finishUnchanged h hi tx e hpc rfl rfl ?_ (setWork_work _ tx · _)
    exact if_pos rfl
  | finishFlushed tx p loaded new hpc =>
    exact ledger_finishFlushed h hi tx new hpc rfl rfl rfl (setWork_work _ tx · _)
  | workRollbackSelected tx p loaded o hpc =>
    exact ledger_workRollback h hi tx (by simp [hpc]) (by simp [hpc]) rfl rfl rfl
      (setWork_work s tx · _)
  | workRollbackFlushed tx p loaded new hpc =>
    exact ledger_workRollback h hi tx (by simp [hpc]) (by simp [hpc]) rfl rfl rfl
      (setWork_work s tx · _)

theorem ledger_reach (h0 : r0.verdict = (none, none))
    (hs : (rowSystem r0).ReachVia (fun s e => OneWorker s e ∧ NotOvertaken s e) s) :
    Ledger r0 s := by
  refine reachVia_invariant _ _ (Ledger r0) ?_ ?_ s hs
  · intro s hs
    exact hs ▸ ledger_created h0
  · intro s e t _ hok h ht
    exact ledger_step e h hok.1 hok.2 ht

/-- The pair (`decision`, `decided_by`) changes at most once, and the log ends
with the `approval_decided` row of whoever changed it, followed by the timer's
own row if the timer expired on a row that was already decided. -/
theorem single_decider (r0 : ApprovalRow) (h0 : r0.verdict = (none, none)) (s : RowState)
    (hs : (rowSystem r0).ReachVia (fun s e => OneWorker s e ∧ NotOvertaken s e) s) :
    ChangedOnce s ∧
    ∀ tx p loaded, s.work tx = .finished p loaded →
      ∃ a, Matches a s.row ∧ decisionRows s.audit =
        a :: if p.isTimeout = true ∧ loaded.decision ≠ none then [timeoutRow p] else [] := by
  have h := ledger_reach h0 hs
  refine ⟨?_, ?_⟩
  · by_cases hd : s.row.decision = none
    · simp [ChangedOnce, (h.undecided hd).2.1]
    · simp [ChangedOnce, h.decided hd]
  · intro tx p loaded hpc
    have hd : s.row.decision ≠ none := fun hn => (h.undecided hn).2.2.2 tx p loaded hpc
    obtain ⟨a, hm, ⟨hno, ha⟩ | ⟨tx', p', l', hpc', hto, hl, ha⟩⟩ := h.audited hd
    · grind
    · have htx := h.sole tx' tx (by simp [hpc']) (by simp [hpc])
      grind

section Schedules

def sampleRow : ApprovalRow :=
  { approvalId := 1, investigationId := 2, kind := .rawCommand, subject := .request ⟨"", "", ""⟩,
    decision := none, decidedBy := none, decidedAt := none, comment := none, createdAt := 0 }

def sampleApproval : DecisionRequest := ⟨some "approved", none, 7⟩

def sampleTimeout : RecordPayload := ⟨2, 1, some .denied, none, .rawCommand, true⟩

/-- The human approves in time, but the timer expires before the signal is delivered: the log
ends with two `approval_decided` rows. -/
theorem single_decider_schedules :
    (∃ s, (rowSystem sampleRow).ReachVia OneWorker s ∧ ChangedOnce s ∧
      (∃ tx p loaded, s.work tx = .finished p loaded) ∧ ¬ AuditedOnce s) ∧
    ∃ s, (rowSystem sampleRow).ReachVia OneWorker s ∧ ¬ ChangedOnce s ∧
      s.row.verdict = (some .denied, some 7) := by
  have hother (s : RowState) (e : RowEvent) (h : ∀ tx p now, e ≠ .select tx p now) :
      OneWorker s e := fun tx p now he => absurd he (h tx p now)
  have hselect (s : RowState) (now : Instant) (hw : s.work = fun _ => .idle)
      (hid : s.row.approvalId = 1) : OneWorker s (.select 0 sampleTimeout now) := by
    rintro _ _ _ ⟨⟩
    exact ⟨fun tx => by rw [hw], hid.symm, Or.inl ⟨rfl, rfl⟩⟩
  refine ⟨⟨_, .step (e := .finish 0) (.step (e := .select 0 sampleTimeout 9)
    (.step (e := .commit 0) (.step (e := .update 0 5)
      (.step (e := .check 0 sampleApproval (some .awaitingApproval)) (.init rfl)
        (hother _ _ nofun) rfl) (hother _ _ nofun) rfl) (hother _ _ nofun) rfl)
      (hselect _ 9 rfl rfl) rfl) (hother _ _ nofun) rfl, ?_, ⟨0, _, _, rfl⟩, ?_⟩,
    ⟨_, .step (e := .finish 0) (.step (e := .flush 0) (.step (e := .commit 0)
      (.step (e := .update 0 5) (.step (e := .check 0 sampleApproval (some .awaitingApproval))
        (.step (e := .select 0 sampleTimeout 4) (.init rfl) (hselect _ 4 rfl rfl) rfl)
        (hother _ _ nofun) rfl) (hother _ _ nofun) rfl) (hother _ _ nofun) rfl)
        (hother _ _ nofun) rfl) (hother _ _ nofun) rfl, ?_, rfl⟩⟩
  · exact ⟨le_refl 1, fun c hc => by rw [List.mem_singleton.mp hc]; rfl⟩
  · rintro ⟨a, -, ha⟩
    have hlen := congrArg List.length ha
    have htwo : 2 = 1 := hlen
    omega
  · rintro ⟨hlen, -⟩
    have htwo : 2 ≤ 1 := hlen
    omega

/-- An approval in time, followed by the worker's record of its signal. -/
theorem single_decider_sample : ∃ s,
    (rowSystem sampleRow).ReachVia (fun s e => OneWorker s e ∧ NotOvertaken s e) s ∧
    s.row.verdict = (some .approved, some 7) ∧ ChangedOnce s ∧ AuditedOnce s := by
  have hother (s : RowState) (e : RowEvent) (h : ∀ tx p now, e ≠ .select tx p now)
      (hc : ∀ tx, e ≠ .commit tx) : OneWorker s e ∧ NotOvertaken s e :=
    ⟨fun tx p now he => absurd he (h tx p now), fun tx he => absurd he (hc tx)⟩
  have hs : ∃ s, (rowSystem sampleRow).ReachVia (fun s e => OneWorker s e ∧ NotOvertaken s e) s ∧
      s.row.verdict = (some .approved, some 7) ∧
      ∃ loaded, s.work 0 = .finished ⟨2, 1, some .approved, none, .rawCommand, false⟩ loaded := by
    refine ⟨_, .step (e := .finish 0)
      (.step (e := .select 0 ⟨2, 1, some .approved, none, .rawCommand, false⟩ 9)
      (.step (e := .signal 0) (.step (e := .commit 0) (.step (e := .update 0 5)
        (.step (e := .check 0 sampleApproval (some .awaitingApproval)) (.init rfl)
          (hother _ _ nofun nofun) rfl) (hother _ _ nofun nofun) rfl) ⟨nofun, ?_⟩ rfl)
        (hother _ _ nofun nofun) rfl) ⟨?_, nofun⟩ rfl) (hother _ _ nofun nofun) rfl, rfl, _, rfl⟩
    · intro tx _ tx' p loaded assigned hpc
      cases hpc
    · rintro _ _ _ ⟨⟩
      exact ⟨fun _ => rfl, rfl, Or.inr ⟨rfl, _, List.mem_singleton.mpr rfl, rfl⟩⟩
  obtain ⟨s, hreach, hv, loaded, hpc⟩ := hs
  obtain ⟨honce, haudit⟩ := single_decider sampleRow rfl s hreach
  exact ⟨s, hreach, hv, honce, by simpa [AuditedOnce] using haudit 0 _ loaded hpc⟩

end Schedules

end DbAgent.Approval
