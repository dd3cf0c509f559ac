import DbAgent.ApprovalSafety

/-! Whether what `_request_approval` returns is what the approvals row says.
The decision lives in the row and in the workflow; the signal carries it from
one to the other, and the timer may overtake the signal. -/
namespace DbAgent.ApprovalWorld

open Transition Approval Workflow

/-- A timer's `record_approval_decision` finds its row undecided or denied. -/
def TimelyTimeout (w : World) (e : Event) : Prop :=
  ∀ aid tx p now st, e = .row aid (.select tx p now) → w.rows aid = some st →
    p.isTimeout = true → st.row.decision = none ∨ st.row.decision = some .denied

/-- `_request_approval` returns `d` for the approval `aid`. -/
def Returns (w : World) (e : Event) (aid : Uuid) (d : DecisionDict) : Prop :=
  ∃ tx g w', e = .recordReply tx ∧ w.wf.pc = .recordDecision g aid d ∧ w.step e = some w'

@[simp] theorem recordsOf_append (h h' : List Call) :
    recordsOf (h ++ h') = recordsOf h ++ recordsOf h' := by
  simp [recordsOf]

theorem recordsOf_plain (c : Call) (h : c.isPlain = true) : recordsOf [c] = [] := by
  cases c <;> simp_all [recordsOf, Call.isPlain]

theorem recordsOf_write (c : Call) (h : c.isWrite = true) : recordsOf [c] = [] := by
  cases c <;> simp_all [recordsOf, Call.isWrite]

theorem recordsOf_outside (h : List Call) (d : Option DecisionDict) (t : State)
    (ho : Outside h d t) : recordsOf t.history = recordsOf h := by
  cases ho with
  | quiet hpc hd hh => rw [hh]
  | call c hc hpc hd hh => rw [hh, recordsOf_append, recordsOf_plain c hc, List.append_nil]
  | request g hpc hd hh =>
    rw [hh, recordsOf_append]
    exact List.append_nil _

/-- Every recorded gate was opened before the `n`th activity. -/
def Recorded (w : World) (n : ℕ) : Prop :=
  ∀ p ∈ recordsOf w.wf.history, ∃ m, w.created p.approvalId = some m ∧ m < n

/-- What a payload of `record_approval_decision` says is the timer's denial, or
a decision that the dashboard has committed. -/
def Grounded (w : World) (p : RecordPayload) : Prop :=
  (p.isTimeout = true ∧ p.decision = some .denied) ∨
    (p.isTimeout = false ∧ ∃ d, p.decision = some d ∧ Committed w p.approvalId d)

/-- The scheduled `record_approval_decision` activities: at most one for each
approval, and none yet for the gate the run is waiting at. -/
structure Filed (w : World) : Prop where
  earlier : Recorded w w.wf.history.length
  creating : ∀ g, w.wf.pc = .createApproval g → Recorded w (w.wf.history.length - 1)
  notifying : ∀ g aid, w.wf.pc = .notifyApproval g aid →
    ∃ n, w.created aid = some n ∧ Recorded w n
  waiting : ∀ g aid t, w.wf.pc = .waitDecision g aid t →
    ∃ n, w.created aid = some n ∧ Recorded w n
  recording : ∀ g aid d, w.wf.pc = .recordDecision g aid d →
    ∃ p ∈ recordsOf w.wf.history, p.approvalId = aid ∧ p.decision = d.decision
  unique : ∀ p ∈ recordsOf w.wf.history, ∀ q ∈ recordsOf w.wf.history,
    p.approvalId = q.approvalId → p = q
  grounded : ∀ p ∈ recordsOf w.wf.history, Grounded w p

variable {w w' : World}

theorem recorded_grow (hg : Grow w w') (hr : recordsOf w'.wf.history = recordsOf w.wf.history)
    (n n' : ℕ) (hn : n ≤ n') (h : Recorded w n) : Recorded w' n' := by
  intro p hp
  obtain ⟨m, hm, hlt⟩ := h p (hr ▸ hp)
  exact ⟨m, hg.created _ _ hm, hlt.trans_le hn⟩

theorem grounded_grow (hg : Grow w w') (p : RecordPayload) (h : Grounded w p) : Grounded w' p := by
  rcases h with h | ⟨hto, d, hd, hc⟩
  · exact Or.inl h
  · exact Or.inr ⟨hto, d, hd, committed_grow w w' hg d hc⟩

theorem filed_stay (h : Filed w) (hg : Grow w w') (hpc : w'.wf.pc = w.wf.pc)
    (hh : w'.wf.history = w.wf.history) : Filed w' := by
  have hr : recordsOf w'.wf.history = recordsOf w.wf.history := by rw [hh]
  have hgate (n : ℕ) (aid : Uuid) (hn : w.created aid = some n ∧ Recorded w n) :
      w'.created aid = some n ∧ Recorded w' n :=
    ⟨hg.created _ _ hn.1, recorded_grow hg hr n n le_rfl hn.2⟩
  refine ⟨?_, ?_, ?_, ?_, ?_, ?_, ?_⟩
  · exact recorded_grow hg hr _ _ (by rw [hh]) h.earlier
  · intro g hg'
    exact recorded_grow hg hr _ _ (by rw [hh]) (h.creating g (hpc ▸ hg'))
  · intro g aid hg'
    obtain ⟨n, hn⟩ := h.notifying g aid (hpc ▸ hg')
    exact ⟨n, hgate n aid hn⟩
  · intro g aid t hg'
    obtain ⟨n, hn⟩ := h.waiting g aid t (hpc ▸ hg')
    exact ⟨n, hgate n aid hn⟩
  · intro g aid d hg'
    rw [hr]
    exact h.recording g aid d (hpc ▸ hg')
  · rw [hr]
    exact h.unique
  · intro p hp
    exact grounded_grow hg p (h.grounded p (hr ▸ hp))

theorem filed_move (h : Filed w) (hg : Grow w w')
    (hr : recordsOf w'.wf.history = recordsOf w.wf.history)
    (pcs : (∀ g, w'.wf.pc = .createApproval g → Recorded w' (w'.wf.history.length - 1)) ∧
      (∀ g aid, w'.wf.pc = .notifyApproval g aid → ∃ n, w'.created aid = some n ∧ Recorded w' n) ∧
      (∀ g aid t, w'.wf.pc = .waitDecision g aid t →
        ∃ n, w'.created aid = some n ∧ Recorded w' n) ∧
      ∀ g aid d, w'.wf.pc ≠ .recordDecision g aid d) : Filed w' where
  earlier := recorded_grow hg hr _ _ hg.history.length_le h.earlier
  creating := pcs.1
  notifying := pcs.2.1
  waiting := pcs.2.2.1
  recording := fun g aid d hpc => absurd hpc (pcs.2.2.2 g aid d)
  unique := by
    rw [hr]
    exact h.unique
  grounded := fun p hp => grounded_grow hg p (h.grounded p (hr ▸ hp))

theorem filed_leave (h : Filed w) (hg : Grow w w')
    (hr : recordsOf w'.wf.history = recordsOf w.wf.history) (hpc : w'.wf.pc.inGate = false) :
    Filed w' := by
  have hne (pc : Pc) (hin : pc.inGate = true) : w'.wf.pc ≠ pc := by
    intro he
    rw [he, hin] at hpc
    cases hpc
  exact filed_move h hg hr
    ⟨fun g hg => absurd hg (hne _ rfl), fun g aid hg => absurd hg (hne _ rfl),
      fun g aid t hg => absurd hg (hne _ rfl), fun g aid d => hne _ rfl⟩

theorem filed_outside (h : Filed w) (hg : Grow w w')
    (ho : Outside w.wf.history w.wf.approvalDecision w'.wf) : Filed w' := by
  have hr := recordsOf_outside _ _ _ ho
  cases ho with
  | quiet hpc hd hh => exact filed_leave h hg hr hpc
  | call c hc hpc hd hh => exact filed_leave h hg hr hpc
  | request g hpc hd hh =>
    refine filed_move h hg hr ⟨?_, ?_, ?_, ?_⟩
    · intro g' hg'
      exact recorded_grow hg hr _ _ (by simp [hh]) h.earlier
    · grind
    · grind
    · grind

theorem filed_recordDecision (hw : Safe w) (h : Filed w) (g : Gate) (aid : Uuid) (t : Instant)
    (hpc : w.wf.pc = .waitDecision g aid t) (d : DecisionDict) (late : Bool)
    (hid : d.approvalId = some aid)
    (hgr : Grounded w ⟨w.wf.investigationId, aid, d.decision, d.comment, g.kind, late⟩) :
    Filed { w with wf := w.wf.recordDecision g aid d late } := by
  set p0 : RecordPayload := ⟨w.wf.investigationId, aid, d.decision, d.comment, g.kind, late⟩
  set w' : World := { w with wf := w.wf.recordDecision g aid d late }
  have hh : w'.wf.history = w.wf.history ++ [.recordApprovalDecision p0] := by
    simp [w', p0, State.recordDecision, State.schedule, hid]
  have hg : Grow w w' := grow_of_rows_eq _ _ rfl rfl (hh ▸ List.prefix_append _ _)
  have hmem (p : RecordPayload) :
      p ∈ recordsOf w'.wf.history ↔ p ∈ recordsOf w.wf.history ∨ p = p0 := by
    simp [hh, recordsOf]
  obtain ⟨n, hn, hrec⟩ := h.waiting g aid t hpc
  have hfresh (p : RecordPayload) (hp : p ∈ recordsOf w.wf.history) : p.approvalId ≠ aid := by
    intro he
    obtain ⟨m, hm, hlt⟩ := hrec p hp
    rw [he, hn] at hm
    cases hm
    exact absurd hlt (lt_irrefl _)
  refine ⟨?_, fun _ hp => (nomatch hp), fun _ _ hp => (nomatch hp), fun _ _ _ hp => (nomatch hp),
    ?_, ?_, ?_⟩
  · intro p hp
    rcases (hmem p).mp hp with hp | rfl
    · obtain ⟨m, hm, hlt⟩ := h.earlier p hp
      grind
    · obtain ⟨m, hm, ⟨inv, hcall⟩, -⟩ := hw.waiting g aid t hpc
      grind
  · intro g' aid' d' hp
    cases hp
    exact ⟨p0, (hmem p0).mpr (Or.inr rfl), rfl, rfl⟩
  · intro p hp q hq hpq
    rcases (hmem p).mp hp with hp | rfl <;> rcases (hmem q).mp hq with hq | rfl
    · exact h.unique p hp q hq hpq
    · exact absurd hpq (hfresh p hp)
    · exact absurd hpq.symm (hfresh q hq)
    · rfl
  · intro p hp
    rcases (hmem p).mp hp with hp | rfl
    · exact grounded_grow hg p (h.grounded p hp)
    · exact grounded_grow hg _ hgr

theorem filed_step (e : Event) (hw : Safe w) (h : Filed w) (hs : w.step e = some w') :
    Filed w' := by
  have hgrow := grow_step hw hs
  cases world_step_sound w w' e hs with
  | control sig wf hpc hh hd => exact filed_stay h hgrow hpc hh
  | deliver aid st g wf hrow hg hpc hh hd => exact filed_stay h hgrow hpc hh
  | createAttempt n aid inv kind subject hcall hfree => exact filed_stay h hgrow rfl rfl
  | createReply aid g hpc hc =>
    have hr : recordsOf (w.wf.afterCreateApproval g aid).history = recordsOf w.wf.history :=
      (recordsOf_append _ _).trans (List.append_nil _)
    refine filed_move h hgrow hr ⟨fun _ hp => (nomatch hp), ?_, fun _ _ _ hp => (nomatch hp),
      fun _ _ _ hp => (nomatch hp)⟩
    intro g' aid' hp
    cases hp
    exact ⟨_, hc, recorded_grow hgrow hr _ _ le_rfl (h.creating g hpc)⟩
  | row aid st st' e hrow hsched hstep => exact filed_stay h hgrow rfl rfl
  | recordReply tx g aid d st p loaded hpc hrow hwork =>
    obtain ⟨-, c, -, hc, hh, hout, -⟩ | ⟨-, ho⟩ := afterDecision_cases w.wf g d
    · refine filed_leave h hgrow ?_ hout
      simp [hh, recordsOf_write c hc]
    · exact filed_outside h hgrow ho
  | outside _ wf ho => exact filed_outside h hgrow ho
  | announced r g aid hpc =>
    refine filed_move h hgrow rfl ⟨fun _ hp => (nomatch hp), fun _ _ hp => (nomatch hp), ?_,
      fun _ _ _ hp => (nomatch hp)⟩
    intro g' aid' t' hp
    cases hp
    exact h.notifying g aid hpc
  | decided g aid t d hpc hd hid =>
    refine filed_recordDecision hw h g aid t hpc d false hid (Or.inr ⟨rfl, ?_⟩)
    have hf := hw.decision d hd
    obtain ⟨aid', st, sg, hid', hrow, hsg, hdec⟩ := hf
    exact ⟨sg.decision, hdec, committed_of_fromSignal hw d (hw.decision d hd) hid _ hdec⟩
  | expired g aid t hpc =>
    exact filed_recordDecision hw h g aid t hpc _ true rfl (Or.inl ⟨rfl, rfl⟩)
  | tick t => exact filed_stay h hgrow rfl rfl

/-- The payload an attempt of `record_approval_decision` works on. -/
def payloadOf : WorkPc → Option RecordPayload
  | .selected p _ _ => some p
  | .flushed p _ _ => some p
  | .finished p _ => some p
  | _ => none

/-- The attempts on a row, given the payloads `ps` scheduled for it. As long as
no timer has expired for it, the row says what the dashboard has committed;
and an attempt for an expired timer that found the row decided, or that is
through, leaves a denied row. -/
structure RowAgree (ps : List RecordPayload) (st : RowState) : Prop where
  carry : ∀ tx p, payloadOf (st.work tx) = some p → p ∈ ps
  human : (∀ p ∈ ps, p.isTimeout = false) → (∀ x ∈ st.commits, st.row.decision = some x.1) ∧
    (∀ tx p l a, st.work tx ≠ .selected p l (.ok a)) ∧
    ∀ tx p l new, st.work tx ≠ .flushed p l new
  refused : ∀ tx p l e, st.work tx = .selected p l (.error e) → p.isTimeout = true →
    st.row.decision = some .denied
  finished : ∀ tx p l, st.work tx = .finished p l → p.isTimeout = true →
    st.row.decision = some .denied

theorem rowAgree_created (row : ApprovalRow) (ps : List RecordPayload) :
    RowAgree ps (.created row) := by
  constructor <;> simp [RowState.created, payloadOf]

variable {ps : List RecordPayload} {st : RowState}

theorem rowAgree_subset (qs : List RecordPayload) (h : RowAgree ps st) (hsub : ∀ p ∈ ps, p ∈ qs) :
    RowAgree qs st :=
  { h with
    carry := fun tx p hp => hsub p (h.carry tx p hp)
    human := fun hq => h.human (fun p hp => hq p (hsub p hp)) }

variable {st' : RowState}

theorem rowAgree_work (h : RowAgree ps st) (tx : ℕ) (pc : WorkPc) (hrow : st'.row = st.row)
    (hc : st'.commits = st.commits)
    (hwork : ∀ tx', st'.work tx' = if tx' = tx then pc else st.work tx')
    (hp : ∀ p, payloadOf pc = some p → p ∈ ps) (hh : (∀ p ∈ ps, p.isTimeout = false) →
      (∀ p l a, pc ≠ .selected p l (.ok a)) ∧ ∀ p l new, pc ≠ .flushed p l new)
    (hr : ∀ p l e, pc = .selected p l (.error e) → p.isTimeout = true →
      st.row.decision = some .denied)
    (hf : ∀ p l, pc = .finished p l → p.isTimeout = true → st.row.decision = some .denied) :
    RowAgree ps st' := by
  refine ⟨?_, ?_, ?_, ?_⟩
  · intro tx' p hpay
    rw [hwork] at hpay
    split_ifs at hpay
    · exact hp p hpay
    · exact h.carry tx' p hpay
  · intro hall
    obtain ⟨h1, h2, h3⟩ := h.human hall
    grind
  · intro tx' p l e hpc hto
    rw [hwork] at hpc
    rw [hrow]
    split_ifs at hpc
    · exact hr p l e hpc hto
    · exact h.refused tx' p l e hpc hto
  · intro tx' p l hpc hto
    rw [hwork] at hpc
    rw [hrow]
    split_ifs at hpc
    · exact hf p l hpc hto
    · exact h.finished tx' p l hpc hto

/-- The dashboard commits on an undecided row, so no attempt for an expired
timer has come through on it. -/
theorem rowAgree_commit (r0 : ApprovalRow) (hi : RowInv r0 st) (h : RowAgree ps st) (tx : ℕ)
    (req : DecisionRequest) (d : Decision) (new : ApprovalRow)
    (hpc : st.dash tx = .updated req d new) (hrow : st'.row = new)
    (hc : st'.commits = (d, req.decidedBy) :: st.commits) (hwork : st'.work = st.work) :
    RowAgree ps st' := by
  obtain ⟨-, hdec, hv, -⟩ := hi.updated tx req d new hpc
  have hnd : new.decision = some d := congrArg Prod.fst hv
  have hnone : st.commits = [] := by
    by_contra hne
    exact hi.decided hne hdec
  have hno (hd : st.row.decision = some .denied) : False := by
    rw [hdec] at hd
    cases hd
  refine ⟨by rw [hwork]; exact h.carry, ?_, ?_, ?_⟩
  · intro hall
    obtain ⟨-, h2, h3⟩ := h.human hall
    simp_all
  · intro tx' p l e hp hto
    rw [hwork] at hp
    exact (hno (h.refused tx' p l e hp hto)).elim
  · intro tx' p l hp hto
    rw [hwork] at hp
    exact (hno (h.finished tx' p l hp hto)).elim

/-- An attempt that has written comes through. Only a timer's payload gets that
far, and it is then the only payload of the row. -/
theorem rowAgree_finishFlushed (r0 : ApprovalRow) (hi : RowInv r0 st) (h : RowAgree ps st)
    (hps : ∀ p ∈ ps, ∀ q ∈ ps, p = q)
    (hden : ∀ p ∈ ps, p.isTimeout = true → p.decision = some .denied) (tx : ℕ) (p : RecordPayload)
    (loaded new : ApprovalRow) (hpc : st.work tx = .flushed p loaded new) (hrow : st'.row = new)
    (hwork : ∀ tx', st'.work tx' = if tx' = tx then .finished p loaded else st.work tx') :
    RowAgree ps st' := by
  have hp : p ∈ ps := h.carry tx p (by simp [hpc, payloadOf])
  have hto : p.isTimeout = true := by
    by_contra hne
    have hall : ∀ q ∈ ps, q.isTimeout = false := by
      intro q hq
      rw [← hps p hp q hq]
      simpa using hne
    exact (h.human hall).2.2 tx p loaded new hpc
  have hnew : st'.row.decision = some .denied := by
    rw [hrow, (hi.flushed tx p loaded new hpc).2.1, hden p hp hto]
    rfl
  refine ⟨?_, ?_, fun _ _ _ _ _ _ => hnew, fun _ _ _ _ _ => hnew⟩
  · intro tx' q hq
    rw [hwork] at hq
    split_ifs at hq
    · cases hq
      exact hp
    · exact h.carry tx' q hq
  · grind

theorem rowAgree_step (r0 : ApprovalRow) (e : RowEvent) (hi : RowInv r0 st) (h : RowAgree ps st)
    (hps : ∀ p ∈ ps, ∀ q ∈ ps, p = q)
    (hden : ∀ p ∈ ps, p.isTimeout = true → p.decision = some .denied)
    (hhum : ∀ p ∈ ps, p.isTimeout = false → st.commits ≠ [])
    (hsel : ∀ tx p now, e = .select tx p now → p ∈ ps ∧ (p.isTimeout = true →
      st.row.decision = none ∨ st.row.decision = some .denied)) (hs : st.step e = some st') :
    RowAgree ps st' := by
  cases row_step_sound st st' e hs with
  | commit tx req d new hpc => exact rowAgree_commit r0 hi h tx req d new hpc rfl rfl rfl
  | selectUndecided tx p now hpc hd =>
    obtain ⟨hp, -⟩ := hsel tx p now rfl
    refine rowAgree_work h tx _ rfl rfl (setWork_work st tx · _) ?_ ?_ (by simp) (by simp)
    · intro q hq
      cases hq
      exact hp
    -- were all payloads human, a commit would have decided the row already
    · intro hall
      exact absurd hd (hi.decided (hhum p hp (hall p hp)))
  | selectDecided tx p now hpc hd =>
    obtain ⟨hp, hden'⟩ := hsel tx p now rfl
    refine rowAgree_work h tx _ rfl rfl (setWork_work st tx · _) ?_ (by simp) ?_ (by simp)
    · intro q hq
      cases hq
      exact hp
    · intro q l e hq hto
      cases hq
      -- a timer that finds the row decided may only find the denial
      rcases hden' hto with hn | hn
      · exact absurd hn hd
      · exact hn
  | flush tx p loaded assigned hpc hl =>
    refine rowAgree_work h tx _ rfl rfl (setWork_work st tx · _) ?_ ?_ (by simp) (by simp)
    · intro q hq
      cases hq
      exact h.carry tx p (by simp [hpc, payloadOf])
    · intro hall
      exact absurd hpc ((h.human hall).2.1 tx p loaded assigned)
  | finishUnchanged tx p loaded e hpc =>
    refine rowAgree_work h tx _ rfl rfl (setWork_work _ tx · _) ?_ (by simp) (by simp) ?_
    · intro q hq
      cases hq
      exact h.carry tx p (by simp [hpc, payloadOf])
    · intro q l hq hto
      cases hq
      exact h.refused tx p loaded e hpc hto
  | finishFlushed tx p loaded new hpc =>
    exact rowAgree_finishFlushed r0 hi h hps hden tx p loaded new hpc rfl
      (setWork_work _ tx · _)
  | workRollbackSelected tx p loaded o hpc =>
    exact rowAgree_work h tx _ rfl rfl (setWork_work st tx · _) (by simp [payloadOf])
      (by simp) (by simp) (by simp)
  | workRollbackFlushed tx p loaded new hpc =>
    exact rowAgree_work h tx _ rfl rfl (setWork_work st tx · _) (by simp [payloadOf])
      (by simp) (by simp) (by simp)
  | _ => exact { h with }

def payloadsFor (h : List Call) (aid : Uuid) : List RecordPayload :=
  (recordsOf h).filter (fun p => p.approvalId = aid)

theorem mem_payloadsFor (h : List Call) (aid : Uuid) (p : RecordPayload) :
    p ∈ payloadsFor h aid ↔ p ∈ recordsOf h ∧ p.approvalId = aid := by
  simp [payloadsFor]

structure Agree (w : World) : Prop where
  safe : Safe w
  filed : Filed w
  rows : ∀ aid n st, w.created aid = some n → w.rows aid = some st →
    RowAgree (payloadsFor w.wf.history aid) st

theorem agree_of_rows_eq (h : Agree w) (hs' : Safe w') (hf' : Filed w') (hg : Grow w w')
    (hr : w'.rows = w.rows) (hc : w'.created = w.created) : Agree w' := by
  refine ⟨hs', hf', ?_⟩
  intro aid n st hn hrow
  refine rowAgree_subset _ (h.rows aid n st (hc ▸ hn) (hr ▸ hrow)) ?_
  intro p hp
  obtain ⟨hp, hid⟩ := (mem_payloadsFor _ _ _).mp hp
  obtain ⟨zs, hzs⟩ := hg.history
  rw [mem_payloadsFor, ← hzs, recordsOf_append]
  exact ⟨List.mem_append_left _ hp, hid⟩

theorem agree_row (h : Agree w) (aid : Uuid) (e : RowEvent) (hs' : Safe (w.setRow aid st'))
    (hf' : Filed (w.setRow aid st')) (hok : TimelyTimeout w (.row aid e))
    (hrow : w.rows aid = some st) (hsched : scheduledFor w.wf.history aid e = true)
    (hstep : st.step e = some st') : Agree (w.setRow aid st') := by
  refine ⟨hs', hf', ?_⟩
  intro aid' n s hn hs
  rcases RowTable.put_cases hs with ⟨rfl, rfl⟩ | ⟨-, hold⟩
  · obtain ⟨r0, -, hinv, -⟩ := h.safe.rows aid' st hrow
    have hmem (p : RecordPayload) (hp : p ∈ payloadsFor w.wf.history aid') :
        Grounded w p ∧ p.approvalId = aid' := by
      obtain ⟨hp, hid⟩ := (mem_payloadsFor _ _ _).mp hp
      exact ⟨h.filed.grounded p hp, hid⟩
    refine rowAgree_step r0 e hinv (h.rows aid' n st hn hrow) ?_ ?_ ?_ ?_ hstep
    · intro p hp q hq
      obtain ⟨hp, hpid⟩ := (mem_payloadsFor _ _ _).mp hp
      obtain ⟨hq, hqid⟩ := (mem_payloadsFor _ _ _).mp hq
      exact h.filed.unique p hp q hq (hpid.trans hqid.symm)
    · intro p hp hto
      rcases (hmem p hp).1 with ⟨-, hd⟩ | ⟨hf, -⟩
      · exact hd
      · rw [hto] at hf
        cases hf
    · intro p hp hto
      obtain ⟨hgr, hid⟩ := hmem p hp
      rcases hgr with ⟨ht, -⟩ | ⟨-, d, -, st2, u, hrow2, hu⟩
      · rw [hto] at ht
        cases ht
      · grind
    · rintro tx p now rfl
      have hp : p ∈ recordsOf w.wf.history ∧ p.approvalId = aid' := by
        simpa [scheduledFor] using hsched
      exact ⟨(mem_payloadsFor _ _ _).mpr hp, hok aid' tx p now st rfl hrow⟩
  · exact h.rows aid' n s hn hold

theorem agree_step (e : Event) (h : Agree w) (hok : TimelyTimeout w e) (hs : w.step e = some w') :
    Agree w' := by
  have hs' := safe_step h.safe hs
  have hf' := filed_step e h.safe h.filed hs
  have hg := grow_step h.safe hs
  cases world_step_sound w w' e hs with
  | createAttempt n aid inv kind subject hcall hfree =>
    refine ⟨hs', hf', ?_⟩
    intro aid' m st hm hrow
    by_cases hne : aid' = aid
    · subst hne
      simp only [World.setRow, Function.update_self, Option.some.injEq] at hrow
      subst hrow
      exact rowAgree_created _ _
    · simp only [World.setRow, Function.update_of_ne hne] at hm hrow
      exact h.rows aid' m st hm hrow
  | row aid st st' e hrow hsched hstep =>
    exact agree_row h aid e hs' hf' hok hrow hsched hstep
  | _ => exact agree_of_rows_eq h hs' hf' hg rfl rfl

theorem agree_init (input : Input) (h : (system input).init w) : Agree w := by
  have hs := safe_init input w h
  obtain ⟨hwf, hc, -, -⟩ := h
  refine ⟨hs, ?_, by simp [hc]⟩
  constructor <;> simp [Recorded, recordsOf, hwf, start]

/-- In a run whose timers find their rows undecided or denied, the decision
`_request_approval` returns is the one in the row. -/
theorem decision_agreement (input : Input) (w : World) (e : Event) (aid : Uuid)
    (d : DecisionDict) (hw : (system input).ReachVia TimelyTimeout w)
    (hr : Returns w e aid d) : ∃ st, w.rows aid = some st ∧ st.row.decision = d.decision := by
  have h : Agree w := reachVia_invariant (system input) TimelyTimeout Agree
    (fun _ => agree_init input)
    (fun w e w' _ hok ha hs => agree_step e ha hok hs) w hw
  obtain ⟨tx, g, w', rfl, hpc, hs⟩ := hr
  obtain ⟨p0, hp0, hid0, hdec0⟩ := h.filed.recording g aid d hpc
  obtain ⟨⟨n, hn, -⟩, -⟩ := h.safe.recording g aid d hpc
  simp only [World.step, World.recordReply, hpc] at hs
  split at hs
  · rename_i st hrow
    split at hs
    · rename_i p loaded hwork
      have ha := h.rows aid n st hn hrow
      have hp := ha.carry tx p (by simp [hwork, payloadOf])
      obtain ⟨hp, hpid⟩ := (mem_payloadsFor _ _ _).mp hp
      have heq : p0 = p := h.filed.unique p0 hp0 p hp (hid0.trans hpid.symm)
      refine ⟨st, hrow, ?_⟩
      rw [← hdec0, heq]
      rcases h.filed.grounded p hp with ⟨hto, hd⟩ | ⟨hto, dec, hd, st2, u, hrow2, hu⟩
      · rw [hd, ha.finished tx p loaded hwork hto]
      · have hall : ∀ q ∈ payloadsFor w.wf.history aid, q.isTimeout = false := by
          intro q hq
          obtain ⟨hq, hqid⟩ := (mem_payloadsFor _ _ _).mp hq
          rw [h.filed.unique q hq p hp (hqid.trans hpid.symm), hto]
        rw [hpid] at hrow2
        cases hrow.symm.trans hrow2
        rw [hd, (ha.human hall).1 _ hu]
    · cases hs
  · cases hs

def overtakenRun : List Event :=
  sampleRun.take 13 ++ [.tick 86400000000, .timer,
    .row 1 (.select 0 ⟨2, 1, some .denied, some "timeout", .rawCommand, true⟩ 86400000000),
    .row 1 (.finish 0)]

/-- `_request_approval` returns a denial for a row that says approved. -/
theorem decision_disagreement : ∃ w aid d st, (system sampleInput).Reachable w ∧
    Returns w (.recordReply 0) aid d ∧ w.rows aid = some st ∧
    d.decision = some .denied ∧ st.row.decision = some .approved := by
  refine ⟨_, 1, timeoutDecision 1, _,
    run_reachable _ overtakenRun sampleWorld _ (.init ⟨rfl, rfl, rfl, ?_⟩) rfl,
    ⟨0, .raw 1 sampleReport sampleRequest [], _, rfl, rfl, rfl⟩, rfl, rfl, rfl⟩
  intro aid st h
  cases h

/-- In the run of the approved raw command the row and the run agree. -/
theorem decision_agreement_sampleRun : ∃ w aid d st,
    (system sampleInput).ReachVia TimelyTimeout w ∧ Returns w (.recordReply 0) aid d ∧
    w.rows aid = some st ∧ st.row.decision = d.decision := by
  have hrun : ∃ w d, (system sampleInput).ReachVia TimelyTimeout w ∧
      Returns w (.recordReply 0) 1 d := by
    refine ⟨_, ⟨some 1, some .approved, none, none⟩,
      run_reachVia _ _ sampleRun sampleWorld _ (.init ⟨rfl, rfl, rfl, ?_⟩) ?_ rfl,
      ⟨0, .raw 1 sampleReport sampleRequest [], _, rfl, rfl, rfl⟩⟩
    · intro aid st h
      cases h
    · intro e he w aid tx p now st hsel hrow hto
      subst hsel
      simp only [sampleRun, List.mem_cons, reduceCtorEq, Event.row.injEq, RowEvent.select.injEq,
        false_or, List.not_mem_nil, or_false, and_false] at he
      rw [he.2.2.1] at hto
      cases hto
  obtain ⟨w, d, hw, hr⟩ := hrun
  obtain ⟨st, hrow, hd⟩ := decision_agreement sampleInput w _ 1 d hw hr
  exact ⟨w, 1, d, st, hw, hr, hrow, hd⟩

end DbAgent.ApprovalWorld
