import DbAgent.ApprovalWorld
import DbAgent.RowTable

/-! Nothing acts on the platform without an approval: the argument that each
write of a run goes back to a committed decision about its own subject. -/
namespace DbAgent.ApprovalWorld

open Transition Approval Workflow List RowTable

/-- The approval of `subject` is an approval of the write `c`. The payload of
`run_raw_command` has the command of the request, not the request. -/
def Authorises : Subject → Call → Prop
  | .action a, .executePlaybook _ b _ _ _ => a = b
  | .request r, .runRawCommand _ _ command _ => r.command = command
  | _, _ => False

structure Grow (w w' : World) : Prop where
  rows : ∀ aid st, w.rows aid = some st →
    ∃ st', w'.rows aid = some st' ∧ st.signals ⊆ st'.signals ∧ st.commits ⊆ st'.commits
  created : ∀ aid n, w.created aid = some n → w'.created aid = some n
  history : w.wf.history <+: w'.wf.history

theorem grow_of_rows_eq (w w' : World) (hr : w'.rows = w.rows) (hc : w'.created = w.created)
    (hh : w.wf.history <+: w'.wf.history) : Grow w w' where
  rows := fun aid st h => ⟨st, by rw [hr, h], List.Subset.refl _, List.Subset.refl _⟩
  created := fun aid n h => by rw [hc, h]
  history := hh

theorem row_step_mono (s t : RowState) (e : RowEvent) (h : s.step e = some t) :
    s.signals ⊆ t.signals ∧ s.commits ⊆ t.commits := by
  cases row_step_sound s t e h with
  | commit => exact ⟨List.Subset.refl _, subset_cons_self _ _⟩
  | signal => exact ⟨subset_cons_self _ _, List.Subset.refl _⟩
  | _ => exact ⟨List.Subset.refl _, List.Subset.refl _⟩

theorem outside_history (h : List Call) (d : Option DecisionDict) (t : State)
    (ho : Outside h d t) : h <+: t.history := by
  cases ho with
  | quiet hpc hd hh => exact hh ▸ prefix_refl _
  | call c hc hpc hd hh => exact hh ▸ prefix_append _ _
  | request g hpc hd hh => exact hh ▸ prefix_append _ _

/-- How `_request_approval` returns: the subject of the gate is acted on at
once if the decision is `approved`, and not at all otherwise. -/
theorem afterDecision_cases (s : State) (g : Gate) (d : DecisionDict) :
    (d.decision = some .approved ∧ ∃ c, Authorises g.subject c ∧ c.isWrite = true ∧
      (s.afterDecision g d).history = s.history ++ [c] ∧
      (s.afterDecision g d).pc.inGate = false ∧
      (s.afterDecision g d).approvalDecision = s.approvalDecision) ∨
    (d.decision ≠ some .approved ∧
      Outside s.history s.approvalDecision (s.afterDecision g d)) := by
  by_cases hd : d.decision = some .approved
  · refine Or.inl ⟨hd, ?_⟩
    cases g with
    | raw round report req rest =>
      simp only [State.afterDecision, if_pos hd]
      refine ⟨.runRawCommand _ _ req.command round, rfl, rfl, rfl, rfl, rfl⟩
    | remediation action rest =>
      simp only [State.afterDecision, if_pos hd]
      refine ⟨.executePlaybook _ action _ _ _, rfl, rfl, rfl, rfl, rfl⟩
  · refine Or.inr ⟨hd, ?_⟩
    cases g with
    | raw round report req rest =>
      simp only [State.afterDecision, if_neg hd]
      exact outside_of_frame (outside_rawLoop _ _ _ _) rfl rfl
    | remediation action rest =>
      simp only [State.afterDecision, if_neg hd]
      exact outside_of_frame (outside_actionLoop _ _) rfl rfl

theorem newGrants_append (aid : Uuid) (h : List Call) (c : Call) :
    newGrants aid h (h ++ [c]) = if c.isWrite then [(aid, c)] else [] := by
  unfold newGrants
  grind

theorem newGrants_outside (aid : Uuid) (h : List Call) (d : Option DecisionDict) (t : State)
    (ho : Outside h d t) : newGrants aid h t.history = [] := by
  cases ho with
  | quiet hpc hd hh => simp [hh, newGrants]
  | call c hc hpc hd hh => simp [hh, newGrants_append, isWrite_of_isPlain c hc]
  | request g hpc hd hh => simp [hh, newGrants_append, Call.isWrite]

/-- The decision was sent by `post_decision` for one of the rows. -/
def FromSignal (w : World) (d : DecisionDict) : Prop :=
  ∃ aid st g, d.approvalId = some aid ∧ w.rows aid = some st ∧ g ∈ st.signals ∧
    d.decision = some g.decision

/-- The gate was opened by the `n`th activity, and all writes so far came
through gates that were opened before. -/
def Opened (w : World) (g : Gate) (n : ℕ) : Prop :=
  (∃ inv, w.wf.history[n]? = some (.createApproval inv g.kind g.subject)) ∧
  ∀ x ∈ w.grants, ∃ m, w.created x.1 = some m ∧ m < n

def Awaited (w : World) (g : Gate) (aid : Uuid) : Prop :=
  ∃ n, w.created aid = some n ∧ Opened w g n

def Committed (w : World) (aid : Uuid) (d : Decision) : Prop :=
  ∃ st u, w.rows aid = some st ∧ (d, u) ∈ st.commits

structure Safe (w : World) : Prop where
  rows : ∀ aid st, w.rows aid = some st → ∃ r0, r0.approvalId = aid ∧ RowInv r0 st ∧
    ∀ n, w.created aid = some n →
      ∃ inv, w.wf.history[n]? = some (.createApproval inv r0.kind r0.subject)
  inserted : ∀ aid n, w.created aid = some n → ∃ st, w.rows aid = some st
  decision : ∀ d, w.wf.approvalDecision = some d → FromSignal w d
  creating : ∀ g, w.wf.pc = .createApproval g → Opened w g (w.wf.history.length - 1)
  notifying : ∀ g aid, w.wf.pc = .notifyApproval g aid → Awaited w g aid
  waiting : ∀ g aid t, w.wf.pc = .waitDecision g aid t → Awaited w g aid
  recording : ∀ g aid d, w.wf.pc = .recordDecision g aid d →
    Awaited w g aid ∧ (d.decision = some .approved → Committed w aid .approved)
  grants : ∀ x ∈ w.grants, ∃ n, w.created x.1 = some n ∧ n < w.wf.history.length
  nodup : (w.grants.map Prod.fst).Nodup

theorem getElem?_of_extends {α : Type*} (xs ys : List α) (n : ℕ) (a : α) (h : xs <+: ys)
    (ha : xs[n]? = some a) : ys[n]? = some a := by
  obtain ⟨zs, rfl⟩ := h
  grind

variable {aid : Uuid}

section Monotone

variable (w w' : World) (hg : Grow w w')
include hg

theorem fromSignal_grow (d : DecisionDict) (h : FromSignal w d) : FromSignal w' d := by
  obtain ⟨aid, st, g, hid, hrow, hsig, hd⟩ := h
  obtain ⟨st', hrow', hs, -⟩ := hg.rows aid st hrow
  exact ⟨aid, st', g, hid, hrow', hs hsig, hd⟩

theorem opened_grow (hgr : w'.grants = w.grants) (g : Gate) (n : ℕ) (h : Opened w g n) :
    Opened w' g n := by
  obtain ⟨⟨inv, hcall⟩, hlt⟩ := h
  refine ⟨⟨inv, getElem?_of_extends _ _ n _ hg.history hcall⟩, ?_⟩
  intro x hx
  obtain ⟨m, hm, hmn⟩ := hlt x (hgr ▸ hx)
  exact ⟨m, hg.created _ _ hm, hmn⟩

theorem awaited_grow (hgr : w'.grants = w.grants) (g : Gate) (h : Awaited w g aid) :
    Awaited w' g aid := by
  obtain ⟨n, hn, ho⟩ := h
  exact ⟨n, hg.created _ _ hn, opened_grow w w' hg hgr g n ho⟩

theorem committed_grow (d : Decision) (h : Committed w aid d) : Committed w' aid d := by
  obtain ⟨st, u, hrow, hc⟩ := h
  obtain ⟨st', hrow', -, hcs⟩ := hg.rows aid st hrow
  exact ⟨st', u, hrow', hcs hc⟩

theorem grants_grow (x : Uuid × Call)
    (h : ∃ n, w.created x.1 = some n ∧ n < w.wf.history.length) :
    ∃ n, w'.created x.1 = some n ∧ n < w'.wf.history.length := by
  obtain ⟨n, hn, hlt⟩ := h
  exact ⟨n, hg.created _ _ hn, hlt.trans_le hg.history.length_le⟩

end Monotone

theorem grow_row (w : World) (st st' : RowState) (e : RowEvent) (hrow : w.rows aid = some st)
    (hstep : st.step e = some st') : Grow w (w.setRow aid st') := by
  refine ⟨?_, fun _ _ hn => hn, prefix_refl _⟩
  intro aid' s hs
  exact put_over
    (R := fun s s' => s.signals ⊆ s'.signals ∧ s.commits ⊆ s'.commits)
    (fun _ => ⟨List.Subset.refl _, List.Subset.refl _⟩) hrow (row_step_mono st st' e hstep) hs

section Steps

variable {w w' : World} (h : Safe w)

include h

theorem grow_createAttempt (n : ℕ) (st : RowState) (hfree : w.rows aid = none) :
    Grow w { w.setRow aid st with created := Function.update w.created aid (some n) } := by
  -- no attempt has used this row yet, since `created` is set together with it
  have hnew : w.created aid = none := by
    by_contra hne
    obtain ⟨m, hm⟩ := Option.ne_none_iff_exists'.mp hne
    obtain ⟨st, hst⟩ := h.inserted aid m hm
    rw [hfree] at hst
    cases hst
  refine ⟨?_, ?_, prefix_refl _⟩
  · intro aid' st hrow
    exact ⟨st, put_free hfree hrow, List.Subset.refl _, List.Subset.refl _⟩
  · grind

theorem grow_step {e : Event} (hs : w.step e = some w') : Grow w w' := by
  cases world_step_sound w w' e hs with
  | control sig wf hpc hh hd => exact grow_of_rows_eq _ _ rfl rfl (hh ▸ prefix_refl _)
  | deliver aid st g wf hrow hg hpc hh hd =>
    exact grow_of_rows_eq _ _ rfl rfl (hh ▸ prefix_refl _)
  | createAttempt n aid inv kind subject hcall hfree =>
    exact grow_createAttempt h n _ hfree
  | createReply aid g hpc hc => exact grow_of_rows_eq _ _ rfl rfl (prefix_append _ _)
  | row aid st st' e hrow hsched hstep => exact grow_row w st st' e hrow hstep
  | recordReply tx g aid d st p loaded hpc hrow hwork =>
    refine grow_of_rows_eq _ _ rfl rfl ?_
    obtain ⟨-, c, -, -, hh, -, -⟩ | ⟨-, ho⟩ := afterDecision_cases w.wf g d
    · exact hh ▸ prefix_append _ _
    · exact outside_history _ _ _ ho
  | outside _ wf ho => exact grow_of_rows_eq _ _ rfl rfl (outside_history _ _ _ ho)
  | announced r g aid hpc => exact grow_of_rows_eq _ _ rfl rfl (prefix_refl _)
  | decided g aid t d hpc hd hid =>
    exact grow_of_rows_eq _ _ rfl rfl (prefix_append _ _)
  | expired g aid t hpc => exact grow_of_rows_eq _ _ rfl rfl (prefix_append _ _)
  | tick t => exact grow_of_rows_eq _ _ rfl rfl (prefix_refl _)

theorem safe_stay (hgrow : Grow w w') (hpc : w'.wf.pc = w.wf.pc) (hh : w'.wf.history = w.wf.history)
    (hgr : w'.grants = w.grants)
    (hrows : ∀ aid st, w'.rows aid = some st → ∃ r0, r0.approvalId = aid ∧ RowInv r0 st ∧
      ∀ n, w'.created aid = some n →
        ∃ inv, w'.wf.history[n]? = some (.createApproval inv r0.kind r0.subject))
    (hins : ∀ aid n, w'.created aid = some n → ∃ st, w'.rows aid = some st)
    (hd : ∀ d, w'.wf.approvalDecision = some d → FromSignal w' d) : Safe w' where
  rows := hrows
  inserted := hins
  decision := hd
  creating := by
    intro g hg
    rw [hh]
    exact opened_grow w w' hgrow hgr g _ (h.creating g (hpc ▸ hg))
  notifying := fun g aid hg => awaited_grow w w' hgrow hgr g (h.notifying g aid (hpc ▸ hg))
  waiting := fun g aid t hg => awaited_grow w w' hgrow hgr g (h.waiting g aid t (hpc ▸ hg))
  recording := by
    intro g aid d hg
    obtain ⟨ha, hc⟩ := h.recording g aid d (hpc ▸ hg)
    grind [awaited_grow, committed_grow]
  grants := fun x hx => grants_grow w w' hgrow x (h.grants x (hgr ▸ hx))
  nodup := hgr ▸ h.nodup

/-- The run moves to another point; `pcs` is what has to hold there. -/
theorem safe_move (hr : w'.rows = w.rows) (hc : w'.created = w.created)
    (hh : w.wf.history <+: w'.wf.history)
    (hd : w'.wf.approvalDecision = w.wf.approvalDecision ∨ w'.wf.approvalDecision = none)
    (hgr : ∀ x ∈ w'.grants, ∃ n, w'.created x.1 = some n ∧ n < w'.wf.history.length)
    (hnd : (w'.grants.map Prod.fst).Nodup)
    (pcs : (∀ g, w'.wf.pc = .createApproval g → Opened w' g (w'.wf.history.length - 1)) ∧
      (∀ g aid, w'.wf.pc = .notifyApproval g aid → Awaited w' g aid) ∧
      (∀ g aid t, w'.wf.pc = .waitDecision g aid t → Awaited w' g aid) ∧
      ∀ g aid d, w'.wf.pc = .recordDecision g aid d →
        Awaited w' g aid ∧ (d.decision = some .approved → Committed w' aid .approved)) :
    Safe w' where
  rows := by
    intro aid st hrow
    obtain ⟨r0, hid, hinv, hcr⟩ := h.rows aid st (hr ▸ hrow)
    grind [getElem?_of_extends]
  inserted := by
    rw [hr, hc]
    exact h.inserted
  decision := by
    intro d hd'
    rcases hd with he | he
    · exact fromSignal_grow w w' (grow_of_rows_eq w w' hr hc hh) d (h.decision d (he ▸ hd'))
    · rw [he] at hd'
      cases hd'
  creating := pcs.1
  notifying := pcs.2.1
  waiting := pcs.2.2.1
  recording := pcs.2.2.2
  grants := hgr
  nodup := hnd

theorem safe_leave (hr : w'.rows = w.rows) (hc : w'.created = w.created)
    (hh : w.wf.history <+: w'.wf.history) (hd : w'.wf.approvalDecision = w.wf.approvalDecision)
    (hpc : w'.wf.pc.inGate = false)
    (hgr : ∀ x ∈ w'.grants, ∃ n, w'.created x.1 = some n ∧ n < w'.wf.history.length)
    (hnd : (w'.grants.map Prod.fst).Nodup) : Safe w' := by
  have hne (pc : Pc) (hin : pc.inGate = true) : w'.wf.pc ≠ pc := by
    intro he
    rw [he, hin] at hpc
    cases hpc
  exact safe_move h hr hc hh (Or.inl hd) hgr hnd
    ⟨fun g hg => absurd hg (hne _ rfl), fun g aid hg => absurd hg (hne _ rfl),
      fun g aid t hg => absurd hg (hne _ rfl), fun g aid d hg => absurd hg (hne _ rfl)⟩

theorem safe_outside (wf : State) (ho : Outside w.wf.history w.wf.approvalDecision wf) :
    Safe { w with wf := wf } := by
  have hh : w.wf.history <+: wf.history := outside_history _ _ _ ho
  have hgrow : Grow w { w with wf := wf } := grow_of_rows_eq _ _ rfl rfl hh
  have hgrants : ∀ x ∈ w.grants, ∃ n, w.created x.1 = some n ∧ n < wf.history.length :=
    fun x hx => grants_grow w _ hgrow x (h.grants x hx)
  cases ho with
  | quiet hpc hd hhist => exact safe_leave h rfl rfl hh hd hpc hgrants h.nodup
  | call c hc hpc hd hhist => exact safe_leave h rfl rfl hh hd hpc hgrants h.nodup
  | request g hpc hd hhist =>
    refine safe_move h rfl rfl hh (Or.inr hd) hgrants h.nodup ⟨?_, ?_, ?_, ?_⟩
    · intro g' hg'
      cases hpc.symm.trans hg'
      -- the request is the last call so far, so every earlier grant lies before it
      refine ⟨⟨wf.investigationId, by simp [hhist]⟩, ?_⟩
      intro x hx
      obtain ⟨n, hn, hlt⟩ := h.grants x hx
      grind
    · grind
    · grind
    · grind

theorem safe_createAttempt (n : ℕ) (inv : Uuid) (kind : ApprovalKind) (subject : Subject)
    (hcall : w.wf.history[n]? = some (.createApproval inv kind subject))
    (hfree : w.rows aid = none) :
    Safe { w.setRow aid (.created ⟨aid, inv, kind, subject, none, none, none, none, w.now⟩) with
      created := Function.update w.created aid (some n) } := by
  have hgrow := grow_createAttempt h n
    (.created ⟨aid, inv, kind, subject, none, none, none, none, w.now⟩) hfree
  refine safe_stay h hgrow rfl rfl rfl ?_ ?_ ?_
  · intro aid' st hrow
    rcases put_cases hrow with ⟨rfl, rfl⟩ | ⟨hne, hold⟩
    · refine ⟨_, rfl, rowInv_created _, ?_⟩
      intro m hm
      simp only [Function.update_self, Option.some.injEq] at hm
      subst hm
      exact ⟨inv, hcall⟩
    · obtain ⟨r0, hid, hinv, hcr⟩ := h.rows aid' st hold
      refine ⟨r0, hid, hinv, ?_⟩
      intro m hm
      exact hcr m (by grind)
  · intro aid' m hm
    rcases put_cases hm with ⟨rfl, -⟩ | ⟨-, hold⟩
    · exact ⟨_, Function.update_self _ _ _⟩
    · obtain ⟨st, hst⟩ := h.inserted aid' m hold
      exact ⟨st, put_free hfree hst⟩
  · exact fun d hd => fromSignal_grow w _ hgrow d (h.decision d hd)

theorem safe_row (st st' : RowState) (e : RowEvent) (hrow : w.rows aid = some st)
    (hstep : st.step e = some st') : Safe (w.setRow aid st') := by
  have hgrow := grow_row w st st' e hrow hstep
  refine safe_stay h hgrow rfl rfl rfl ?_ ?_ ?_
  · intro aid' s hs
    rcases put_cases hs with ⟨rfl, rfl⟩ | ⟨-, hold⟩
    · obtain ⟨r0, hid, hinv, hcr⟩ := h.rows aid' st hrow
      exact ⟨r0, hid, rowInv_step st s e hinv hstep, hcr⟩
    · exact h.rows aid' s hold
  · intro aid' n hn
    obtain ⟨s, hs⟩ := h.inserted aid' n hn
    obtain ⟨s', hs', -⟩ := hgrow.rows aid' s hs
    exact ⟨s', hs'⟩
  · exact fun d hd => fromSignal_grow w _ hgrow d (h.decision d hd)

theorem safe_signal (wf : State) (hpc : wf.pc = w.wf.pc) (hh : wf.history = w.wf.history)
    (hd : ∀ d, wf.approvalDecision = some d →
      w.wf.approvalDecision = some d ∨ FromSignal w d) : Safe { w with wf := wf } := by
  have hgrow : Grow w { w with wf := wf } :=
    grow_of_rows_eq _ _ rfl rfl (hh ▸ prefix_refl _)
  refine safe_stay h hgrow hpc hh rfl ?_ h.inserted ?_
  · intro aid st hrow
    simp only [hh]
    exact h.rows aid st hrow
  · intro d hd'
    rcases hd d hd' with hold | hnew
    · exact fromSignal_grow w _ hgrow d (h.decision d hold)
    · exact fromSignal_grow w _ hgrow d hnew

theorem fromSignal_of_mem (st : RowState) (g : DecisionSignal) (hrow : w.rows aid = some st)
    (hg : g ∈ st.signals) : FromSignal w (decisionDict g) := by
  obtain ⟨r0, hid, hinv, -⟩ := h.rows aid st hrow
  have hgid := (hinv.signals g hg).1
  exact ⟨aid, st, g, by simp [decisionDict, hgid, hid], hrow, hg, rfl⟩

theorem committed_of_fromSignal (d : DecisionDict) (hf : FromSignal w d)
    (hid : d.approvalId = some aid) (dec : Decision) (hdec : d.decision = some dec) :
    Committed w aid dec := by
  obtain ⟨aid', st, g, hid', hrow, hg, hgd⟩ := hf
  cases hid.symm.trans hid'
  cases hdec.symm.trans hgd
  obtain ⟨r0, -, hinv, -⟩ := h.rows aid st hrow
  obtain ⟨-, u, hu⟩ := hinv.signals g hg
  exact ⟨st, u, hrow, hu⟩

theorem safe_inGate (wf : State) (c : List Call) (pc : Pc) (hh : wf.history = w.wf.history ++ c)
    (hd : wf.approvalDecision = w.wf.approvalDecision) (hpc : wf.pc = pc)
    (pcs : Grow w { w with wf := wf } →
      (∀ g, pc ≠ .createApproval g) ∧
      (∀ g aid, pc = .notifyApproval g aid → Awaited { w with wf := wf } g aid) ∧
      (∀ g aid t, pc = .waitDecision g aid t → Awaited { w with wf := wf } g aid) ∧
      ∀ g aid d, pc = .recordDecision g aid d → Awaited { w with wf := wf } g aid ∧
        (d.decision = some .approved → Committed { w with wf := wf } aid .approved)) :
    Safe { w with wf := wf } := by
  have hp : w.wf.history <+: wf.history := hh ▸ prefix_append _ _
  have hgrow : Grow w { w with wf := wf } := grow_of_rows_eq _ _ rfl rfl hp
  obtain ⟨h1, h2, h3, h4⟩ := pcs hgrow
  subst hpc
  exact safe_move h rfl rfl hp (Or.inl hd)
    (fun x hx => grants_grow w _ hgrow x (h.grants x hx)) h.nodup
    ⟨fun g hg => absurd hg (h1 g), h2, h3, h4⟩

theorem safe_createReply (g : Gate) (hpc : w.wf.pc = .createApproval g)
    (hc : w.created aid = some (w.wf.history.length - 1)) :
    Safe { w with wf := w.wf.afterCreateApproval g aid } := by
  refine safe_inGate h _ _ (.notifyApproval g aid) rfl rfl rfl ?_
  intro hgrow
  refine ⟨fun _ h => (nomatch h), ?_, fun _ _ _ h => (nomatch h), fun _ _ _ h => (nomatch h)⟩
  intro g' aid' hg'
  cases hg'
  exact awaited_grow w _ hgrow rfl g ⟨_, hc, h.creating g hpc⟩

theorem safe_announced (g : Gate) (hpc : w.wf.pc = .notifyApproval g aid) (t : Instant) :
    Safe { w with wf := { w.wf with pc := .waitDecision g aid t } } := by
  refine safe_inGate h _ [] (.waitDecision g aid t) (append_nil _).symm rfl rfl ?_
  intro hgrow
  refine ⟨fun _ h => (nomatch h), fun _ _ h => (nomatch h), ?_, fun _ _ _ h => (nomatch h)⟩
  intro g' aid' t' hg'
  cases hg'
  exact awaited_grow w _ hgrow rfl g (h.notifying g aid hpc)

theorem safe_recordDecision (g : Gate) (t : Instant) (hpc : w.wf.pc = .waitDecision g aid t)
    (d : DecisionDict) (late : Bool)
    (hd : d.decision = some .approved → Committed w aid .approved) :
    Safe { w with wf := w.wf.recordDecision g aid d late } := by
  refine safe_inGate h _ _ (.recordDecision g aid _) rfl rfl rfl ?_
  intro hgrow
  refine ⟨fun _ h => (nomatch h), fun _ _ h => (nomatch h), fun _ _ _ h => (nomatch h), ?_⟩
  intro g' aid' d' hg'
  cases hg'
  exact ⟨awaited_grow w _ hgrow rfl g (h.waiting g aid t hpc),
    fun hdec => committed_grow w _ hgrow _ (hd hdec)⟩

/-- `_request_approval` returns. If it returns an approval, the gate's row joins
the grants; it was inserted later than the rows of all earlier grants. -/
theorem safe_recordReply (g : Gate) (d : DecisionDict) (hpc : w.wf.pc = .recordDecision g aid d) :
    Safe { w with
      wf := w.wf.afterDecision g d
      grants := w.grants ++ newGrants aid w.wf.history (w.wf.afterDecision g d).history } := by
  obtain ⟨hd, c, ha, hw, hh, hout, hdec⟩ | ⟨hd, ho⟩ := afterDecision_cases w.wf g d
  · obtain ⟨⟨n, hn, -, hlt⟩, -⟩ := h.recording g aid d hpc
    have hp : w.wf.history <+: (w.wf.afterDecision g d).history := hh ▸ prefix_append _ _
    have hnew : newGrants aid w.wf.history (w.wf.afterDecision g d).history = [(aid, c)] := by
      rw [hh, newGrants_append, if_pos hw]
    rw [hnew]
    refine safe_leave h rfl rfl hp hdec hout ?_ ?_
    · intro x hx
      refine grants_grow w { w with wf := w.wf.afterDecision g d }
        (grow_of_rows_eq _ _ rfl rfl hp) x ?_
      rcases mem_append.mp hx with hx | hx
      · exact h.grants x hx
      · cases mem_singleton.mp hx
        obtain ⟨st, hst⟩ := h.inserted aid n hn
        obtain ⟨r0, -, -, hcr⟩ := h.rows aid st hst
        grind
    · rw [map_append, nodup_append']
      refine ⟨h.nodup, nodup_singleton _, ?_⟩
      intro a ha' hb
      -- an earlier grant through this row would have been opened before itself
      grind
  · rw [newGrants_outside aid _ _ _ ho, append_nil]
    exact safe_outside h _ ho

theorem safe_step {e : Event} (hs : w.step e = some w') : Safe w' := by
  cases world_step_sound w w' e hs with
  | control sig wf hpc hh hd =>
    exact safe_signal h wf hpc hh (fun d hd' => Or.inl (hd ▸ hd'))
  | deliver aid st g wf hrow hg hpc hh hd => grind [safe_signal, fromSignal_of_mem]
  | createAttempt n aid inv kind subject hcall hfree =>
    exact safe_createAttempt h n inv kind subject hcall hfree
  | createReply aid g hpc hc => exact safe_createReply h g hpc hc
  | row aid st st' e hrow hsched hstep => exact safe_row h st st' e hrow hstep
  | recordReply tx g aid d st p loaded hpc hrow hwork => exact safe_recordReply h g d hpc
  | outside _ wf ho => exact safe_outside h wf ho
  | announced r g aid hpc => exact safe_announced h g hpc _
  | decided g aid t d hpc hd hid =>
    exact safe_recordDecision h g t hpc d false
      (committed_of_fromSignal h d (h.decision d hd) hid .approved)
  | expired g aid t hpc =>
    exact safe_recordDecision h g t hpc _ true (by simp [timeoutDecision])
  | tick t => exact { h with }

end Steps

theorem rowInv_reachable (r0 : ApprovalRow) (st : RowState) (h : (rowSystem r0).Reachable st) :
    RowInv r0 st := by
  refine reachable_invariant (rowSystem r0) (RowInv r0) ?_ ?_ st h
  · intro s hs
    exact hs ▸ rowInv_created r0
  · exact fun s e t hi ht => rowInv_step s t e hi ht

theorem safe_init (input : Input) (w : World) (h : (system input).init w) : Safe w := by
  obtain ⟨hwf, hc, hg, hrows⟩ := h
  refine ⟨?_, ?_, ?_, ?_, ?_, ?_, ?_, ?_, ?_⟩
  · grind [rowInv_reachable]
  all_goals simp [hwf, hc, hg, start]

theorem safe_reachable (input : Input) (w : World) (h : (system input).Reachable w) : Safe w :=
  reachable_invariant (system input) Safe (safe_init input) (fun _ _ _ hw hs =>
    safe_step hw hs) w h

/-- Whenever the run starts a write, some row that it had inserted with the
subject of that write was committed as approved before, and no row is used for
two writes. -/
theorem approval_safety (input : Input) (w w' : World) (e : Event) (c : Call)
    (hw : (system input).Reachable w) (hs : (system input).step w e = some w')
    (hc : c.isWrite = true) (hstart : c ∈ w'.wf.history.drop w.wf.history.length) :
    ∃ aid st n inv u, w'.grants = w.grants ++ [(aid, c)] ∧ (w'.grants.map Prod.fst).Nodup ∧
      w.rows aid = some st ∧ w.created aid = some n ∧
      w.wf.history[n]? = some (.createApproval inv st.row.kind st.row.subject) ∧
      Authorises st.row.subject c ∧ (.approved, u) ∈ st.commits := by
  have h := safe_reachable input w hw
  have h' := safe_step h hs
  -- a step schedules at most one call, so a write that starts is that call
  have hone (c' : Call) (hh : w'.wf.history = w.wf.history ++ [c']) : c = c' := by
    simpa [hh] using hstart
  have hlast (c' : Call) (hc' : c'.isWrite = false)
      (hh : w'.wf.history = w.wf.history ++ [c']) : False := by
    rw [← hone c' hh, hc] at hc'
    cases hc'
  have hsame (hh : w'.wf.history = w.wf.history) : False := by
    simp [hh] at hstart
  cases world_step_sound w w' e hs with
  | control sig wf hpc hh hd => exact absurd hh hsame
  | deliver aid st g wf hrow hg hpc hh hd => exact absurd hh hsame
  | createAttempt n aid inv kind subject hcall hfree => exact absurd rfl hsame
  | createReply aid g hpc hcr => exact absurd rfl (hlast _ rfl)
  | row aid st st' e hrow hsched hstep => exact absurd rfl hsame
  | outside _ wf ho =>
    cases ho with
    | quiet hpc hd hh => exact absurd hh hsame
    | call c' hc' hpc hd hh => exact absurd hh (hlast c' (isWrite_of_isPlain c' hc'))
    | request g hpc hd hh => exact absurd hh (hlast _ rfl)
  | announced r g aid hpc => exact absurd rfl hsame
  | decided g aid t d hpc hd hid => exact absurd rfl (hlast _ rfl)
  | expired g aid t hpc => exact absurd rfl (hlast _ rfl)
  | tick t => exact absurd rfl hsame
  | recordReply tx g aid d st p loaded hpc hrow hwork =>
    -- the one place where a write is scheduled: `_request_approval` has returned
    obtain ⟨hd, c', ha, hw', hh, -, -⟩ | ⟨hd, ho⟩ := afterDecision_cases w.wf g d
    · cases hone c' hh
      obtain ⟨⟨n, hn, ⟨inv, hcall⟩, hlt⟩, happ⟩ := h.recording g aid d hpc
      obtain ⟨st', u, hrow', hu⟩ := happ hd
      cases hrow.symm.trans hrow'
      -- the row and the gate stem from the same `create_approval`, and the subject
      -- of a row never changes
      obtain ⟨r0, hid, hinv, hcr⟩ := h.rows aid st hrow
      obtain ⟨inv', hcall'⟩ := hcr n hn
      obtain ⟨-, hkind, hsubj⟩ : inv = inv' ∧ g.kind = r0.kind ∧ g.subject = r0.subject := by
        simpa using hcall.symm.trans hcall'
      have hreq := hinv.request
      have hk : st.row.kind = g.kind := (congrArg (·.2.2.1) hreq).trans hkind.symm
      have hs : st.row.subject = g.subject := (congrArg (·.2.2.2) hreq).trans hsubj.symm
      refine ⟨aid, st, n, inv, u, ?_, h'.nodup, hrow, hn, ?_, hs ▸ ha, hu⟩
      · simp only [hh, newGrants_append, if_pos hw']
      · rw [hk, hs, hcall]
    · cases ho with
      | quiet hpc' hd' hh => exact absurd hh hsame
      | call c' hc' hpc' hd' hh => exact absurd hh (hlast c' (isWrite_of_isPlain c' hc'))
      | request g' hpc' hd' hh => exact absurd hh (hlast _ rfl)

def sampleEvent : AlertEvent :=
  ⟨3, "3", "grafana", "presto-us1", "OOM", none, "", none, "high", [], "f"⟩

def sampleInput : Input := ⟨sampleEvent, none, "investigation-3", none, none⟩

def sampleCase : Case :=
  ⟨2, "presto-us1", ⟨some 3, some 5, some 600, []⟩, none, none, none, ⟨none, []⟩, false, none⟩

def sampleRequest : RawCommandRequest := ⟨"curl -s http://localhost/v1/info", "", ""⟩

def sampleReport : Report := ⟨.needMoreData, 0, [], [sampleRequest], none, none, []⟩

def sampleWorld : World := ⟨start sampleInput, 0, fun _ => none, fun _ => none, []⟩

def sampleRun : List Event :=
  [.reply (.case sampleCase), .reply (.plan .null), .reply (.spend 0), .reply (.evidence []),
    .reply (.report sampleReport), .reply .done, .reply (.validation true), .createAttempt 7 1,
    .createReply 1, .reply .done, .row 1 (.check 0 ⟨some "approved", none, 7⟩ (some .opened)),
    .row 1 (.update 0 5), .row 1 (.commit 0), .row 1 (.signal 0),
    .deliver 1 ⟨1, .approved, none⟩, .wake,
    .row 1 (.select 0 ⟨2, 1, some .approved, none, .rawCommand, false⟩ 9), .row 1 (.finish 0)]

theorem sampleRun_write : ∃ w w' c, (system sampleInput).Reachable w ∧
    (system sampleInput).step w (.recordReply 0) = some w' ∧ c.isWrite = true ∧
    w'.wf.history = w.wf.history ++ [c] := by
  refine ⟨_, _, _, run_reachable _ sampleRun sampleWorld _ (.init ⟨rfl, rfl, rfl, ?_⟩) rfl, rfl,
    ?_, rfl⟩
  · intro aid st h
    cases h
  · rfl

/-- The run starts its raw command when `record_approval_decision` completes. -/
theorem approval_safety_sampleRun : ∃ w w' c aid st u, (system sampleInput).Reachable w ∧
    (system sampleInput).step w (.recordReply 0) = some w' ∧ c.isWrite = true ∧
    w'.grants = w.grants ++ [(aid, c)] ∧ w.rows aid = some st ∧
    (.approved, u) ∈ st.commits := by
  obtain ⟨w, w', c, hw, hs, hc, hh⟩ := sampleRun_write
  obtain ⟨aid, st, n, inv, u, hg, -, hrow, -, -, -, hu⟩ :=
    approval_safety sampleInput w w' _ c hw hs hc (by simp [hh])
  exact ⟨w, w', c, aid, st, u, hw, hs, hc, hg, hrow, hu⟩

end DbAgent.ApprovalWorld
