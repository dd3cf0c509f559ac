import DbAgent.WorkflowRuns

/-! The `abort` signal. The flag it sets is looked at on top of a round and
nowhere else. -/
namespace DbAgent.WorkflowRuns

open Transition Workflow State

/-- What an abort is for: nothing acts on the platform any more, and unless an
activity fails the run comes to its end, as aborted, after a bounded number of
moves. -/
structure AbortEffective (r : Run) : Prop where
  no_write : ∀ es r', runs.run r es = some r' → writes r'.wf = writes r.wf
  bounded : ∃ n, ∀ es r', (∀ e ∈ es, e.Smooth) → runs.run r es = some r' →
    es.countP Event.isMove ≤ n
  aborted : ∀ es r', (∀ e ∈ es, e.Smooth) → runs.run r es = some r' → r'.wf.closed = true →
    r'.wf.pc = .returned (.needsHuman .aborted)
  ends : ∀ es r', (∀ e ∈ es, e.Smooth) → runs.run r es = some r' →
    ∃ fs r'', (∀ e ∈ fs, e.Smooth) ∧ runs.run r' fs = some r'' ∧ r''.wf.closed = true

def goesOn (s : State) (round : ℤ) (report : Report) : Bool :=
  !(report.status = .concluded ∧ s.threshold ≤ report.confidence) &&
    !(report.status = .inconclusive ∧ report.missingInfo.isEmpty) &&
    decide (round+1 ≤ s.lastRound)

/-- The points from which the run is bound to look at the flag again before
anything else, or has done so. -/
def looksAtFlag (s : State) : Bool :=
  match s.pc with
  | .waitPaused _ => true
  | .planNext round => decide (round+1 ≤ s.lastRound)
  | .recordIteration round report => report.rawCommandRequests.isEmpty && goesOn s round report
  | .runRaw round report rest => rest.isEmpty && goesOn s round report
  | .recordDecision (.raw round report _ rest) _ d =>
    decide (d.decision ≠ some .approved) && rest.isEmpty && goesOn s round report
  | .toNeedsHuman reason => reason == .aborted
  | .notifyNeedsHuman reason => reason == .aborted
  | _ => false

def movesLeft (s : State) : ℕ :=
  match s.pc with
  | .returned _ => 0
  | .notifyNeedsHuman _ => 1
  | .toNeedsHuman _ => 2
  | .waitPaused _ => 3
  | .planNext _ => 3
  | _ => 4

structure Aborting (s : State) : Prop where
  flag : s.aborted = true
  way : looksAtFlag s = true ∨ s.pc = .returned (.needsHuman .aborted)

variable {s : State} {round : ℤ} {report : Report}

theorem endRound_goesOn (h : goesOn s round report = true) :
    s.endRound round report = s.schedule (.planNext s.input.event s.investigationId s.maxCalls
      round report.missingInfo (s.evidence.map fun e => (e.evidenceId, e.summary)))
      (.planNext round) ∧ round+1 ≤ s.lastRound := by
  simp only [goesOn, Bool.and_eq_true, Bool.not_eq_true', decide_eq_false_iff_not,
    decide_eq_true_eq] at h
  refine ⟨?_, h.2⟩
  unfold endRound
  rw [if_neg h.1.1, if_neg h.1.2]

theorem checkBudget_aborted (now : Instant) (round : ℤ) (h : s.aborted = true) :
    s.checkBudget now round = s.needsHuman .aborted := by
  unfold checkBudget
  rw [if_pos h]

theorem writes_schedule (s : State) (c : Call) (pc : Pc) (h : c.isWrite = false) :
    writes (s.schedule c pc) = writes s := by
  simp [writes, schedule, List.countP_append, h]

structure Advances (s t : State) : Prop where
  aborting : Aborting t
  moves : movesLeft t+1 ≤ movesLeft s
  writes_eq : writes t = writes s

theorem advances_checkBudget {s u : State} (now : Instant) (round : ℤ) (hu : u.aborted = true)
    (hs : movesLeft s = 3) (hw : writes u = writes s) :
    Advances s (u.checkBudget now round) := by
  rw [checkBudget_aborted now round hu]
  refine ⟨⟨hu, .inl rfl⟩, ?_, ?_⟩
  · rw [hs]
    exact le_rfl
  · exact (writes_schedule u _ _ rfl).trans hw

theorem advances_endRound {s u : State} (hu : u.aborted = true) (hg : goesOn u round report = true)
    (hs : movesLeft s = 4) (hw : writes u = writes s) : Advances s (u.endRound round report) := by
  obtain ⟨he, hle⟩ := endRound_goesOn hg
  rw [he]
  refine ⟨⟨hu, .inl ?_⟩, ?_, ?_⟩
  · exact decide_eq_true hle
  · rw [hs]
    exact le_rfl
  · rw [writes_schedule _ _ _ rfl, hw]

theorem advances_resume {s t : State} {now : Instant} {a : Reply} (hf : s.aborted = true)
    (hl : looksAtFlag s = true) (ha : a ≠ .error) (h : s.resume now a = some t) :
    Advances s t := by
  cases resumed_of_resume h with
  | recordIteration round report hpc =>
    simp only [looksAtFlag, hpc, Bool.and_eq_true, List.isEmpty_iff] at hl
    rw [hl.1]
    exact advances_endRound hf hl.2 (by rw [movesLeft, hpc]) rfl
  | runRaw es round report rest hpc =>
    simp only [looksAtFlag, hpc, Bool.and_eq_true, List.isEmpty_iff] at hl
    rw [hl.1]
    exact advances_endRound hf hl.2 (by rw [movesLeft, hpc]) rfl
  | recordDecision g aid d hpc =>
    cases g with
    | raw round report req rest =>
      simp only [looksAtFlag, hpc, Bool.and_eq_true, List.isEmpty_iff, decide_eq_true_eq] at hl
      obtain ⟨⟨hd, rfl⟩, hg⟩ := hl
      simp only [afterDecision, if_neg hd]
      exact advances_endRound hf hg (by rw [movesLeft, hpc]) rfl
    | remediation action rest => simp [looksAtFlag, hpc] at hl
  | planNext p round hpc =>
    simp only [looksAtFlag, hpc, decide_eq_true_eq] at hl
    have hnot : ¬ s.lastRound < round+1 := by omega
    unfold enterRound
    rw [if_neg hnot, if_neg (by simp [hf])]
    exact advances_checkBudget now _ hf (by rw [movesLeft, hpc]) rfl
  | toNeedsHuman reason hpc =>
    simp only [looksAtFlag, hpc, beq_iff_eq] at hl
    subst hl
    have hleft : movesLeft s = 2 := by rw [movesLeft, hpc]
    refine ⟨⟨hf, .inl rfl⟩, ?_, writes_schedule _ _ _ rfl⟩
    rw [hleft]
    exact le_rfl
  | notified a o ha hpc =>
    obtain ⟨reason, hpc, rfl⟩ | ⟨reason, hpc, rfl⟩ | ⟨hpc, rfl⟩ := hpc
    · simp [looksAtFlag, hpc] at hl
    · simp only [looksAtFlag, hpc, beq_iff_eq] at hl
      subst hl
      have hleft : movesLeft s = 1 := by rw [movesLeft, hpc]
      refine ⟨⟨hf, .inr rfl⟩, ?_, rfl⟩
      rw [hleft]
      exact le_rfl
    · simp [looksAtFlag, hpc] at hl
  | raised _ => exact absurd rfl ha
  | notifyApproval _ _ _ _ hpc => simp [looksAtFlag, hpc] at hl
  | _ =>
    rename_i hpc
    simp [looksAtFlag, hpc] at hl

theorem aborting_signal (sig : Signal) (h : Aborting s) :
    Aborting (s.signal sig) ∧ movesLeft (s.signal sig) = movesLeft s ∧
      writes (s.signal sig) = writes s := by
  obtain ⟨p, a, b, d, hs, ha⟩ := signal_frame s sig
  rw [hs]
  exact ⟨⟨ha h.flag, h.way⟩, rfl, rfl⟩

def AbortingOrRaised (s : State) : Prop := Aborting s ∨ s.pc = .raised

theorem aborting_step {r r' : Run} {e : Event} (hr : Aborting r.wf)
    (h : runs.step r e = some r') :
    AbortingOrRaised r'.wf ∧ writes r'.wf = writes r.wf ∧
      (e.isError = false → Aborting r'.wf ∧
        movesLeft r'.wf+(if e.isMove then 1 else 0) ≤ movesLeft r.wf) := by
  obtain ⟨sig, rfl, -, rfl⟩ | ⟨a, s, rfl, hs, rfl⟩ | ⟨s, rfl, hs, rfl⟩ | ⟨s, rfl, hs, rfl⟩ |
    ⟨t, rfl, -, rfl⟩ := step_cases h
  · obtain ⟨ha, hm, hw⟩ := aborting_signal sig hr
    exact ⟨.inl ha, hw, fun _ => ⟨ha, by simp [Event.isMove, hm]⟩⟩
  · rcases hr.way with hl | hpc
    · by_cases ha : a = .error
      · subst ha
        cases resumed_of_resume hs with
        | raised _ => exact ⟨.inr rfl, rfl, fun he => by cases he⟩
        | notifyApproval _ _ _ _ hpc => simp [looksAtFlag, hpc] at hl
        | notified _ o _ hpc =>
          obtain ⟨reason, hpc, rfl⟩ | ⟨reason, hpc, rfl⟩ | ⟨hpc, rfl⟩ := hpc
          · simp [looksAtFlag, hpc] at hl
          · simp only [looksAtFlag, hpc, beq_iff_eq] at hl
            subst hl
            exact ⟨.inl ⟨hr.flag, .inr rfl⟩, rfl, fun he => by cases he⟩
          · simp [looksAtFlag, hpc] at hl
      · have hadv := advances_resume hr.flag hl ha hs
        exact ⟨.inl hadv.aborting, hadv.writes_eq, fun _ => ⟨hadv.aborting, hadv.moves⟩⟩
    · grind [closed, resume_of_closed]
  · obtain ⟨round, hpc, -, rfl⟩ | ⟨g, aid, timer, d, hpc, -, -, rfl⟩ := wake_cases hs
    · have hadv : Advances r.wf (r.wf.checkBudget r.now round) :=
        advances_checkBudget r.now round hr.flag (by rw [movesLeft, hpc]) rfl
      exact ⟨.inl hadv.aborting, hadv.writes_eq, fun _ => ⟨hadv.aborting, hadv.moves⟩⟩
    · have hway := hr.way
      simp [looksAtFlag, hpc] at hway
  · have hway := hr.way
    grind [timer_cases, looksAtFlag]
  · exact ⟨.inl hr, rfl, fun _ => ⟨hr, le_rfl⟩⟩

theorem aborting_next {r : Run} (hr : Aborting r.wf) (hopen : ¬ r.wf.closed = true) :
    ∃ e r', e.Smooth ∧ e.isMove = true ∧ runs.step r e = some r' := by
  have hl : looksAtFlag r.wf = true := by
    rcases hr.way with hl | hpc
    · exact hl
    · exact absurd (by rw [closed, hpc]) hopen
  have hdone {s : State} (h : r.wf.resume r.now .done = some s) :
      ∃ e r', e.Smooth ∧ e.isMove = true ∧ runs.step r e = some r' :=
    ⟨.reply .done, _, rfl, rfl, step_reply h⟩
  unfold looksAtFlag at hl
  split at hl
  · rename_i round hpc
    have hwake : r.wf.wake r.now = some (r.wf.checkBudget r.now round) := by
      simp [wake, hpc, hr.flag]
    exact ⟨.wake, _, rfl, rfl, step_wake hwake⟩
  · rename_i round hpc
    have hplan : r.wf.resume r.now (.plan .null) =
        some (enterRound { r.wf with plan := .null } r.now (round+1)) := by
      simp only [resume, hpc]
    exact ⟨.reply (.plan .null), _, rfl, rfl, step_reply hplan⟩
  · rename_i hpc
    exact hdone (by simp only [resume, hpc]; rfl)
  · rename_i round report rest hpc
    have hev : r.wf.resume r.now (.evidence []) = some
        (rawLoop { r.wf with evidence := r.wf.evidence ++ [] } round report rest) := by
      simp only [resume, hpc]
    exact ⟨.reply (.evidence []), _, rfl, rfl, step_reply hev⟩
  · rename_i hpc
    exact hdone (by simp only [resume, hpc]; rfl)
  · rename_i hpc
    exact hdone (by simp only [resume, hpc]; rfl)
  · rename_i hpc
    exact hdone (by simp only [resume, afterNotify, hpc]; rfl)
  · cases hl

theorem aborting_run {r r' : Run} (hr : Aborting r.wf) (es : List Event)
    (hes : ∀ e ∈ es, e.Smooth) (hrun : runs.run r es = some r') : Aborting r'.wf :=
  run_invariant runs Event.Smooth (fun r => Aborting r.wf)
    (fun _ _ _ he hp hs => ((aborting_step hp hs).2.2 he).1) es r r' hes hr hrun

theorem returned_of_aborting (ha : Aborting s) (hc : s.closed = true) :
    s.pc = .returned (.needsHuman .aborted) := by
  rcases ha.way with hl | hpc
  · grind [looksAtFlag, closed]
  · exact hpc

theorem writes_of_aborting {r r' : Run} (hr : Aborting r.wf) (es : List Event)
    (hrun : runs.run r es = some r') : writes r'.wf = writes r.wf := by
  have hkeep (s : Run) (e : Event) (t : Run)
      (h : AbortingOrRaised s.wf ∧ writes s.wf = writes r.wf) (hs : runs.step s e = some t) :
      AbortingOrRaised t.wf ∧ writes t.wf = writes r.wf := by
    obtain ⟨ha | hraised, hw⟩ := h
    · obtain ⟨ha', hw', -⟩ := aborting_step ha hs
      exact ⟨ha', hw'.trans hw⟩
    · have hsame := step_of_closed (by rw [closed, hraised]) hs
      rw [hsame]
      exact ⟨.inr hraised, hw⟩
  exact (run_invariant runs (fun _ => True)
    (fun r' => AbortingOrRaised r'.wf ∧ writes r'.wf = writes r.wf)
    (fun s e t _ => hkeep s e t) es r r' (fun _ _ => trivial) ⟨.inl hr, rfl⟩ hrun).2

theorem end_of_aborting {r : Run} (hr : Aborting r.wf) :
    ∃ es r', (∀ e ∈ es, e.Smooth) ∧ runs.run r es = some r' ∧ r'.wf.closed = true := by
  have hgo (s : Run) (hs : Aborting s.wf) (hopen : ¬ s.wf.closed = true) :
      ∃ fs t, (∀ e ∈ fs, e.Smooth) ∧ runs.run s fs = some t ∧ Aborting t.wf ∧
        movesLeft t.wf < movesLeft s.wf := by
    obtain ⟨e, t, he, hmove, hstep⟩ := aborting_next hs hopen
    obtain ⟨ht, hle⟩ := (aborting_step hs hstep).2.2 he
    rw [hmove, if_pos rfl] at hle
    refine ⟨[e], t, ?_, ?_, ht, by omega⟩
    · grind
    · simp only [System.run, hstep, Option.bind_some]
  obtain ⟨es, r', hes, hrun, -, hc⟩ := run_to_end runs Event.Smooth
    (fun r => Aborting r.wf) (fun r => r.wf.closed = true) (fun r => movesLeft r.wf) hgo r hr
  exact ⟨es, r', hes, hrun, hc⟩

theorem effective_of_aborting {r : Run} (hr : Aborting r.wf) : AbortEffective r := by
  refine ⟨?_, ⟨movesLeft r.wf, ?_⟩, ?_, ?_⟩
  · intro es r' hrun
    exact writes_of_aborting hr es hrun
  · intro es r' hes hrun
    have hrank := run_rank runs Event.Smooth Event.isMove (fun r => Aborting r.wf)
      (fun r => movesLeft r.wf) (fun _ _ _ he hp hs => (aborting_step hp hs).2.2 he) es r r'
      hes hr hrun
    omega
  · intro es r' hes hrun hc
    exact returned_of_aborting (aborting_run hr es hes hrun) hc
  · intro es r' hes hrun
    exact end_of_aborting (aborting_run hr es hes hrun)

/-- Without the failure of an activity, something is started that acts on the
platform, the workflow task fails for good, or the run ends in another way. -/
def Missed (r : Run) : Prop :=
  ∃ es r', (∀ e ∈ es, e.Smooth) ∧ runs.run r es = some r' ∧
    (writes r.wf < writes r'.wf ∨ r'.wf.pc = .stuck ∨
      ∃ o, r'.wf.pc = .returned o ∧ o ≠ .needsHuman .aborted)

theorem not_effective_of_missed {r : Run} (h : Missed r) : ¬ AbortEffective r := by
  intro he
  obtain ⟨es, r', hes, hrun, hw | hstuck | ⟨o, hpc, hne⟩⟩ := h
  · have heq := he.no_write es r' hrun
    omega
  · obtain ⟨fs, r'', -, hrun', hc⟩ := he.ends es r' hes hrun
    have hpc : r''.wf.pc = .stuck :=
      run_invariant runs (fun _ => True) (fun r => r.wf.pc = .stuck)
        (fun _ _ _ _ hp hs => stuck_step hp hs) fs r' r'' (fun _ _ => trivial) hstuck hrun'
    simp [closed, hpc] at hc
  · have hend := he.aborted es r' hes hrun (by rw [closed, hpc])
    grind

theorem missed_step {r r' : Run} {e : Event} (h : runs.step r e = some r') (he : e.Smooth)
    (hm : Missed r') : Missed r := by
  obtain ⟨es, r'', hes, hrun, hbad⟩ := hm
  refine ⟨e :: es, r'', ?_, ?_, ?_⟩
  · grind
  · simp only [System.run, h, Option.bind_some]
    exact hrun
  · rcases hbad with hw | hbad
    · exact .inl (lt_of_le_of_lt (writes_step h) hw)
    · exact .inr hbad

theorem missed_reply {r : Run} (a : Reply) (ha : a ≠ .error) (h : r.wf.resume r.now a = some s)
    (hm : Missed { r with wf := s }) : Missed r := by
  apply missed_step (step_reply h) _ hm
  grind [Event.Smooth, Event.isError]

theorem missed_returned {r : Run} {o : Outcome} (hpc : r.wf.pc = .returned o)
    (ho : o ≠ .needsHuman .aborted) : Missed r :=
  ⟨[], r, fun _ he => absurd he List.not_mem_nil, rfl, .inr (.inr ⟨o, hpc, ho⟩)⟩

theorem missed_stuck {r : Run} (hpc : r.wf.pc = .stuck) : Missed r :=
  ⟨[], r, fun _ he => absurd he List.not_mem_nil, rfl, .inr (.inl hpc)⟩

theorem missed_write {r r' : Run} {e : Event} (h : runs.step r e = some r') (he : e.Smooth)
    (hw : writes r.wf < writes r'.wf) : Missed r := by
  refine ⟨[e], r', ?_, ?_, .inl hw⟩
  · grind
  · simp only [System.run, h, Option.bind_some]

variable {r : Run}

theorem missed_notified {o : Outcome} (ho : o ≠ .needsHuman .aborted)
    (hpc : (∃ reason, r.wf.pc = .notifyRejected reason ∧ o = .rejected reason) ∨
      (∃ reason, r.wf.pc = .notifyNeedsHuman reason ∧ o = .needsHuman reason) ∨
      r.wf.pc = .notifyResolved ∧ o = .resolved) : Missed r := by
  have h : r.wf.resume r.now .done = some { r.wf with pc := .returned o } := by
    obtain ⟨reason, hpc, rfl⟩ | ⟨reason, hpc, rfl⟩ | ⟨hpc, rfl⟩ := hpc
    all_goals simp only [resume, afterNotify, hpc]
  apply missed_reply .done (by simp) h
  exact missed_returned rfl ho

theorem missed_toNeedsHuman (reason : Reason) (hpc : r.wf.pc = .toNeedsHuman reason)
    (hne : reason ≠ .aborted) : Missed r := by
  apply missed_reply .done (by simp) (by simp only [resume, hpc]; rfl)
  apply missed_notified _ (.inr (.inl ⟨reason, rfl, rfl⟩))
  simpa using hne

theorem missed_rejectCase {reason : String} (hpc : r.wf.pc = .rejectCase reason) : Missed r := by
  apply missed_reply .done (by simp) (by simp only [resume, hpc]; rfl)
  exact missed_notified (by simp) (.inl ⟨reason, rfl, rfl⟩)

theorem missed_createCase (hpc : r.wf.pc = .createCase) : Missed r := by
  let c : Case := ⟨0, "", ⟨none, none, none, []⟩, none, none, none, ⟨none, []⟩, true, none⟩
  apply missed_reply (.case c) (by simp) (by simp only [resume, hpc]; rfl)
  exact missed_rejectCase rfl

theorem afterPlanInitial_overflow {now : Instant} (plan : Value)
    (h : Py.addSeconds now (Py.truncate (s.budget.maxWallSeconds.getD 1800)) = none) :
    (s.afterPlanInitial now plan).pc = .stuck := by
  unfold afterPlanInitial
  rw [h]

theorem missed_planInitial (hpc : r.wf.pc = .planInitial) : Missed r := by
  let wall := Py.truncate (r.wf.budget.maxWallSeconds.getD 1800)
  let t : Instant := max r.now (Py.maxInstant-wall*1000000+1)
  have hover : Py.addSeconds t wall = none := by
    have ht : Py.maxInstant-wall*1000000+1 ≤ t := le_max_right _ _
    unfold Py.addSeconds
    rw [if_neg]
    intro h
    omega
  apply missed_step (step_tick (r := r) (t := t) (le_max_left _ _)) rfl
  apply missed_reply (.plan .null) (by simp) (by simp only [resume, hpc]; rfl)
  apply missed_stuck
  exact afterPlanInitial_overflow _ hover

theorem missed_closeWithSummary {reason : CloseReason} (hpc : r.wf.pc = .closeWithSummary reason) :
    Missed r := by
  apply missed_reply .done (by simp) (by simp only [resume, hpc]; rfl)
  exact missed_returned rfl (by simp)

theorem missed_closeResolved (hpc : r.wf.pc = .closeResolved) : Missed r := by
  apply missed_reply .done (by simp) (by simp only [resume, hpc]; rfl)
  exact missed_notified (by simp) (.inr (.inr ⟨rfl, rfl⟩))

theorem missed_planRemediation (hpc : r.wf.pc = .planRemediation) : Missed r := by
  apply missed_reply (.remediation ⟨[], none⟩) (by simp) (by simp only [resume, hpc]; rfl)
  exact missed_closeWithSummary rfl

variable {action : Action} {rest : List Action}

theorem missed_verifyFix (hpc : r.wf.pc = .verifyFix action rest) : Missed r := by
  apply missed_reply (.verified false) (by simp) (by simp only [resume, hpc]; rfl)
  exact missed_toNeedsHuman .verificationFailed rfl (by simp)

theorem missed_settle {exec : Option Uuid} {timer : Instant}
    (hpc : r.wf.pc = .settle action rest exec timer) : Missed r := by
  let t : Instant := max r.now timer
  apply missed_step (step_tick (r := r) (t := t) (le_max_left _ _)) rfl
  have htimer : r.wf.timer t = some (r.wf.verify action rest exec) := by
    simp only [State.timer, hpc, t, le_max_right, if_true]
  apply missed_step (step_timer (r := { r with now := t }) htimer) rfl
  exact missed_verifyFix rfl

theorem missed_executePlaybook (hpc : r.wf.pc = .executePlaybook action rest) : Missed r := by
  apply missed_reply (.executed false none) (by simp) (by simp only [resume, hpc]; rfl)
  exact missed_toNeedsHuman .playbookFailed rfl (by simp)

variable {g : Gate} {aid : Uuid}

theorem missed_approved {d : DecisionDict} (hpc : r.wf.pc = .recordDecision g aid d)
    (hd : d.decision = some .approved) : Missed r := by
  have h : r.wf.resume r.now .done = some (r.wf.afterDecision g d) := by
    simp only [resume, hpc]
  apply missed_write (step_reply h) rfl
  grind [afterDecision_cases, writes]

theorem missed_waitDecision {timer : Instant} (hpc : r.wf.pc = .waitDecision g aid timer)
    (ha : r.wf.awaitingApprovalId = some aid) :
    Missed r := by
  let d : DecisionDict := ⟨some aid, some .approved, none, none⟩
  have hsig : r.wf.signal (.approvalDecided d) = { r.wf with approvalDecision := some d } := by
    simp [signal, ha, d]
  apply missed_step (step_signal (.approvalDecided d) (by rw [closed, hpc])) rfl
  rw [hsig]
  have hwake : wake { r.wf with approvalDecision := some d } r.now =
      some (recordDecision { r.wf with approvalDecision := some d } g aid d false) := by
    simp [wake, hpc, d]
  apply missed_step (step_wake (r := ⟨{ r.wf with approvalDecision := some d }, r.now⟩) hwake) rfl
  exact missed_approved rfl rfl

theorem missed_notifyApproval (hpc : r.wf.pc = .notifyApproval g aid)
    (ha : r.wf.awaitingApprovalId = some aid) : Missed r := by
  apply missed_reply .done (by simp) (by simp only [resume, afterNotify, hpc]; rfl)
  exact missed_waitDecision rfl ha

theorem missed_createApproval (hpc : r.wf.pc = .createApproval g) : Missed r := by
  apply missed_reply (.approval 0) (by simp) (by simp only [resume, hpc]; rfl)
  exact missed_notifyApproval rfl rfl

theorem missed_actionLoop (s : State) (now : Instant) (rest : List Action) :
    Missed ⟨s.actionLoop rest, now⟩ := by
  cases rest with
  | nil =>
    unfold actionLoop
    split_ifs
    · exact missed_closeResolved rfl
    · exact missed_closeWithSummary rfl
  | cons a rest => exact missed_createApproval rfl

theorem missed_validateRaw {req : RawCommandRequest} {rest : List RawCommandRequest}
    (hpc : r.wf.pc = .validateRaw round report req rest) :
    Missed r := by
  apply missed_reply (.validation true) (by simp) (by simp only [resume, hpc]; rfl)
  exact missed_createApproval rfl

theorem missed_planNext (hpc : r.wf.pc = .planNext round) (hlast : ¬ round+1 ≤ r.wf.lastRound) :
    Missed r := by
  apply missed_reply (.plan .null) (by simp) (by simp only [resume, hpc]; rfl)
  unfold enterRound
  rw [if_pos (show r.wf.lastRound < round+1 by omega)]
  exact missed_toNeedsHuman .roundBudget rfl (by simp)

theorem missed_endRound (s : State) (now : Instant) (round : ℤ) (report : Report)
    (hg : goesOn s round report = false) : Missed ⟨s.endRound round report, now⟩ := by
  unfold endRound
  split_ifs with hc hi
  · exact missed_planRemediation rfl
  · exact missed_toNeedsHuman .inconclusive rfl (by simp)
  · apply missed_planNext rfl
    intro hle
    change round+1 ≤ s.lastRound at hle
    simp only [goesOn, hc, hi, hle, decide_false, decide_true, Bool.not_false, Bool.and_self,
      reduceCtorEq] at hg

theorem missed_rawLoop (s : State) (now : Instant) (round : ℤ) (report : Report)
    (rest : List RawCommandRequest) (h : (rest.isEmpty && goesOn s round report) = false) :
    Missed ⟨s.rawLoop round report rest, now⟩ := by
  cases rest with
  | nil => exact missed_endRound s now round report (by simpa using h)
  | cons req rest => exact missed_validateRaw rfl

theorem missed_recordDecision {d : DecisionDict} (hpc : r.wf.pc = .recordDecision g aid d)
    (hl : looksAtFlag r.wf = false) : Missed r := by
  by_cases hd : d.decision = some .approved
  · exact missed_approved hpc hd
  · apply missed_reply .done (by simp) (by simp only [resume, hpc]; rfl)
    unfold afterDecision
    cases g with
    | raw round report req rest =>
      simp only [if_neg hd]
      grind [goesOn, looksAtFlag, missed_rawLoop]
    | remediation action rest =>
      simp only [if_neg hd]
      exact missed_actionLoop _ r.now rest

theorem missed_analyze (hpc : r.wf.pc = .analyze round) : Missed r := by
  let report : Report := ⟨.inconclusive, 0, [], [], none, none, []⟩
  apply missed_reply (.report report) (by simp) (by simp only [resume, hpc]; rfl)
  apply missed_reply .done (by simp) rfl
  apply missed_endRound
  simp [goesOn, report]

theorem missed_of_not_looksAtFlag (ha : Awaited r.wf) (hopen : r.wf.closed = false)
    (hl : looksAtFlag r.wf = false) : Missed r := by
  cases hpc : r.wf.pc with
  | createCase => exact missed_createCase hpc
  | rejectCase reason => exact missed_rejectCase hpc
  | notifyRejected reason => exact missed_notified (by simp) (.inl ⟨reason, hpc, rfl⟩)
  | planInitial => exact missed_planInitial hpc
  | waitPaused round => simp [looksAtFlag, hpc] at hl
  | getSpend round =>
    apply missed_reply (.spend r.wf.maxCost) (by simp) (by simp only [resume, hpc]; rfl)
    unfold afterGetSpend
    rw [if_pos le_rfl]
    exact missed_toNeedsHuman .costBudget rfl (by simp)
  | collect round spent =>
    apply missed_reply (.evidence []) (by simp) (by simp only [resume, hpc]; rfl)
    exact missed_analyze rfl
  | analyze round => exact missed_analyze hpc
  | recordIteration round report =>
    apply missed_reply .done (by simp) (by simp only [resume, hpc]; rfl)
    apply missed_rawLoop
    simpa [looksAtFlag, hpc] using hl
  | validateRaw round report req rest => exact missed_validateRaw hpc
  | createApproval g => exact missed_createApproval hpc
  | notifyApproval g aid =>
    rw [Awaited, hpc] at ha
    exact missed_notifyApproval hpc ha
  | waitDecision g aid timer =>
    rw [Awaited, hpc] at ha
    exact missed_waitDecision hpc ha
  | recordDecision g aid d => exact missed_recordDecision hpc hl
  | runRaw round report rest =>
    apply missed_reply (.evidence []) (by simp) (by simp only [resume, hpc]; rfl)
    grind [goesOn, looksAtFlag, missed_rawLoop]
  | planNext round =>
    apply missed_planNext hpc
    simpa [looksAtFlag, hpc] using hl
  | planRemediation => exact missed_planRemediation hpc
  | closeWithSummary reason => exact missed_closeWithSummary hpc
  | executePlaybook action rest => exact missed_executePlaybook hpc
  | settle action rest exec timer => exact missed_settle hpc
  | verifyFix action rest => exact missed_verifyFix hpc
  | closeResolved => exact missed_closeResolved hpc
  | notifyResolved => exact missed_notified (by simp) (.inr (.inr ⟨hpc, rfl⟩))
  | toNeedsHuman reason =>
    apply missed_toNeedsHuman reason hpc
    simpa [looksAtFlag, hpc] using hl
  | notifyNeedsHuman reason =>
    apply missed_notified _ (.inr (.inl ⟨reason, hpc, rfl⟩))
    simpa [looksAtFlag, hpc] using hl
  | returned outcome => simp [closed, hpc] at hopen
  | raised => simp [closed, hpc] at hopen
  | stuck => exact missed_stuck hpc

/-- An abort that the workflow accepts is effective exactly at the points from
which the flag is looked at before anything else. -/
theorem abort_effective_iff (r : Run) (hr : runs.Reachable r) (hopen : r.wf.closed = false)
    (hs : r.wf.status ∉ terminalStatuses) :
    AbortEffective { r with wf := r.wf.signal .abort } ↔ looksAtFlag r.wf = true := by
  have hsig : r.wf.signal .abort = { r.wf with aborted := true } := by
    simp only [signal, if_neg hs]
  rw [hsig]
  constructor
  · intro he
    by_contra hl
    apply not_effective_of_missed _ he
    apply missed_of_not_looksAtFlag
    · exact awaited_reachable r hr
    · exact hopen
    · exact (Bool.not_eq_true _).mp hl
  · intro hl
    exact effective_of_aborting ⟨rfl, .inl hl⟩

/-- A run that is paused before its first round. -/
theorem abort_effective_iff_samplePause :
    ∃ r, runs.run sampleStart [.signal .pause, .reply (.case sampleCase), .reply (.plan .null)] =
        some r ∧ r.wf.pc = .waitPaused 1 ∧
      AbortEffective { r with wf := r.wf.signal .abort } := by
  refine ⟨_, rfl, rfl, ?_⟩
  apply (abort_effective_iff _ _ rfl (by decide)).mpr rfl
  exact run_reachable runs [.signal .pause, .reply (.case sampleCase), .reply (.plan .null)]
    sampleStart _ (.init ⟨sampleInput, rfl⟩) rfl

/-- An abort while the approval of a playbook is awaited: the playbook is
executed all the same, and the case resolved. -/
theorem abort_missed_at_gate :
    ∃ r r', runs.Reachable r ∧ r.wf.closed = false ∧ r.wf.status ∉ terminalStatuses ∧
      runs.run { r with wf := r.wf.signal .abort }
        [.signal (.approvalDecided ⟨some 9, some .approved, none, none⟩), .wake, .reply .done,
          .reply (.executed true none), .reply (.verified true), .reply .done, .reply .done] =
        some r' ∧
      writes r'.wf = writes r.wf+1 ∧ r'.wf.pc = .returned .resolved := by
  refine ⟨_, _, run_reachable runs sampleGate sampleStart _ (.init ⟨sampleInput, rfl⟩) rfl, rfl,
    by decide, rfl, rfl, rfl⟩

end DbAgent.WorkflowRuns
