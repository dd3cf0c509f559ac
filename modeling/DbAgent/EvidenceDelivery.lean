import Mathlib.Tactic
import DbAgent.WorkflowRuns

/-! Which evidence the analyst gets to see in full: the items that `collect` and
`run_raw_command` add to a case, and the context that `analyze` assembles from them. -/
namespace DbAgent.Evidence

open Transition Workflow WorkflowRuns List State

section Context

/-- An entry of `evidence_summaries`. -/
structure SummaryItem where
  evidenceId : String
  toolName : Option Value
  round : ℤ
  summary : String

/-- An entry of `latest_evidence_full`. -/
structure FullItem where
  evidenceId : String
  toolName : Option Value
  args : Option Value
  payload : Value
  exitCode : Option Value

structure CompactReport where
  status : ReportStatus
  confidence : ℚ
  rootCause : Option Value
  rcaCompact : Option String
  missingInfo : List Value

structure RcaContext where
  platformType : String
  engineVersion : String
  alertEvent : AlertEvent
  round : ℤ
  maxRounds : ℤ
  spent : ℚ
  evidenceSummaries : List SummaryItem
  latestEvidenceFull : List FullItem
  previousReportsCompact : List CompactReport
  approverFeedback : String

def compactReport (r : Report) : CompactReport :=
  ⟨r.status, r.confidence, r.rest.lookup "root_cause", r.rcaCompact, r.missingInfo⟩

def formatApproverFeedback (feedback : List String) : String :=
  match (feedback.map fun x => String.ofList (Py.strip x.toList)).filter (· ≠ "") with
  | [] => ""
  | items => "\n".intercalate
      ("Approver feedback from prior rounds:" :: items.map fun item => "- " ++ item)

def summaryItem (e : Workflow.Evidence) : SummaryItem :=
  ⟨e.evidenceId, e.rest.lookup "tool_name", e.round, e.summary⟩

def fullItem (e : Workflow.Evidence) : FullItem :=
  ⟨e.evidenceId, e.rest.lookup "tool_name", e.rest.lookup "args", e.payload,
    e.rest.lookup "exit_code"⟩

/-- The oldest summaries are dropped while the context is too long and there are more of them
than items in full. -/
def trim (chars : List SummaryItem → ℕ) (keep : ℕ) : List SummaryItem → List SummaryItem
  | [] => []
  | s :: rest =>
    if 200000 < chars (s :: rest) ∧ keep < (s :: rest).length then trim chars keep rest
    else s :: rest

/-- The length of the rendered variables, and the budget of the configuration. -/
structure Analyst where
  chars : RcaContext → ℕ
  budgetDefaults : Budget

def assembleRcaContext (A : Analyst) (event : AlertEvent) (evidence : List Workflow.Evidence)
    (reports : List Report) (round maxRounds : ℤ) (spent : ℚ) (feedback : List String) :
    RcaContext :=
  let latest := (evidence.filter fun e => e.round = round).map fullItem
  let ctx : RcaContext := ⟨"presto", "0.298", event, round, maxRounds, spent,
    evidence.map summaryItem, latest, reports.map compactReport, formatApproverFeedback feedback⟩
  { ctx with
    evidenceSummaries := trim (fun s => A.chars { ctx with evidenceSummaries := s }) latest.length
      ctx.evidenceSummaries }

/-- The context that the `analyze` activity makes of its payload. -/
def contextOf (A : Analyst) : Call → Option RcaContext
  | .analyze event evidence reports round budget spent _ feedback =>
    let budget := if budget.isEmpty then A.budgetDefaults else budget
    some (assembleRcaContext A event evidence reports round
      (Py.truncate (budget.maxRounds.getD 15)) spent feedback)
  | _ => none

end Context

section Activities

/-- What `collect` has of one tool call when it adds the evidence. -/
structure ToolOutput where
  evidenceId : String
  tool : String
  args : Value
  summary : String
  data : Value
  payloadRef : String
  exitCode : ℤ
  redacted : Bool
  executedBy : String

def collect (round : ℤ) (outputs : List ToolOutput) : List Workflow.Evidence :=
  outputs.map fun o => ⟨o.evidenceId, round, o.summary, o.data,
    [("tool_name", .str o.tool), ("args", o.args), ("payload_ref", .str o.payloadRef),
      ("exit_code", .num o.exitCode), ("redacted", .bool o.redacted),
      ("executed_by", .str o.executedBy)]⟩

def runRawCommand (round : ℤ) (command evidenceId payloadRef : String) (exitCode : ℤ)
    (data : Value) : List Workflow.Evidence :=
  [⟨evidenceId, round, "raw_command output (exit=" ++ toString exitCode ++ ")", data,
    [("tool_name", .str "raw_command"), ("args", .obj [("command", .str command)]),
      ("payload_ref", .str payloadRef), ("exit_code", .num exitCode)]⟩]

def Produced (r : Run) : Event → Prop
  | .reply (.evidence es) =>
    (∀ n spent, r.wf.pc = .collect n spent → ∃ outputs, es = collect n outputs) ∧
    (∀ n report rest, r.wf.pc = .runRaw n report rest →
      ∃ command id ref exit data, es = runRawCommand n command id ref exit data) ∧
    ((r.wf.evidence ++ es).map (·.evidenceId)).Nodup
  | _ => True

end Activities

section Delivery

def isAnalyze : Call → Bool
  | .analyze _ _ _ _ _ _ _ _ => true
  | _ => false

def isRaw : Call → Bool
  | .runRawCommand _ _ _ _ => true
  | _ => false

/-- The evidence that `analyze` is called with. -/
def evidenceOf : Call → List Workflow.Evidence
  | .analyze _ es _ _ _ _ _ _ => es
  | _ => []

/-- How much of the evidence was there at the last call of `analyze`. -/
def seen (h : List Call) : ℕ :=
  h.foldl (fun n c => if isAnalyze c then (evidenceOf c).length else n) 0

/-- A call of `analyze` gets all that was added since the one before it in full. -/
def DeliveredAt (A : Analyst) (pre : List Call) (c : Call) : Prop :=
  ∀ ctx, contextOf A c = some ctx →
    ∀ e ∈ (evidenceOf c).drop (seen pre), fullItem e ∈ ctx.latestEvidenceFull

/-- No raw command has been run before a call of `analyze`. -/
def NoRawBefore (pre : List Call) (c : Call) : Prop :=
  isAnalyze c = true → ∀ d ∈ pre, isRaw d = false

theorem seen_append (h : List Call) (c : Call) :
    seen (h ++ [c]) = if isAnalyze c then (evidenceOf c).length else seen h := by
  rw [seen, foldl_append]
  rfl

theorem atEach_other {A : Analyst} {h : List Call} {c : Call} (hc : isAnalyze c = false) :
    (AtEach (DeliveredAt A) (h ++ [c]) ↔ AtEach (DeliveredAt A) h) ∧
      (AtEach NoRawBefore (h ++ [c]) ↔ AtEach NoRawBefore h) := by
  have hctx : contextOf A c = none := by
    cases c <;> first | rfl | cases hc
  constructor
  · rw [atEach_append, and_iff_left]
    intro ctx hsome
    grind
  · rw [atEach_append, and_iff_left]
    intro htrue
    grind

end Delivery

section Rounds

def gateRound : Gate → Option ℤ
  | .raw n _ _ _ => some n
  | .remediation _ _ => none

/-- The last round that was analysed, as long as another one may be. -/
def roundOf : Pc → Option ℤ
  | .createCase => some 0
  | .planInitial => some 0
  | .waitPaused n => some (n-1)
  | .getSpend n => some (n-1)
  | .collect n _ => some (n-1)
  | .analyze n => some n
  | .recordIteration n _ => some n
  | .validateRaw n _ _ _ => some n
  | .createApproval g => gateRound g
  | .notifyApproval g _ => gateRound g
  | .waitDecision g _ _ => gateRound g
  | .recordDecision g _ _ => gateRound g
  | .runRaw n _ _ => some n
  | .planNext n => some n
  | _ => none

def isRunRaw : Pc → Bool
  | .runRaw _ _ _ => true
  | _ => false

theorem roundOf_of_isRunRaw {pc : Pc} (h : isRunRaw pc = true) : roundOf pc ≠ none := by
  cases pc with
  | runRaw n report rest => exact Option.some_ne_none n
  | _ => cases h

/-- A step that starts neither an analysis nor a raw command: it stays in its round, or leaves
the rounds. -/
structure Stays (h : List Call) (round : Option ℤ) (t : State) : Prop where
  history : t.history = h ∨ ∃ c, t.history = h ++ [c] ∧ isAnalyze c = false ∧ isRaw c = false
  round : roundOf t.pc = none ∨ roundOf t.pc = round ∧ isRunRaw t.pc = false

inductive Move (s : State) (e : Event) (t : State) : Prop
  | quiet (hs : isRunRaw s.pc = false ∨ roundOf t.pc = none) (hev : t.evidence = s.evidence)
      (hstays : Stays s.history (roundOf s.pc) t)
  | runRaw (c : Call) (hs : isRunRaw s.pc = false) (hev : t.evidence = s.evidence)
      (hc : isRaw c = true) (hh : t.history = s.history ++ [c])
      (hround : roundOf t.pc = roundOf s.pc) (ht : isRunRaw t.pc = true)
  | ranRaw (es : List Workflow.Evidence) (n : ℤ) (report : Report) (rest : List RawCommandRequest)
      (he : e = .reply (.evidence es)) (hs : s.pc = .runRaw n report rest)
      (hev : t.evidence = s.evidence ++ es) (hstays : Stays s.history (some n) t)
  | collected (es : List Workflow.Evidence) (n : ℤ) (spent : ℚ)
      (he : e = .reply (.evidence es)) (hs : s.pc = .collect n spent)
      (ht : t = s.afterCollect n spent es)

theorem stays_leave (s : State) (c : Call) (pc : Pc) (round : Option ℤ)
    (hc : isAnalyze c = false ∧ isRaw c = false) (hpc : roundOf pc = none) :
    Stays s.history round (s.schedule c pc) :=
  ⟨.inr ⟨c, rfl, hc⟩, .inl hpc⟩

theorem stays_call (s : State) (c : Call) (pc : Pc) (round : Option ℤ)
    (hc : isAnalyze c = false ∧ isRaw c = false) (hpc : roundOf pc = round)
    (hraw : isRunRaw pc = false) : Stays s.history round (s.schedule c pc) :=
  ⟨.inr ⟨c, rfl, hc⟩, .inr ⟨hpc, hraw⟩⟩

theorem stays_needsHuman (s : State) (reason : Reason) (round : Option ℤ) :
    Stays s.history round (s.needsHuman reason) :=
  stays_leave s _ _ round ⟨rfl, rfl⟩ rfl

theorem stays_checkBudget (s : State) (now : Instant) (n : ℤ) :
    Stays s.history (some (n-1)) (s.checkBudget now n) := by
  unfold checkBudget
  split_ifs
  · exact stays_needsHuman _ _ _
  · exact stays_needsHuman _ _ _
  · exact stays_call s _ _ _ ⟨rfl, rfl⟩ rfl rfl

theorem evidence_checkBudget (s : State) (now : Instant) (n : ℤ) :
    (s.checkBudget now n).evidence = s.evidence := by
  unfold checkBudget
  split_ifs <;> rfl

variable {h : List Call}

theorem stays_enterRound (s : State) (hh : s.history = h) (now : Instant) (n : ℤ) :
    Stays h (some (n-1)) (s.enterRound now n) := by
  subst hh
  unfold enterRound
  split_ifs
  · exact stays_needsHuman _ _ _
  · exact ⟨.inl rfl, .inr ⟨rfl, rfl⟩⟩
  · exact stays_checkBudget s now n

theorem evidence_enterRound (s : State) (now : Instant) (n : ℤ) :
    (s.enterRound now n).evidence = s.evidence := by
  unfold enterRound
  split_ifs
  · rfl
  · rfl
  · exact evidence_checkBudget s now n

theorem stays_rawLoop (s : State) (hh : s.history = h) (n : ℤ) (report : Report)
    (rest : List RawCommandRequest) : Stays h (some n) (s.rawLoop n report rest) := by
  subst hh
  cases rest with
  | cons req rest => exact stays_call s _ _ _ ⟨rfl, rfl⟩ rfl rfl
  | nil =>
    unfold rawLoop endRound
    split_ifs
    · exact stays_leave s _ _ _ ⟨rfl, rfl⟩ rfl
    · exact stays_needsHuman _ _ _
    · exact stays_call s _ _ _ ⟨rfl, rfl⟩ rfl rfl

theorem evidence_rawLoop (s : State) (n : ℤ) (report : Report) (rest : List RawCommandRequest) :
    (s.rawLoop n report rest).evidence = s.evidence := by
  cases rest with
  | cons req rest => rfl
  | nil =>
    unfold rawLoop endRound
    split_ifs <;> rfl

theorem stays_actionLoop (s : State) (hh : s.history = h) (rest : List Action) (round : Option ℤ) :
    Stays h round (s.actionLoop rest) ∧ (s.actionLoop rest).evidence = s.evidence := by
  subst hh
  cases rest with
  | cons a rest => exact ⟨⟨.inr ⟨_, rfl, rfl, rfl⟩, .inl rfl⟩, rfl⟩
  | nil =>
    unfold actionLoop
    split_ifs
    · exact ⟨⟨.inr ⟨_, rfl, rfl, rfl⟩, .inl rfl⟩, rfl⟩
    · exact ⟨⟨.inr ⟨_, rfl, rfl, rfl⟩, .inl rfl⟩, rfl⟩

variable {s t : State} {e : Event}

theorem move_quiet {pc : Pc} (hpc : s.pc = pc) (hraw : isRunRaw pc = false)
    (hev : t.evidence = s.evidence) (hstays : Stays s.history (roundOf pc) t) : Move s e t := by
  subst hpc
  exact .quiet (.inl hraw) hev hstays

theorem move_afterDecision (g : Gate) (aid : Uuid) (d : DecisionDict)
    (hpc : s.pc = .recordDecision g aid d) : Move s e (s.afterDecision g d) := by
  unfold afterDecision
  cases g with
  | raw n report req rest =>
    dsimp only
    split_ifs with hd
    · exact .runRaw _ (by rw [hpc]; rfl) rfl rfl rfl (by rw [hpc]; rfl) rfl
    · refine move_quiet hpc rfl (evidence_rawLoop _ n report rest)
        (stays_rawLoop _ ?_ n report rest)
      rfl
  | remediation action rest =>
    dsimp only
    split_ifs with hd
    · exact move_quiet hpc rfl rfl ⟨.inr ⟨_, rfl, rfl, rfl⟩, .inl rfl⟩
    · obtain ⟨hstays, hev⟩ := stays_actionLoop { s with status := .investigating } rfl rest none
      exact move_quiet hpc rfl hev hstays

theorem move_afterCreateCase (c : Case) (hpc : s.pc = .createCase) :
    Move s e (s.afterCreateCase c) := by
  unfold afterCreateCase
  dsimp only
  split_ifs
  · exact move_quiet hpc rfl rfl ⟨.inr ⟨_, rfl, rfl, rfl⟩, .inl rfl⟩
  · exact move_quiet hpc rfl rfl ⟨.inr ⟨_, rfl, rfl, rfl⟩, .inr ⟨rfl, rfl⟩⟩

theorem move_afterPlanInitial (now : Instant) (p : Value)
    (hpc : s.pc = .planInitial) : Move s e (s.afterPlanInitial now p) := by
  unfold afterPlanInitial
  split
  · exact move_quiet hpc rfl rfl ⟨.inl rfl, .inl rfl⟩
  · refine move_quiet hpc rfl (evidence_enterRound _ _ _) (stays_enterRound _ ?_ now 1)
    rfl

theorem move_afterGetSpend (now : Instant) (round : ℤ) (usd : ℚ)
    (hpc : s.pc = .getSpend round) : Move s e (s.afterGetSpend now round usd) := by
  unfold afterGetSpend
  split_ifs
  · exact move_quiet hpc rfl rfl (stays_needsHuman _ _ _)
  · split
    · exact move_quiet hpc rfl rfl ⟨.inl rfl, .inl rfl⟩
    · rename_i u hu
      obtain ⟨b, r, c, d, o, rfl⟩ := applyOverride_frame s now hu
      exact move_quiet hpc rfl rfl ⟨.inr ⟨_, rfl, rfl, rfl⟩, .inr ⟨rfl, rfl⟩⟩

theorem move_afterPlanNext (now : Instant) (round : ℤ) (p : Value)
    (hpc : s.pc = .planNext round) :
    Move s e (enterRound { s with plan := p } now (round + 1)) := by
  have hstays := stays_enterRound { s with plan := p } rfl now (round + 1)
  rw [add_sub_cancel_right] at hstays
  exact move_quiet hpc rfl (evidence_enterRound _ _ _) hstays

theorem move_afterPlanRemediation (r : Remediation)
    (hpc : s.pc = .planRemediation) : Move s e (s.afterPlanRemediation r) := by
  unfold afterPlanRemediation
  dsimp only
  split_ifs
  · exact move_quiet hpc rfl rfl ⟨.inr ⟨_, rfl, rfl, rfl⟩, .inl rfl⟩
  · obtain ⟨hstays, hev⟩ := stays_actionLoop _ rfl _ none
    exact move_quiet hpc rfl hev hstays

theorem move_afterExecute (now : Instant) (action : Action)
    (rest : List Action) (ok : Bool) (exec : Option Uuid)
    (hpc : s.pc = .executePlaybook action rest) :
    Move s e (s.afterExecute now action rest ok exec) := by
  unfold afterExecute
  dsimp only
  split_ifs
  · exact move_quiet hpc rfl rfl (stays_needsHuman _ _ _)
  · exact move_quiet hpc rfl rfl ⟨.inr ⟨_, rfl, rfl, rfl⟩, .inl rfl⟩
  · exact move_quiet hpc rfl rfl ⟨.inl rfl, .inl rfl⟩
  · exact move_quiet hpc rfl rfl ⟨.inl rfl, .inl rfl⟩

theorem move_afterVerify (action : Action) (rest : List Action) (ok : Bool)
    (hpc : s.pc = .verifyFix action rest) : Move s e (s.afterVerify action rest ok) := by
  unfold afterVerify
  split_ifs
  · exact move_quiet hpc rfl rfl (stays_needsHuman _ _ _)
  · obtain ⟨hstays, hev⟩ := stays_actionLoop _ rfl _ none
    exact move_quiet hpc rfl hev hstays

theorem move_of_resumed {s t : State} {now : Instant} {a : Reply} (h : Resumed s now a t) :
    Move s (.reply a) t := by
  cases h with
  | createCase c hpc => exact move_afterCreateCase c hpc
  | planInitial p hpc => exact move_afterPlanInitial now p hpc
  | getSpend usd round hpc => exact move_afterGetSpend now round usd hpc
  | recordDecision g aid d hpc => exact move_afterDecision g aid d hpc
  | planNext p round hpc => exact move_afterPlanNext now round p hpc
  | planRemediation r hpc => exact move_afterPlanRemediation r hpc
  | executePlaybook ok exec action rest hpc => exact move_afterExecute now action rest ok exec hpc
  | verifyFix ok action rest hpc => exact move_afterVerify action rest ok hpc
  -- the two activities that return evidence
  | collect es round spent hpc => exact .collected es round spent rfl hpc rfl
  | runRaw es round report rest hpc => grind [evidence_rawLoop, stays_rawLoop, Move]
  | recordIteration round report hpc =>
    exact move_quiet hpc rfl (evidence_rawLoop _ _ _ _) (stays_rawLoop s rfl round report _)
  | validateRaw ok round report req rest hpc =>
    split_ifs
    · exact move_quiet hpc rfl rfl ⟨.inr ⟨_, rfl, rfl, rfl⟩, .inr ⟨rfl, rfl⟩⟩
    · exact move_quiet hpc rfl (evidence_rawLoop _ _ _ _) (stays_rawLoop s rfl round report rest)
  | analyze r round hpc => exact move_quiet hpc rfl rfl ⟨.inr ⟨_, rfl, rfl, rfl⟩, .inr ⟨rfl, rfl⟩⟩
  | createApproval aid g hpc =>
    exact move_quiet hpc rfl rfl ⟨.inr ⟨_, rfl, rfl, rfl⟩, .inr ⟨rfl, rfl⟩⟩
  | notifyApproval a g aid ha hpc => exact move_quiet hpc rfl rfl ⟨.inl rfl, .inr ⟨rfl, rfl⟩⟩
  -- the rest is behind the rounds already
  | rejectCase reason hpc => exact .quiet (.inr rfl) rfl ⟨.inr ⟨_, rfl, rfl, rfl⟩, .inl rfl⟩
  | closeWithSummary reason hpc => exact .quiet (.inr rfl) rfl ⟨.inl rfl, .inl rfl⟩
  | closeResolved hpc => exact .quiet (.inr rfl) rfl ⟨.inr ⟨_, rfl, rfl, rfl⟩, .inl rfl⟩
  | toNeedsHuman reason hpc => exact .quiet (.inr rfl) rfl ⟨.inr ⟨_, rfl, rfl, rfl⟩, .inl rfl⟩
  | notified a o ha hpc => exact .quiet (.inr rfl) rfl ⟨.inl rfl, .inl rfl⟩
  | raised hpc => exact .quiet (.inr rfl) rfl ⟨.inl rfl, .inl rfl⟩

theorem move_of_step {r r' : Run} {e : Event} (h : runs.step r e = some r') :
    Move r.wf e r'.wf ∨ r'.wf.evidence = r.wf.evidence ∧ r'.wf.history = r.wf.history ∧
      r'.wf.pc = r.wf.pc := by
  obtain ⟨sig, -, -, rfl⟩ | ⟨a, s, rfl, hs, rfl⟩ | ⟨s, rfl, hs, rfl⟩ | ⟨s, rfl, hs, rfl⟩ |
    ⟨t, -, -, rfl⟩ := step_cases h
  · obtain ⟨p, a, b, d, hs, -⟩ := signal_frame r.wf sig
    grind
  · exact .inl (move_of_resumed (resumed_of_resume hs))
  · left
    obtain ⟨n, hpc, -, rfl⟩ | ⟨g, aid, timer, d, hpc, -, -, rfl⟩ := wake_cases hs
    · refine .quiet (.inl (by rw [hpc]; rfl)) (evidence_checkBudget _ _ _) ?_
      rw [hpc]
      exact stays_checkBudget r.wf r.now n
    · exact .quiet (.inl (by rw [hpc]; rfl)) rfl
        ⟨.inr ⟨_, rfl, rfl, rfl⟩, .inr ⟨by rw [hpc]; rfl, rfl⟩⟩
  · left
    obtain ⟨g, aid, timer, hpc, -, -, rfl⟩ | ⟨action, rest, exec, timer, hpc, -, rfl⟩ :=
      timer_cases hs
    · exact .quiet (.inl (by rw [hpc]; rfl)) rfl
        ⟨.inr ⟨_, rfl, rfl, rfl⟩, .inr ⟨by rw [hpc]; rfl, rfl⟩⟩
    · exact .quiet (.inr rfl) rfl ⟨.inr ⟨_, rfl, rfl, rfl⟩, .inl rfl⟩
  · grind

end Rounds

section Invariant

variable {A : Analyst}

/-- Between two analyses only raw commands add evidence, and it bears the number of the round
that was analysed. -/
structure Inv (A : Analyst) (s : State) : Prop where
  agree : AtEach (DeliveredAt A) s.history ↔ AtEach NoRawBefore s.history
  fresh : (s.evidence.map (·.evidenceId)).Nodup
  seen_le : seen s.history ≤ s.evidence.length
  tags : ∀ n, roundOf s.pc = some n → ∀ e ∈ s.evidence.drop (seen s.history), e.round = n
  running : isRunRaw s.pc = true → ∃ c ∈ s.history, isRaw c = true
  raw : s.evidence.drop (seen s.history) ≠ [] → ∃ c ∈ s.history, isRaw c = true
  noRaw : ∀ n, roundOf s.pc = some n → isRunRaw s.pc = false →
    s.evidence.drop (seen s.history) = [] → AtEach NoRawBefore s.history →
    ∀ c ∈ s.history, isRaw c = false

theorem inv_start (A : Analyst) (input : Input) : Inv A (start input) where
  agree := by
    have hother := atEach_other (A := A) (h := [])
      (c := .createCase input.event input.investigationId input.workflowId) rfl
    exact hother.1.trans ((iff_of_true (atEach_nil _) (atEach_nil _)).trans hother.2.symm)
  fresh := nodup_nil
  seen_le := Nat.le_refl 0
  tags n _ e he := absurd he not_mem_nil
  running h := absurd h Bool.false_ne_true
  raw h := absurd rfl h
  noRaw n _ _ _ _ c hc := by
    obtain rfl := mem_singleton.mp hc
    rfl

theorem Stays.same {h : List Call} {round : Option ℤ} {t : State} (ht : Stays h round t) :
    seen t.history = seen h ∧
      (AtEach (DeliveredAt A) t.history ↔ AtEach (DeliveredAt A) h) ∧
      (AtEach NoRawBefore t.history ↔ AtEach NoRawBefore h) ∧
      ∀ c, isRaw c = true → (c ∈ t.history ↔ c ∈ h) := by
  rcases ht.history with hh | ⟨d, hh, hanalyze, hraw⟩
  · grind
  · grind [atEach_other, seen_append]

variable {s t : State}

theorem inv_quiet (hi : Inv A s) (hs : isRunRaw s.pc = false ∨ roundOf t.pc = none)
    (hev : t.evidence = s.evidence) (hstays : Stays s.history (roundOf s.pc) t) : Inv A t := by
  obtain ⟨hseen, hdelivered, hbefore, hmem⟩ := hstays.same (A := A)
  have hround {n : ℤ} (hn : roundOf t.pc = some n) :
      roundOf s.pc = some n ∧ isRunRaw s.pc = false := by
    rcases hstays.round with hnone | ⟨heq, -⟩
    · grind
    · grind
  have hlift : (∃ c ∈ s.history, isRaw c = true) → ∃ c ∈ t.history, isRaw c = true := by
    rintro ⟨c, hc, hraw⟩
    exact ⟨c, (hmem c hraw).mpr hc, hraw⟩
  refine ⟨hdelivered.trans (hi.agree.trans hbefore.symm), ?_, ?_, ?_, ?_, ?_, ?_⟩
  · rw [hev]
    exact hi.fresh
  · rw [hev, hseen]
    exact hi.seen_le
  · intro n hn
    rw [hev, hseen]
    exact hi.tags n (hround hn).1
  · intro hrun
    rcases hstays.round with hnone | ⟨-, hfalse⟩
    · exact absurd hnone (roundOf_of_isRunRaw hrun)
    · grind
  · rw [hev, hseen]
    exact fun hne => hlift (hi.raw hne)
  · intro n hn _ hnil hall c hc
    rw [hev, hseen] at hnil
    have hold := hi.noRaw n (hround hn).1 (hround hn).2 hnil (hbefore.mp hall)
    grind

theorem inv_runRaw {c : Call} (hi : Inv A s) (hev : t.evidence = s.evidence) (hc : isRaw c = true)
    (hh : t.history = s.history ++ [c]) (hround : roundOf t.pc = roundOf s.pc)
    (ht : isRunRaw t.pc = true) : Inv A t := by
  have hanalyze : isAnalyze c = false := by
    cases c <;> first | rfl | cases hc
  obtain ⟨hdelivered, hbefore⟩ := atEach_other (A := A) (h := s.history) hanalyze
  have hseen : seen t.history = seen s.history := by
    rw [hh, seen_append, hanalyze]
    rfl
  have hraw : ∃ d ∈ t.history, isRaw d = true :=
    ⟨c, hh ▸ mem_append_right _ (mem_singleton_self c), hc⟩
  refine ⟨?_, ?_, ?_, ?_, fun _ => hraw, fun _ => hraw, ?_⟩
  · rw [hh]
    exact hdelivered.trans (hi.agree.trans hbefore.symm)
  · rw [hev]
    exact hi.fresh
  · rw [hev, hseen]
    exact hi.seen_le
  · intro n hn
    rw [hev, hseen]
    exact hi.tags n (hround ▸ hn)
  · grind

variable {es : List Workflow.Evidence}

theorem inv_ranRaw {n : ℤ} {report : Report} {rest : List RawCommandRequest} (hi : Inv A s)
    (hs : s.pc = .runRaw n report rest) (hes : ∀ e ∈ es, e.round = n) (hne : es ≠ [])
    (hfresh : ((s.evidence ++ es).map (·.evidenceId)).Nodup) (hev : t.evidence = s.evidence ++ es)
    (hstays : Stays s.history (some n) t) : Inv A t := by
  obtain ⟨hseen, hdelivered, hbefore, hmem⟩ := hstays.same (A := A)
  have hdrop : t.evidence.drop (seen t.history) = s.evidence.drop (seen s.history) ++ es := by
    rw [hev, hseen, drop_append_of_le_length hi.seen_le]
  have hraw : ∃ d ∈ t.history, isRaw d = true := by
    obtain ⟨c, hc, hraw⟩ := hi.running (by rw [hs]; rfl)
    exact ⟨c, (hmem c hraw).mpr hc, hraw⟩
  refine ⟨hdelivered.trans (hi.agree.trans hbefore.symm), hev ▸ hfresh, ?_, ?_, fun _ => hraw,
    fun _ => hraw, ?_⟩
  · rw [hev, hseen, length_append]
    exact Nat.le_add_right_of_le hi.seen_le
  · intro m hm e he
    obtain rfl : n = m := by
      rcases hstays.round with hnone | ⟨heq, -⟩
      · grind
      · grind
    rw [hdrop] at he
    rcases mem_append.mp he with hold | hnew
    · exact hi.tags n (by rw [hs]; rfl) e hold
    · exact hes e hnew
  · simp_all

theorem fullItem_mem_iff {event : AlertEvent} {reports : List Report} {budget : Budget} {n : ℤ}
    {spent : ℚ} {inv : Uuid} {feedback : List String} {ctx : RcaContext}
    (hctx : contextOf A (.analyze event es reports n budget spent inv feedback) = some ctx)
    (hfresh : (es.map (·.evidenceId)).Nodup) {e : Workflow.Evidence} (he : e ∈ es) :
    fullItem e ∈ ctx.latestEvidenceFull ↔ e.round = n := by
  have hlatest : ctx.latestEvidenceFull = (es.filter fun e => e.round = n).map fullItem := by
    rw [← Option.some.inj hctx]
    rfl
  rw [hlatest, mem_map]
  constructor
  · rintro ⟨e', he', heq⟩
    obtain ⟨hmem, hround⟩ := mem_filter.mp he'
    have hid : e'.evidenceId = e.evidenceId := congrArg FullItem.evidenceId heq
    rw [← inj_on_of_nodup_map hfresh hmem he hid]
    simpa using hround
  · grind

theorem inv_collected {s : State} {n : ℤ} {spent : ℚ} (hi : Inv A s) (hs : s.pc = .collect n spent)
    (hes : ∀ e ∈ es, e.round = n) (hfresh : ((s.evidence ++ es).map (·.evidenceId)).Nodup) :
    Inv A (s.afterCollect n spent es) := by
  set c : Call := .analyze s.input.event (s.evidence ++ es) s.reports n s.budget spent
    s.investigationId s.approverFeedback with hc
  have hh : (s.afterCollect n spent es).history = s.history ++ [c] := rfl
  have hround : roundOf s.pc = some (n-1) := by rw [hs]; rfl
  have hrun : isRunRaw s.pc = false := by rw [hs]; rfl
  have hdrop : (s.afterCollect n spent es).evidence.drop
      (seen (s.afterCollect n spent es).history) = [] := by
    rw [hh, seen_append]
    exact drop_length
  have hnew : (s.evidence ++ es).drop (seen s.history) =
      s.evidence.drop (seen s.history) ++ es := drop_append_of_le_length hi.seen_le
  have hmem {e : Workflow.Evidence} (he : e ∈ s.evidence.drop (seen s.history)) :
      e ∈ s.evidence ++ es := mem_append_left _ (mem_of_mem_drop he)
  -- what the raw commands have added bears the number of the round before
  have hdelivered : DeliveredAt A s.history c ↔ s.evidence.drop (seen s.history) = [] := by
    constructor
    · intro hall
      apply eq_nil_iff_forall_not_mem.mpr
      intro e he
      obtain ⟨ctx, hctx⟩ : ∃ ctx, contextOf A c = some ctx := ⟨_, rfl⟩
      have hfull := hall ctx hctx e (by
        change e ∈ (s.evidence ++ es).drop _
        grind)
      have hlatest := (fullItem_mem_iff hctx hfresh (hmem he)).mp hfull
      have hold := hi.tags _ hround e he
      omega
    · intro hnil ctx hctx e he
      change e ∈ (s.evidence ++ es).drop _ at he
      rw [hnew, hnil, nil_append] at he
      exact (fullItem_mem_iff hctx hfresh (mem_append_right _ he)).mpr (hes e he)
  have hbefore : NoRawBefore s.history c ↔ ∀ d ∈ s.history, isRaw d = false :=
    ⟨fun h => h rfl, fun h _ => h⟩
  refine ⟨?_, hfresh, ?_, ?_, ?_, fun hne => absurd hdrop hne, ?_⟩
  · rw [hh, atEach_append, atEach_append, hi.agree, hdelivered, hbefore]
    apply and_congr_right
    intro hall
    constructor
    · exact fun hnil => hi.noRaw _ hround hrun hnil hall
    · intro hnone
      by_contra hne
      obtain ⟨d, hd, hraw⟩ := hi.raw hne
      grind
  · rw [hh, seen_append]
    exact Nat.le_refl _
  · grind
  · intro h
    cases h
  · intro m _ _ _ hall d hd
    rw [hh] at hall hd
    rcases mem_append.mp hd with hd | hd
    · exact hbefore.mp (atEach_append.mp hall).2 d hd
    · obtain rfl := mem_singleton.mp hd
      rfl

theorem inv_step {r r' : Run} {e : Event} (hi : Inv A r.wf) (hp : Produced r e)
    (h : runs.step r e = some r') : Inv A r'.wf := by
  rcases move_of_step h with hmove | ⟨hev, hh, hpc⟩
  · cases hmove with
    | quiet hs hev hstays => exact inv_quiet hi hs hev hstays
    | runRaw c hs hev hc hh hround ht => exact inv_runRaw hi hev hc hh hround ht
    | ranRaw es n report rest he hs hev hstays =>
      subst he
      obtain ⟨-, hraw, hfresh⟩ := hp
      obtain ⟨command, id, ref, exit, data, rfl⟩ := hraw n report rest hs
      refine inv_ranRaw hi hs ?_ (cons_ne_nil _ _) hfresh hev hstays
      simp
    | collected es n spent he hs ht =>
      subst he
      obtain ⟨hcollect, -, hfresh⟩ := hp
      obtain ⟨outputs, rfl⟩ := hcollect n spent hs
      rw [ht]
      apply inv_collected hi hs _ hfresh
      intro e he
      obtain ⟨o, -, rfl⟩ := mem_map.mp he
      rfl
  · obtain ⟨agree, fresh, seen_le, tags, running, raw, noRaw⟩ := hi
    rw [← hh, ← hev, ← hpc] at *
    exact ⟨agree, fresh, seen_le, tags, running, raw, noRaw⟩

/-- When all evidence reaches the analyst in full: if no raw command is run before an analysis. -/
theorem evidence_delivered_iff (A : Analyst) (r : Run) (hr : runs.ReachVia Produced r) :
    AtEach (DeliveredAt A) r.wf.history ↔ AtEach NoRawBefore r.wf.history := by
  have hinv : Inv A r.wf := by
    apply reachVia_invariant runs Produced (fun r => Inv A r.wf) _ _ r hr
    · rintro r ⟨input, hstart⟩
      rw [hstart]
      exact inv_start A input
    · intro r e r' _ hp hi hs
      exact inv_step hi hp hs
  exact hinv.agree

def sampleCase : Case :=
  ⟨1, "presto-1", ⟨some 2, some 5, some 600, []⟩, none, none, none, ⟨none, []⟩, false, none⟩

def sampleRequest : RawCommandRequest := ⟨"uptime", "", ""⟩

def sampleReport (requests : List RawCommandRequest) : Report :=
  ⟨.needMoreData, 0, [], requests, none, none, []⟩

def sampleAnalyst : Analyst := ⟨fun _ => 0, ⟨none, none, none, []⟩⟩

def isEvidence : Event → Bool
  | .reply (.evidence _) => true
  | _ => false

theorem reachVia_plain {r r' : Run} (hr : runs.ReachVia Produced r) (es : List Event)
    (hes : es.any isEvidence = false) (h : runs.run r es = some r') :
    runs.ReachVia Produced r' := by
  apply run_reachVia runs Produced es r r' hr _ h
  intro e he q
  have hplain : isEvidence e = false := by
    have hnot := any_eq_false.mp hes e he
    simpa using hnot
  unfold Produced
  split
  · cases hplain
  · trivial

def sampleOutput (id summary : String) : ToolOutput :=
  ⟨id, "presto.query_list", .obj [], summary, .arr [], "evidence/1/" ++ id ++ ".json", 0, false,
    "probe"⟩

theorem produced_collect {r : Run} {n : ℤ} {spent : ℚ} (outputs : List ToolOutput)
    (hpc : r.wf.pc = .collect n spent)
    (hev : ((r.wf.evidence ++ collect n outputs).map (·.evidenceId)).Nodup) :
    Produced r (.reply (.evidence (collect n outputs))) := by
  refine ⟨?_, ?_, hev⟩
  · intro n' spent' h
    cases hpc.symm.trans h
    exact ⟨outputs, rfl⟩
  · intro n' report rest h
    cases hpc.symm.trans h

theorem noRawBefore_of_any {h : List Call} (hall : h.any isRaw = false) :
    AtEach NoRawBefore h := by
  intro pre c post heq _ d hd
  grind

/-- Two rounds without a raw command, each with the output of a tool. -/
theorem evidence_delivered_two_rounds : ∃ r, runs.ReachVia Produced r ∧
    r.wf.history.countP isAnalyze = 2 ∧ r.wf.evidence.map (·.evidenceId) = ["e1", "e2"] ∧
    AtEach (DeliveredAt sampleAnalyst) r.wf.history := by
  have h0 : runs.ReachVia Produced sampleStart := .init ⟨sampleInput, rfl⟩
  have h1 := reachVia_plain h0 [.reply (.case sampleCase), .reply (.plan .null), .reply (.spend 0)]
    rfl rfl
  have h2 : runs.ReachVia Produced _ :=
    .step h1 (produced_collect [sampleOutput "e1" "14 queued"] rfl (by decide)) rfl
  have h3 := reachVia_plain h2 [.reply (.report (sampleReport [])), .reply .done,
    .reply (.plan .null), .reply (.spend 0)] rfl rfl
  have h4 : runs.ReachVia Produced _ :=
    .step h3 (produced_collect [sampleOutput "e2" "none queued"] rfl (by decide)) rfl
  exact ⟨_, h4, rfl, rfl, (evidence_delivered_iff sampleAnalyst _ h4).mpr (noRawBefore_of_any rfl)⟩

/-- The output of a command that was approved in the first round is not in the context of the
second. -/
theorem raw_output_not_delivered : ∃ r, runs.ReachVia Produced r ∧
    ¬AtEach (DeliveredAt sampleAnalyst) r.wf.history ∧
    ∃ pre c ctx e, r.wf.history = pre ++ [c] ∧ contextOf sampleAnalyst c = some ctx ∧
      (evidenceOf c).drop (seen pre) = [e] ∧ e.payload = .str "up 3 days" ∧
      ctx.latestEvidenceFull = [] := by
  have h0 : runs.ReachVia Produced sampleStart := .init ⟨sampleInput, rfl⟩
  have h1 := reachVia_plain h0 [.reply (.case sampleCase), .reply (.plan .null), .reply (.spend 0)]
    rfl rfl
  have h2 : runs.ReachVia Produced _ := .step h1 (produced_collect [] rfl nodup_nil) rfl
  have h3 := reachVia_plain h2 [.reply (.report (sampleReport [sampleRequest])), .reply .done,
    .reply (.validation true), .reply (.approval 9), .reply .done,
    .signal (.approvalDecided ⟨some 9, some .approved, none, none⟩), .wake, .reply .done] rfl rfl
  have h4 : runs.ReachVia Produced _ := .step h3 (e := .reply (.evidence
    (runRawCommand 1 "uptime" "e1" "evidence/1/e1.json" 0 (.str "up 3 days"))))
    ⟨nofun, fun n report rest h => (by cases h; exact ⟨_, _, _, _, _, rfl⟩),
      nodup_singleton _⟩ rfl
  have h5 := reachVia_plain h4 [.reply (.plan .null), .reply (.spend 0)] rfl rfl
  have h6 : runs.ReachVia Produced _ := .step h5 (produced_collect [] rfl (nodup_singleton _)) rfl
  refine ⟨_, h6, ?_, _, _, _, _, rfl, rfl, rfl, rfl, rfl⟩
  intro hall
  have hfull := (atEach_append.mp hall).2 _ rfl _ (mem_singleton_self _)
  cases hfull

end Invariant

end DbAgent.Evidence
