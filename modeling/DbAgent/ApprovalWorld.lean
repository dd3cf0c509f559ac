import DbAgent.ApprovalSingleDecider
import DbAgent.WorkflowProgress

/-! One run of the workflow together with the approvals table, the dashboard
and the attempts of the approval activities. -/
namespace DbAgent.ApprovalWorld

open Transition Approval Workflow State

/-- The run, the clock and the approvals table, each row with its transactions.
`created` says for a row of this run which scheduled `create_approval` has
inserted it, by its position in the history; `grants` lists the writes the run
has started, each with the approval whose gate it came through. -/
structure World where
  wf : State
  now : Instant
  rows : Uuid → Option RowState
  created : Uuid → Option ℕ
  grants : List (Uuid × Call)

open World

inductive Event where
  | control (sig : Signal)
  | deliver (aid : Uuid) (g : DecisionSignal)
  | createAttempt (n : ℕ) (aid : Uuid)
  | createReply (aid : Uuid)
  | row (aid : Uuid) (e : RowEvent)
  | recordReply (tx : ℕ)
  | reply (r : Reply)
  | wake
  | timer
  | tick (t : Instant)

/-- The payloads of the scheduled `record_approval_decision` activities. -/
def recordsOf (h : List Call) : List RecordPayload :=
  h.filterMap fun
    | .recordApprovalDecision p => some p
    | _ => none

def scheduledFor (h : List Call) (aid : Uuid) : RowEvent → Bool
  | .select _ p _ => decide (p ∈ recordsOf h ∧ p.approvalId = aid)
  | _ => true

/-- The signal of `post_decision` as the workflow sees it; it carries no
`decided_by`. -/
def decisionDict (g : DecisionSignal) : DecisionDict :=
  ⟨some g.approvalId, some g.decision, g.comment, none⟩

/-- The writes among the activities scheduled since `old`. -/
def newGrants (aid : Uuid) (old new : List Call) : List (Uuid × Call) :=
  ((new.drop old.length).filter Call.isWrite).map (fun c => (aid, c))

def World.setRow (w : World) (aid : Uuid) (st : RowState) : World :=
  { w with rows := Function.update w.rows aid (some st) }

/-- The completion of `create_approval` carries the id of a row that one of
the attempts of this very activity has inserted. -/
def World.createReply (w : World) (aid : Uuid) : Option World :=
  match w.wf.pc with
  | .createApproval _ =>
    if w.created aid = some (w.wf.history.length - 1) then
      (w.wf.resume w.now (.approval aid)).map fun wf => { w with wf := wf }
    else none
  | _ => none

/-- The completion of `record_approval_decision` follows an attempt that has
committed, and makes `_request_approval` return. -/
def World.recordReply (w : World) (tx : ℕ) : Option World :=
  match w.wf.pc with
  | .recordDecision _ aid _ =>
    match w.rows aid with
    | some st =>
      match st.work tx with
      | .finished _ _ =>
        (w.wf.resume w.now .done).map fun wf => { w with
          wf := wf
          grants := w.grants ++ newGrants aid w.wf.history wf.history }
      | _ => none
    | none => none
  | _ => none

def World.reply (w : World) (r : Reply) : Option World :=
  match w.wf.pc, r with
  | .createApproval _, .approval _ => none
  | .recordDecision _ _ _, .done => none
  | _, r => (w.wf.resume w.now r).map fun wf => { w with wf := wf }

def World.step (w : World) : Event → Option World
  | .control sig =>
    match sig with
    | .approvalDecided _ => none
    | sig => if w.wf.closed then none else some { w with wf := w.wf.signal sig }
  | .deliver aid g =>
    match w.rows aid with
    | some st =>
      if w.wf.closed = false ∧ g ∈ st.signals then
        some { w with wf := w.wf.signal (.approvalDecided (decisionDict g)) }
      else none
    | none => none
  | .createAttempt n aid =>
    match w.wf.history[n]?, w.rows aid with
    | some (.createApproval inv kind subject), none =>
      some { w.setRow aid (.created ⟨aid, inv, kind, subject, none, none, none, none, w.now⟩) with
        created := Function.update w.created aid (some n) }
    | _, _ => none
  | .createReply aid => w.createReply aid
  | .row aid e =>
    match w.rows aid with
    | some st =>
      if scheduledFor w.wf.history aid e then (st.step e).map (w.setRow aid) else none
    | none => none
  | .recordReply tx => w.recordReply tx
  | .reply r => w.reply r
  | .wake => (w.wf.wake w.now).map fun wf => { w with wf := wf }
  | .timer => (w.wf.timer w.now).map fun wf => { w with wf := wf }
  | .tick t => if w.now ≤ t then some { w with now := t } else none

def system (input : Input) : System World Event where
  init w := w.wf = start input ∧ w.created = (fun _ => none) ∧ w.grants = [] ∧
    ∀ aid st, w.rows aid = some st →
      ∃ r0, r0.approvalId = aid ∧ (rowSystem r0).Reachable st
  step w e := w.step e

/-- Everything a step can do. The stretches of code outside `_request_approval`
are one case, whatever has set them going. -/
inductive WorldStep (w : World) : Event → World → Prop
  | control (sig : Signal) (wf : State) (hpc : wf.pc = w.wf.pc) (hh : wf.history = w.wf.history)
      (hd : wf.approvalDecision = w.wf.approvalDecision) :
      WorldStep w (.control sig) { w with wf := wf }
  | deliver (aid : Uuid) (st : RowState) (g : DecisionSignal) (wf : State)
      (hrow : w.rows aid = some st) (hg : g ∈ st.signals)
      (hpc : wf.pc = w.wf.pc) (hh : wf.history = w.wf.history)
      (hd : wf.approvalDecision = w.wf.approvalDecision ∨
        wf.approvalDecision = some (decisionDict g)) :
      WorldStep w (.deliver aid g) { w with wf := wf }
  | createAttempt (n : ℕ) (aid inv : Uuid) (kind : ApprovalKind) (subject : Subject)
      (hcall : w.wf.history[n]? = some (.createApproval inv kind subject))
      (hfree : w.rows aid = none) :
      WorldStep w (.createAttempt n aid)
        { w.setRow aid (.created ⟨aid, inv, kind, subject, none, none, none, none, w.now⟩) with
          created := Function.update w.created aid (some n) }
  | createReply (aid : Uuid) (g : Gate) (hpc : w.wf.pc = .createApproval g)
      (hc : w.created aid = some (w.wf.history.length - 1)) :
      WorldStep w (.createReply aid) { w with wf := w.wf.afterCreateApproval g aid }
  | row (aid : Uuid) (st st' : RowState) (e : RowEvent) (hrow : w.rows aid = some st)
      (hsched : scheduledFor w.wf.history aid e = true) (hstep : st.step e = some st') :
      WorldStep w (.row aid e) (w.setRow aid st')
  | recordReply (tx : ℕ) (g : Gate) (aid : Uuid) (d : DecisionDict) (st : RowState)
      (p : RecordPayload) (loaded : ApprovalRow) (hpc : w.wf.pc = .recordDecision g aid d)
      (hrow : w.rows aid = some st) (hwork : st.work tx = .finished p loaded) :
      WorldStep w (.recordReply tx) { w with
        wf := w.wf.afterDecision g d
        grants := w.grants ++ newGrants aid w.wf.history (w.wf.afterDecision g d).history }
  | outside (e : Event) (wf : State)
      (ho : Outside w.wf.history w.wf.approvalDecision wf) :
      WorldStep w e { w with wf := wf }
  | announced (r : Reply) (g : Gate) (aid : Uuid) (hpc : w.wf.pc = .notifyApproval g aid) :
      WorldStep w (.reply r)
        { w with wf := { w.wf with pc := .waitDecision g aid (w.now+g.timeout) } }
  | decided (g : Gate) (aid : Uuid) (t : Instant) (d : DecisionDict)
      (hpc : w.wf.pc = .waitDecision g aid t) (hd : w.wf.approvalDecision = some d)
      (hid : d.approvalId = some aid) :
      WorldStep w .wake { w with wf := w.wf.recordDecision g aid d false }
  | expired (g : Gate) (aid : Uuid) (t : Instant) (hpc : w.wf.pc = .waitDecision g aid t) :
      WorldStep w .timer { w with wf := w.wf.recordDecision g aid (timeoutDecision aid) true }
  | tick (t : Instant) : WorldStep w (.tick t) { w with now := t }

theorem signal_frame (s : State) (sig : Signal) :
    (s.signal sig).pc = s.pc ∧ (s.signal sig).history = s.history := by
  cases sig with
  | resume => exact ⟨rfl, rfl⟩
  | approvalDecided d => grind [signal]
  | _ =>
    unfold signal
    grind

theorem signal_decision (s : State) (d : DecisionDict) :
    (s.signal (.approvalDecided d)).approvalDecision = s.approvalDecision ∨
      (s.signal (.approvalDecided d)).approvalDecision = some d := by grind [signal]

theorem control_decision (s : State) (sig : Signal) (h : ∀ d, sig ≠ .approvalDecided d) :
    (s.signal sig).approvalDecision = s.approvalDecision := by
  cases sig with
  | resume => rfl
  | approvalDecided d => exact absurd rfl (h d)
  | _ =>
    unfold signal
    dsimp only
    split_ifs <;> rfl

theorem wake_gate (s t : State) (now : Instant) (hg : s.pc.inGate = true)
    (h : s.wake now = some t) :
    ∃ g aid u d, s.pc = .waitDecision g aid u ∧ s.approvalDecision = some d ∧
      d.approvalId = some aid ∧ t = s.recordDecision g aid d false := by
  unfold wake at h
  split at h
  · rename_i hpc
    rw [hpc] at hg
    cases hg
  · grind
  · cases h

theorem timer_gate (s t : State) (now : Instant) (hg : s.pc.inGate = true)
    (h : s.timer now = some t) :
    ∃ g aid u, s.pc = .waitDecision g aid u ∧
      t = s.recordDecision g aid (timeoutDecision aid) true := by
  unfold timer at h
  split at h
  · grind
  · rename_i hpc
    rw [hpc] at hg
    cases hg
  · cases h

/-- Inside `_request_approval` a completion is the success of one of its own
two activities, the end of the notification, or a failure that ends the run. -/
theorem resume_gate (s t : State) (now : Instant) (r : Reply) (hg : s.pc.inGate = true)
    (h : s.resume now r = some t) :
    (∃ g aid, s.pc = .createApproval g ∧ r = .approval aid) ∨
    (∃ g aid d, s.pc = .recordDecision g aid d ∧ r = .done) ∨
    (∃ g aid, s.pc = .notifyApproval g aid ∧
      t = { s with pc := .waitDecision g aid (now+g.timeout) }) ∨
    t = { s with pc := .raised } := by
  cases hpc : s.pc with
  | createApproval g =>
    cases r with
    | approval aid => exact Or.inl ⟨g, aid, rfl, rfl⟩
    | error => grind [resume, fail]
    | _ => simp [resume, afterNotify, hpc] at h
  | recordDecision g aid d =>
    cases r with
    | done => simp
    | error => grind [resume, fail]
    | _ => simp [resume, hpc] at h
  | notifyApproval g aid =>
    cases r with
    | done => grind [resume, afterNotify]
    | error => grind [resume, fail, afterNotify]
    | _ => simp [resume, hpc] at h
  | waitDecision g aid u => cases r <;> simp [resume, fail, afterNotify, hpc] at h
  | _ =>
    rw [hpc] at hg
    cases hg

theorem reply_eq (w w' : World) (r : Reply) (h : w.reply r = some w') :
    (∀ g aid, w.wf.pc = .createApproval g → r ≠ .approval aid) ∧
    (∀ g aid d, w.wf.pc = .recordDecision g aid d → r ≠ .done) ∧
    ∃ wf, w.wf.resume w.now r = some wf ∧ w' = { w with wf := wf } := by
  unfold reply at h
  grind [Option.map_eq_some_iff]

theorem world_step_sound (w w' : World) (e : Event) (h : w.step e = some w') :
    WorldStep w e w' := by
  cases e with
  | control sig =>
    simp only [step] at h
    grind [signal_frame, control, control_decision, WorldStep]
  | deliver aid g => grind [step, WorldStep, signal_frame, signal_decision]
  | createReply aid => grind [step, WorldStep, createReply, resume]
  | row aid e => grind [step, Option.map_eq_some_iff, WorldStep]
  | recordReply tx =>
    simp only [step, recordReply] at h
    split at h
    · grind [resume, WorldStep]
    · cases h
  | reply r =>
    obtain ⟨hc, hd, wf, hwf, rfl⟩ := reply_eq w w' r h
    cases hg : w.wf.pc.inGate with
    | false => exact .outside _ wf (outside_resume w.wf w.now r hg hwf)
    | true =>
      obtain ⟨g, aid, hpc, hr⟩ | ⟨g, aid, d, hpc, hr⟩ | ⟨g, aid, hpc, rfl⟩ | rfl :=
        resume_gate w.wf wf w.now r hg hwf
      · exact absurd hr (hc g aid hpc)
      · exact absurd hr (hd g aid d hpc)
      · exact .announced r g aid hpc
      · exact .outside _ _ (.quiet rfl rfl rfl)
  | wake => grind [step, Option.map_eq_some_iff, outside_wake, wake_gate, WorldStep]
  | timer => grind [step, Option.map_eq_some_iff, outside_timer, timer_gate, WorldStep]
  | _ => grind [step, WorldStep]

end DbAgent.ApprovalWorld
