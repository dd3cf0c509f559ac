import DbAgent.TransitionSystem
import DbAgent.GroupCommit

/-! `IngestService.ingest` as a whole: the merge group, the transaction behind a
miss, and the start of the workflow, which comes after the commit. -/
namespace DbAgent.Ingest

open Transition List

/-- How `start_investigation` ends, if a starter is attached. -/
inductive Start where
  | absent | succeeds | fails
  deriving DecidableEq, Repr

/-- A call of `ingest` with a normalized event, and what happens around it. -/
structure Call where
  event : AlertEvent
  group : Conditions
  tie : ℕ
  clock : Clock
  fresh : Uuid
  start : Start

/-- What leaves `ingest` as an exception. -/
inductive Raised where
  | merge (e : Failure)
  | wrongLength (n : ℕ)
  | transaction (e : IngestError)
  | start
  deriving DecidableEq, Repr

inductive Reply where
  | refused (r : Refusal)
  | answered (r : Response)
  | raised (e : Raised)
  deriving DecidableEq, Repr

/-- What a call leaves behind: the case it has committed, and the case whose
workflow it has started. -/
structure CallResult where
  store : Store
  reply : Reply
  opened : Option Uuid
  started : Option Uuid

def Conditions.seeing (c : Conditions) (st : Store) : Conditions :=
  { c with attempt := fun k => { c.attempt k with snapshot := st } }

variable (I : Py.Interpreter) (S : Settings)

/-- `ingest` behind a miss. The open is durable when the workflow is started,
and nothing takes it back if that fails. -/
def ingestMiss (st : Store) (call : Call) : CallResult :=
  match ingestTxn I S st call.tie call.clock call.fresh call.event with
  | .error e => ⟨st, .raised (.transaction e), none, none⟩
  | .ok (.opened inv, st') =>
    match call.start with
    | .absent => ⟨st', .answered (.opened inv), some inv, none⟩
    | .succeeds => ⟨st', .answered (.opened inv), some inv, some inv⟩
    | .fails => ⟨st', .raised .start, some inv, none⟩
  | .ok (r, st') => ⟨st', .answered r, none, none⟩

/-- `ingest`, with its event alone in its group. -/
def ingest (st : Store) (call : Call) : CallResult :=
  match precheck S call.event with
  | some refusal => ⟨st, .refused refusal, none, none⟩
  | none =>
    let group := executeMergeBatch S.correlationWindowSeconds (call.group.seeing st) [call.event]
    let st := overlayAll st group.durable
    match group.answer with
    | .error e => ⟨st, .raised (.merge e), none, none⟩
    | .ok [some (.hit inv)] => ⟨st, .answered (.merged inv), none, none⟩
    | .ok [some (.failed e)] => ⟨st, .raised (.merge e), none, none⟩
    | .ok [_] => ingestMiss I S st call
    | .ok outcomes => ⟨st, .raised (.wrongLength outcomes.length), none, none⟩

def CallResult.unstarted (r : CallResult) : Option Uuid :=
  if r.started = none then r.opened else none

structure Service where
  store : Store
  started : List Uuid
  unstarted : List Uuid

inductive ServiceEvent where
  | ingest (call : Call)
  | others (platforms : String → Option Platform) (investigations : List InvestigationRow)

def Service.step (s : Service) : ServiceEvent → Option Service
  | .ingest call =>
    let r := Ingest.ingest I S s.store call
    some ⟨r.store, s.started ++ r.started.toList, s.unstarted ++ r.unstarted.toList⟩
  | .others platforms investigations =>
    some { s with store := { s.store with
      platforms := platforms
      investigations := investigations } }

def Store.Attached (st : Store) (inv : Uuid) : Prop :=
  ∃ r ∈ st.events, r.investigationId = some inv

/-- Sequences of calls that begin with tables in which every case that has an
alert was started. -/
def service : System Service ServiceEvent where
  init := fun s => ∀ inv, s.store.Attached inv → inv ∈ s.started
  step := Service.step I S

section Calls

theorem executeCandidates_single (window : ℤ) (c : Conditions) (event : AlertEvent)
    (s : BatchState) (hs : s.fatal = none) :
    executeCandidates window c 0 [event] s = executeCandidate window (c.attempt 0) 0 event s := by
  simp only [executeCandidates, hs, Option.isSome_none, Bool.false_eq_true, if_false]
  grind

/-- A group of one that answers a hit has made the rows of its statement
durable; any other leaves the tables as they were. -/
theorem executeMergeBatch_single (window : ℤ) (c : Conditions) (event : AlertEvent) :
    ((executeMergeBatch window c [event]).durable = [] ∧
      ∀ inv, (executeMergeBatch window c [event]).answer ≠ .ok [some (.hit inv)]) ∨
    ∃ res inv, mergeExistingEventWithAudit (c.attempt 0).snapshot (c.attempt 0).tie event window
        (c.attempt 0).now = .ok res ∧ res.value = some inv ∧
      (executeMergeBatch window c [event]).durable = [(0, res.writes)] ∧
      (executeMergeBatch window c [event]).answer = .ok [some (.hit inv)] := by
  unfold executeMergeBatch
  rw [executeCandidates_single _ _ _ _ rfl]
  cases hloop : executeCandidate window (c.attempt 0) 0 event ⟨.start, [], none⟩ with
  | error e => exact .inl ⟨rfl, fun _ h => by cases h⟩
  | ok s =>
    dsimp only
    unfold finishMergeBatch
    rcases executeCandidate_ok hloop with
      ⟨e, -, hout, -, -⟩ | ⟨res, hrun, hout, hfatal, hrows⟩
    · -- the member keeps its own exception, and no hit asks for a commit
      rw [hout]
      cases s.fatal with
      | some e' => exact .inl ⟨rfl, fun _ h => by cases h⟩
      | none => cases c.rollbackFails <;> exact .inl ⟨rfl, fun _ h => by cases h⟩
    · have hres := runStatement_ok _ _ hrun
      rw [hout, hfatal, outcomeOf]
      cases hv : res.value with
      | none => cases c.rollbackFails <;> exact .inl ⟨rfl, fun _ h => by cases h⟩
      | some inv =>
        cases c.commitFails with
        | some e => exact .inl ⟨rfl, fun _ h => by cases h⟩
        | none => exact .inr ⟨res, inv, hres, hv, hrows, rfl⟩

theorem attached_overlay (st : Store) (w : Writes) (inv : Uuid) :
    (st.overlay w).Attached inv ↔
      st.Attached inv ∨ ∃ r ∈ w.events, r.investigationId = some inv := by
  simp only [Store.Attached, Store.overlay, mem_append, or_and_right, exists_or]

def OpenCase (st : Store) (platformKey fingerprint : String) (inv : Uuid) : Prop :=
  ∃ start row, Correlates st platformKey fingerprint start row ∧ row.2.investigationId = inv

theorem attached_of_openCase (st : Store) (platformKey fingerprint : String) (inv : Uuid)
    (h : OpenCase st platformKey fingerprint inv) : st.Attached inv := by
  obtain ⟨start, row, hcorr, rfl⟩ := h
  exact ⟨row.1, hcorr.event_mem, hcorr.attached.2.2⟩

/-- What a call does to the attachments: it merges into an open case of the
slot, and the only case that gets its first alert is the one it opens. -/
structure Attaches (st : Store) (event : AlertEvent) (r : CallResult) : Prop where
  merged : ∀ inv, r.reply = .answered (.merged inv) →
    OpenCase st event.platformKey event.fingerprint inv
  attached : ∀ inv, r.store.Attached inv → st.Attached inv ∨ r.opened = some inv
  started : r.started = none ∨ r.started = r.opened

theorem attaches_same (st : Store) (event : AlertEvent) (reply : Reply)
    (h : ∀ inv, reply ≠ .answered (.merged inv)) :
    Attaches st event ⟨st, reply, none, none⟩ :=
  ⟨fun inv hm => absurd hm (h inv), fun _ ha => .inl ha, .inl rfl⟩

theorem ingestTxn_ok (st st' : Store) (tie : ℕ) (clock : Clock) (fresh : Uuid)
    (event : AlertEvent) (r : Response)
    (h : ingestTxn I S st tie clock fresh event = .ok (r, st')) :
    (∃ reason, r = .rejected reason ∧ st' = st.overlay (rejectWrites event reason clock)) ∨
    (∃ inv, r = .merged inv ∧ OpenCase st event.platformKey event.fingerprint inv ∧
      st' = st.overlay (mergeWrites event inv clock)) ∨
    (r = .opened fresh ∧ ∃ budget, st' = st.overlay (openWrites event fresh budget clock)) := by
  have hcommit : ∀ (q : Response) (w : Writes), commitWrites st q w = .ok (r, st') →
      r = q ∧ st' = st.overlay w := by
    intro q w hw
    unfold commitWrites at hw
    split at hw
    · cases hw
    · next st'' hst =>
      cases hw
      exact ⟨rfl, commit_ok st _ w hst⟩
  unfold ingestTxn at h
  split at h
  · cases h
  · grind
  · next a _ =>
    split at h
    · cases h
    · next q w hd =>
      obtain ⟨rfl, hst⟩ := hcommit _ _ h
      rcases decideUnderLock_ok _ _ _ _ _ _ _ _ _ hd with
        ⟨row, hnew, hq, rfl⟩ | ⟨hq, ⟨budget, rfl⟩, -⟩
      · exact .inr (.inl ⟨_, hq, ⟨_, row, hnew.1, rfl⟩, hst⟩)
      · exact .inr (.inr ⟨hq, budget, hst⟩)

theorem attached_overlay_single (st : Store) (w : Writes) (row : EventRow) (inv : Uuid)
    (hw : w.events = [row]) (h : (st.overlay w).Attached inv) :
    st.Attached inv ∨ row.investigationId = some inv := by
  grind [attached_overlay, mem_singleton]

theorem attaches_ingestMiss (st : Store) (call : Call) :
    Attaches st call.event (ingestMiss I S st call) := by
  unfold ingestMiss
  cases h : ingestTxn I S st call.tie call.clock call.fresh call.event with
  | error e => exact attaches_same st _ _ (fun _ hm => (nomatch hm))
  | ok p =>
    obtain ⟨r, st'⟩ := p
    rcases ingestTxn_ok I S st st' _ _ _ _ r h with
      ⟨reason, rfl, rfl⟩ | ⟨inv, rfl, hopen, rfl⟩ | ⟨rfl, budget, rfl⟩
    · refine ⟨fun _ hm => (nomatch hm), ?_, .inl rfl⟩
      intro inv' hinv
      rcases attached_overlay_single _ _ _ _ rfl hinv with hold | hnew
      · exact .inl hold
      · cases hnew
    · refine ⟨?_, ?_, .inl rfl⟩
      · grind
      · intro inv' hinv
        rcases attached_overlay_single _ _ _ _ rfl hinv with hold | hnew
        · exact .inl hold
        · cases hnew
          exact .inl (attached_of_openCase _ _ _ _ hopen)
    · have hfresh : ∀ inv', (st.overlay (openWrites call.event call.fresh budget
          call.clock)).Attached inv' → st.Attached inv' ∨ some call.fresh = some inv' :=
        fun inv' hinv => attached_overlay_single _ _ _ _ rfl hinv
      dsimp only
      cases call.start with
      | absent => exact ⟨fun _ hm => (nomatch hm), hfresh, .inl rfl⟩
      | succeeds => exact ⟨fun _ hm => (nomatch hm), hfresh, .inr rfl⟩
      | fails => exact ⟨fun _ hm => (nomatch hm), hfresh, .inl rfl⟩

theorem attaches_hit (st : Store) (event : AlertEvent) (tie : ℕ) (window : ℤ) (t : Instant)
    (res : StatementResult) (inv : Uuid)
    (h : mergeExistingEventWithAudit st tie event window t = .ok res)
    (hv : res.value = some inv) :
    Attaches st event ⟨st.overlay res.writes, .answered (.merged inv), none, none⟩ := by
  rcases mergeExistingEventWithAudit_ok _ _ _ _ _ _ h with
    ⟨hnone, -⟩ | ⟨_, row, -, hnew, hv', hw, -⟩
  · cases hnone.symm.trans hv
  · obtain rfl := Option.some.inj (hv'.symm.trans hv)
    have hopen : OpenCase st event.platformKey event.fingerprint row.2.investigationId :=
      ⟨_, row, hnew.1, rfl⟩
    refine ⟨?_, ?_, .inl rfl⟩
    · grind
    · intro inv' hinv
      rcases attached_overlay_single st res.writes _ inv' (by rw [hw]; rfl) hinv with hold | hrow
      · exact .inl hold
      · cases hrow
        exact .inl (attached_of_openCase _ _ _ _ hopen)

theorem attaches_ingest (st : Store) (call : Call) :
    Attaches st call.event (ingest I S st call) := by
  unfold ingest
  split
  · exact attaches_same st _ _ (fun _ hm => (nomatch hm))
  · rcases executeMergeBatch_single S.correlationWindowSeconds (call.group.seeing st) call.event
      with ⟨hdur, hno⟩ | ⟨res, inv, hres, hv, hdur, hans⟩
    · -- without a hit the rest of the call sees the tables as they were
      dsimp only
      rw [hdur]
      split
      · exact attaches_same st _ _ (fun _ hm => (nomatch hm))
      · next inv hans => exact absurd hans (hno inv)
      · exact attaches_same st _ _ (fun _ hm => (nomatch hm))
      · exact attaches_ingestMiss I S st call
      · exact attaches_same st _ _ (fun _ hm => (nomatch hm))
    · dsimp only
      rw [hdur, hans]
      exact attaches_hit st call.event _ _ _ res inv hres hv

end Calls

section Runs

/-- Every case that has an alert was started, or a call has opened it and
failed to start it. -/
theorem started_of_attached (s : Service) (hs : (service I S).Reachable s) (inv : Uuid)
    (hinv : s.store.Attached inv) : inv ∈ s.started ∨ inv ∈ s.unstarted := by
  revert inv
  apply reachable_invariant (service I S)
    (fun s => ∀ inv, s.store.Attached inv → inv ∈ s.started ∨ inv ∈ s.unstarted)
    (fun _ h inv hinv => .inl (h inv hinv)) _ s hs
  intro s e t ih hstep inv hinv
  cases e with
  | ingest call =>
    obtain rfl := Option.some.inj hstep
    dsimp only at hinv ⊢
    rw [mem_append, mem_append]
    have hcall := attaches_ingest I S s.store call
    rcases hcall.attached inv hinv with hold | hopen
    · grind
    · -- the case is new, and the call knows how its start went
      rcases hcall.started with hnone | hsome
      · right
        right
        rw [CallResult.unstarted, if_pos hnone, hopen]
        exact mem_singleton.mpr rfl
      · grind
  | others platforms investigations =>
    obtain rfl := Option.some.inj hstep
    exact ih inv hinv

/-- In every sequence of calls, whichever starts fail: an alert that is answered
as merged was merged into an open case of its slot, and the workflow of that
case had been started before, unless the call that opened it did not start it. -/
theorem merged_into_open_case (s : Service) (hs : (service I S).Reachable s) (call : Call)
    (inv : Uuid) (h : (ingest I S s.store call).reply = .answered (.merged inv)) :
    OpenCase s.store call.event.platformKey call.event.fingerprint inv ∧
      (inv ∉ s.unstarted → inv ∈ s.started) := by
  have hopen := (attaches_ingest I S s.store call).merged inv h
  grind [started_of_attached, attached_of_openCase]

end Runs

section Sample

def sampleCall (id : Uuid) (t : Instant) (fresh : Uuid) (start : Start) : Call where
  event := sampleAlert id
  group := ⟨fun _ => ⟨sampleStore, 0, t, none, none, .recovered, none⟩, none, none⟩
  tie := 0
  clock := .still t
  fresh := fresh
  start := start

theorem service_sampleStore :
    (service sampleInterpreter sampleSettings).Reachable ⟨sampleStore, [], []⟩ := by
  apply System.ReachVia.init
  rintro inv ⟨r, hr, -⟩
  cases hr

theorem merged_into_open_case_sampleCall :
    ∃ s : Service, (service sampleInterpreter sampleSettings).Reachable s ∧
      (ingest sampleInterpreter sampleSettings s.store
        (sampleCall 2 5060000000 10 .succeeds)).reply = .answered (.merged 9) ∧
      OpenCase s.store "presto-us" "f1" 9 ∧ 9 ∈ s.started := by
  have hs := run_reachable _ [.ingest (sampleCall 1 5000000000 9 .succeeds)] _ _
    service_sampleStore rfl
  obtain ⟨hopen, hstarted⟩ := merged_into_open_case sampleInterpreter sampleSettings _ hs
    (sampleCall 2 5060000000 10 .succeeds) 9 rfl
  exact ⟨_, hs, rfl, hopen, hstarted not_mem_nil⟩

/-- The workflow of case 9 could not be started, and the next alert of the slot
is merged into it. -/
theorem merged_into_dead_case :
    ∃ s : Service, (service sampleInterpreter sampleSettings).Reachable s ∧
      (ingest sampleInterpreter sampleSettings s.store
        (sampleCall 2 5060000000 10 .succeeds)).reply = .answered (.merged 9) ∧
      9 ∉ s.started := by
  have hs := run_reachable _ [.ingest (sampleCall 1 5000000000 9 .fails)] _ _
    service_sampleStore rfl
  exact ⟨_, hs, rfl, not_mem_nil⟩

end Sample

end DbAgent.Ingest
