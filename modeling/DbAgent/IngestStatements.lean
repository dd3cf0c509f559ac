import Mathlib.Data.Int.ConditionallyCompleteOrder
import DbAgent.IngestStore

/-! What each statement of ingest returns and inserts. -/
namespace DbAgent.Ingest

def EventRow.AttachedTo (r : EventRow) (platformKey fingerprint : String) (inv : Uuid) : Prop :=
  r.platformKey = some platformKey ∧ r.fingerprint = fingerprint ∧ r.investigationId = some inv

structure Correlates (st : Store) (platformKey fingerprint : String) (start : Instant)
    (r : EventRow × InvestigationRow) : Prop where
  event_mem : r.1 ∈ st.events
  investigation_mem : r.2 ∈ st.investigations
  attached : r.1.AttachedTo platformKey fingerprint r.2.investigationId
  since : r.1.receivedSince start = true
  nonTerminal : r.2.status ∈ nonTerminalStatuses

theorem mem_openRows (st : Store) (fingerprint platformKey : String) (start : Instant)
    (r : EventRow × InvestigationRow) :
    r ∈ openRows st fingerprint platformKey start ↔
      Correlates st platformKey fingerprint start r := by
  obtain ⟨ae, i⟩ := r
  simp only [openRows, List.mem_filter, List.pair_mem_product, Bool.and_eq_true,
    decide_eq_true_eq]
  constructor
  · rintro ⟨⟨he, hi⟩, ⟨⟨⟨⟨hinv, hf⟩, hp⟩, -⟩, hs⟩, hn⟩
    exact ⟨he, hi, ⟨hp, hf, hinv⟩, hs, hn⟩
  · rintro ⟨he, hi, ⟨hp, hf, hinv⟩, hs, hn⟩
    grind

theorem mem_candidateRows (st : Store) (platformKey fingerprint : String) (start : Instant)
    (r : EventRow × InvestigationRow) :
    r ∈ candidateRows st platformKey fingerprint start ↔
      Correlates st platformKey fingerprint start r := by
  obtain ⟨ae, i⟩ := r
  simp only [candidateRows, List.mem_filter, List.pair_mem_product, Bool.and_eq_true,
    decide_eq_true_eq]
  constructor
  · rintro ⟨⟨he, hi⟩, ⟨⟨⟨⟨hp, hinv⟩, hf⟩, -⟩, hs⟩, hn⟩
    exact ⟨he, hi, ⟨hp, hf, hinv.symm⟩, hs, hn⟩
  · rintro ⟨he, hi, ⟨hp, hf, hinv⟩, hs, hn⟩
    grind

def Newest (st : Store) (platformKey fingerprint : String) (start : Instant)
    (r : EventRow × InvestigationRow) : Prop :=
  Correlates st platformKey fingerprint start r ∧
    ∀ r', Correlates st platformKey fingerprint start r' → r'.1.sortKey ≤ r.1.sortKey

def hitWrites (event : AlertEvent) (inv : Uuid) (statementAt : Instant) : Writes :=
  ⟨[mergedRow event inv statementAt], [],
    [⟨some inv, .system, .eventMerged event.eventIdText event.fingerprint, statementAt⟩]⟩

/-- The fused statement either inserts nothing and returns nothing, or it
returns the case of a newest row and inserts the two rows of the merge. -/
theorem mergeExistingEventWithAudit_ok (st : Store) (tie : ℕ) (event : AlertEvent)
    (defaultWindow : ℤ) (t : Instant) (res : StatementResult)
    (h : mergeExistingEventWithAudit st tie event defaultWindow t = .ok res) :
    (res.value = none ∧ res.writes = .empty) ∨
    ∃ window r, platformWindow st event.platformKey defaultWindow = .ok (some window) ∧
      Newest st event.platformKey event.fingerprint (t-window*1000000) r ∧
      res.value = some r.2.investigationId ∧
      res.writes = hitWrites event r.2.investigationId t ∧
      st.conflicts res.writes = false := by
  unfold mergeExistingEventWithAudit at h
  split at h
  · cases h
  · cases h
    exact .inl ⟨rfl, rfl⟩
  · next window hw =>
    dsimp only at h
    split at h
    · cases h
    · next hconf =>
      cases h
      cases hc : Pg.newest (fun r => r.1.sortKey) tie
          (candidateRows st event.platformKey event.fingerprint (t-window*1000000)) with
      | none => exact .inl ⟨rfl, rfl⟩
      | some r =>
        rw [hc] at hconf
        obtain ⟨hmem, hmax⟩ := Pg.newest_some _ _ _ _ hc
        refine .inr ⟨window, r, hw, ⟨(mem_candidateRows _ _ _ _ _).mp hmem, ?_⟩, rfl, rfl, ?_⟩
        · intro r' hr'
          exact hmax r' ((mem_candidateRows _ _ _ _ _).mpr hr')
        · simpa using hconf

theorem findOpenByFingerprint_ok (st : Store) (tie : ℕ) (fingerprint platformKey : String)
    (window : ℤ) (now : Instant) (found : Option Uuid)
    (h : findOpenByFingerprint st tie fingerprint platformKey window now = .ok found) :
    (found = none ∧
      ∀ r, ¬Correlates st platformKey fingerprint (now-window*1000000) r) ∨
    ∃ r, found = some r.2.investigationId ∧
      Newest st platformKey fingerprint (now-window*1000000) r := by
  unfold findOpenByFingerprint at h
  split at h
  · cases h
  · next start hs =>
    have hstart : start = now-window*1000000 := by
      rw [Py.addSeconds_eq hs]
      ring
    subst hstart
    cases h
    cases hc : Pg.newest (fun r => r.1.sortKey) tie
        (openRows st fingerprint platformKey (now-window*1000000)) with
    | none =>
      have hempty := Pg.newest_none _ _ _ hc
      refine .inl ⟨rfl, ?_⟩
      intro r hr
      have hmem := (mem_openRows _ fingerprint _ _ _).mpr hr
      rw [hempty] at hmem
      cases hmem
    | some r =>
      obtain ⟨hmem, hmax⟩ := Pg.newest_some _ _ _ _ hc
      refine .inr ⟨r, rfl, (mem_openRows _ _ _ _ _).mp hmem, ?_⟩
      intro r' hr'
      exact hmax r' ((mem_openRows _ _ _ _ _).mpr hr')

/-- Under the lock an event is merged into the case of a newest row, or it
opens a case because no row correlates. -/
theorem decideUnderLock_ok (S : Settings) (st : Store) (tie : ℕ) (clock : Clock) (fresh : Uuid)
    (event : AlertEvent) (a : Admission) (r : Response) (ws : Writes)
    (h : decideUnderLock S st tie clock fresh event a = .ok (r, ws)) :
    (∃ row, Newest st event.platformKey event.fingerprint (clock.reread-a.window*1000000) row ∧
      r = .merged row.2.investigationId ∧
      ws = mergeWrites event row.2.investigationId clock) ∨
    (r = .opened fresh ∧ (∃ budget, ws = openWrites event fresh budget clock) ∧
      ∀ row, ¬Correlates st event.platformKey event.fingerprint
        (clock.reread-a.window*1000000) row) := by
  unfold decideUnderLock at h
  split at h
  · cases h
  · grind [findOpenByFingerprint_ok]
  · grind [findOpenByFingerprint_ok]

theorem commit_ok (st st' : Store) (w : Writes) (h : st.commit w = some st') :
    st' = st.overlay w := by
  unfold Store.commit at h
  split at h
  · cases h
  · cases h
    rfl

end DbAgent.Ingest
