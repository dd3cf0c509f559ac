import DbAgent.MergeBatch

/-! Outcomes are assigned before the shared commit is known. In the end each of
them says what the group has made durable for its event. -/
namespace DbAgent.Ingest

open Nested List

/-- The rows of one candidate that go with its outcome: one event row and one
audit row for a hit, none otherwise. -/
def RowsFor (k : ℕ) (event : AlertEvent) (rows : List Tagged) : Outcome → Prop
  | .hit inv => ∃ t, eventsOf k rows = [mergedRow event inv t] ∧
      auditsOf k rows =
        [⟨some inv, .system, .eventMerged event.eventIdText event.fingerprint, t⟩]
  | .miss => eventsOf k rows = [] ∧ auditsOf k rows = []
  | .failed _ => eventsOf k rows = [] ∧ auditsOf k rows = []

variable {k : ℕ} {extra : List Tagged}

theorem filter_append_of_ne (n : ℕ) (rows : List Tagged) (hextra : ∀ x ∈ extra, x.1 = n)
    (h : n ≠ k) :
    (rows ++ extra).filter (fun x => x.1 = k) = rows.filter (fun x => x.1 = k) := by
  have hnone : extra.filter (fun x => x.1 = k) = [] := by
    rw [filter_eq_nil_iff]
    intro x hx
    simpa [hextra x hx] using h
  rw [filter_append, hnone, append_nil]

variable {event : AlertEvent} {rows : List Tagged}

theorem rowsFor_append_of_ne (n : ℕ) (o : Outcome) (hextra : ∀ x ∈ extra, x.1 = n) (h : n ≠ k)
    (ho : RowsFor k event rows o) : RowsFor k event (rows ++ extra) o := by
  have hevents : eventsOf k (rows ++ extra) = eventsOf k rows := by
    rw [eventsOf, filter_append_of_ne n rows hextra h, eventsOf]
  have haudits : auditsOf k (rows ++ extra) = auditsOf k rows := by
    rw [auditsOf, filter_append_of_ne n rows hextra h, auditsOf]
  cases o <;> simpa only [RowsFor, hevents, haudits] using ho

theorem filter_eq_nil (h : ∀ x ∈ rows, x.1 < k) : rows.filter (fun x => x.1 = k) = [] := by
  apply filter_eq_nil_iff.mpr
  grind

variable {window : ℤ} {a : Attempt}

theorem runStatement_ok (own : List Tagged) (res : StatementResult)
    (h : runStatement window own a event = .ok res) :
    mergeExistingEventWithAudit (overlayAll a.snapshot own) a.tie event window a.now =
      .ok res := by
  unfold runStatement at h
  split at h
  · cases h
  · split at h
    · cases h
    · next res' hr =>
      cases h
      exact hr

theorem rowsFor_statement (own : List Tagged) (res : StatementResult) (htags : ∀ x ∈ rows, x.1 < k)
    (h : runStatement window own a event = .ok res) :
    RowsFor k event (rows ++ [(k, res.writes)]) (outcomeOf (.ok res)) := by
  have hevents : eventsOf k (rows ++ [(k, res.writes)]) = res.writes.events := by
    simp [eventsOf, filter_append, filter_eq_nil htags]
  have haudits : auditsOf k (rows ++ [(k, res.writes)]) = res.writes.audits := by
    simp [auditsOf, filter_append, filter_eq_nil htags]
  rcases mergeExistingEventWithAudit_ok _ _ _ _ _ _ (runStatement_ok _ _ h) with
    ⟨hv, hw⟩ | ⟨_, r, -, -, hv, hw, -⟩
  · have hout : outcomeOf (.ok res) = .miss := by simp only [outcomeOf, hv, Option.elim_none]
    rw [hw] at hevents haudits ⊢
    rw [hout]
    exact ⟨hevents, haudits⟩
  · have hout : outcomeOf (.ok res) = .hit r.2.investigationId := by
      simp only [outcomeOf, hv, Option.elim_some]
    rw [hw] at hevents haudits ⊢
    rw [hout]
    exact ⟨a.now, hevents, haudits⟩

theorem writes_of_miss {own : List Tagged} {res : StatementResult}
    (h : runStatement window own a event = .ok res) (hmiss : (outcomeOf (.ok res)).isHit = false) :
    res.writes = .empty := by
  rcases mergeExistingEventWithAudit_ok _ _ _ _ _ _ (runStatement_ok _ _ h) with
    ⟨-, hw⟩ | ⟨_, r, -, -, hv, -⟩
  · exact hw
  · rw [outcomeOf, hv] at hmiss
    cases hmiss

theorem overlayAll_idle (st : Store) (h : ∀ x ∈ rows, x.2 = .empty) : overlayAll st rows = st := by
  induction rows with
  | nil => rfl
  | cons x rows ih =>
    have hone : st.overlay x.2 = st := by
      rw [h x mem_cons_self]
      simp [Store.overlay, Writes.empty]
    change overlayAll (st.overlay x.2) rows = st
    rw [hone]
    exact ih fun y hy => h y (mem_cons_of_mem x hy)

def leave (window : ℤ) (c : Conditions) (own : List Tagged) (x : AlertEvent × ℕ) : List Tagged :=
  match runStatement window own (c.attempt x.2) x.1 with
  | .ok res => own ++ [(x.2, res.writes)]
  | .error _ => own

/-- What the positions leave to the next one, each statement run over what those before it have
left: the rows of the statements that succeed. -/
def leftRows (window : ℤ) (c : Conditions) (events : List AlertEvent) : List Tagged :=
  events.zipIdx.foldl (leave window c) []

variable {c : Conditions} {done : List AlertEvent}

theorem leftRows_snoc :
    leftRows window c (done ++ [event]) =
      leave window c (leftRows window c done) (event, done.length) := by
  simp [leftRows, zipIdx_append]

/-- The loop invariant while no failure was fatal, after the candidates `done`:
every outcome is that of the candidate's own statement, which saw the rows of
the candidates before it, and the rows in the transaction are those of the
hits. -/
structure Faithful (window : ℤ) (c : Conditions) (done : List AlertEvent) (s : BatchState) :
    Prop where
  alive : s.fatal = none
  length : s.outcomes.length = done.length
  tags : ∀ x ∈ s.txn.rows, x.1 < done.length
  left : s.txn.rows = leftRows window c done
  own : ∀ k event, done[k]? = some event →
    ∃ o, s.outcomes[k]? = some o ∧ RowsFor k event s.txn.rows o ∧
      o = outcomeOf (runStatement window (s.txn.rows.filter (fun x => x.1 < k)) (c.attempt k) event)
  idle : (∀ o ∈ s.outcomes, o.isHit = false) → ∀ x ∈ s.txn.rows, x.2 = .empty

theorem filter_lt_eq_self (n : ℕ) (h : ∀ x ∈ rows, x.1 < n) :
    rows.filter (fun x => x.1 < n) = rows := by
  apply filter_eq_self.mpr
  intro x hx
  simpa using h x hx

theorem filter_lt_append (n : ℕ) (rows : List Tagged) (hextra : ∀ x ∈ extra, x.1 = n) (h : k ≤ n) :
    (rows ++ extra).filter (fun x => x.1 < k) = rows.filter (fun x => x.1 < k) := by
  have hnil : extra.filter (fun x => x.1 < k) = [] := by
    apply filter_eq_nil_iff.mpr
    intro x hx
    have hn := hextra x hx
    simp only [decide_eq_true_eq]
    omega
  grind

theorem getElem?_snoc {α : Type} (l : List α) (a b : α) (h : (l ++ [a])[k]? = some b) :
    (k < l.length ∧ l[k]? = some b) ∨ (k = l.length ∧ b = a) := by
  grind

variable {s s' : BatchState}

/-- What the body of the loop does: the statement fails, and its savepoint is
recovered or the failure becomes fatal; or its rows stay in the transaction. -/
theorem executeCandidate_ok (h : executeCandidate window a k event s = .ok s') :
    (∃ e, runStatement window s.txn.rows a event = .error e ∧
      s'.outcomes = s.outcomes ++ [.failed e] ∧ s'.fatal = recoverSavepoint a.recovery e ∧
      (a.recovery = .recovered → s'.txn = s.txn)) ∨
    (∃ res, runStatement window s.txn.rows a event = .ok res ∧
      s'.outcomes = s.outcomes ++ [outcomeOf (.ok res)] ∧ s'.fatal = s.fatal ∧
      s'.txn.rows = s.txn.rows ++ [(k, res.writes)]) := by
  unfold executeCandidate at h
  split at h
  · cases h
  · dsimp only at h
    rw [rows_beginNested] at h
    split at h
    · next e hrun =>
      cases h
      exact .inl ⟨e, hrun, rfl, rfl, fun hrec => if_pos hrec⟩
    · grind [release_beginNested, rows_write]

theorem faithful_snoc (o : Outcome) (hs : Faithful window c done s) (halive : s'.fatal = none)
    (hout : s'.outcomes = s.outcomes ++ [o]) (hrows : s'.txn.rows = s.txn.rows ++ extra)
    (hextra : ∀ x ∈ extra, x.1 = done.length) (hidle : o.isHit = false → ∀ x ∈ extra, x.2 = .empty)
    (hfor : RowsFor done.length event s'.txn.rows o)
    (ho : o = outcomeOf (runStatement window s.txn.rows (c.attempt done.length) event))
    (hleft : s'.txn.rows = leftRows window c (done ++ [event])) :
    Faithful window c (done ++ [event]) s' := by
  refine ⟨halive, by simp [hout, hs.length], ?_, hleft, ?_, ?_⟩
  · intro x hx
    rw [hrows] at hx
    rw [length_append, length_singleton]
    rcases mem_append.mp hx with hold | hnew
    · have hlt := hs.tags x hold
      omega
    · have heq := hextra x hnew
      omega
  · intro k event' hk
    rcases getElem?_snoc done event event' hk with ⟨hlt, hk⟩ | ⟨rfl, rfl⟩
    · obtain ⟨o', ho', hrowsfor, hown⟩ := hs.own k event' hk
      have hne : done.length ≠ k := by omega
      refine ⟨o', ?_, ?_, ?_⟩
      · grind
      · rw [hrows]
        exact rowsFor_append_of_ne _ o' hextra hne hrowsfor
      · rw [hrows, filter_lt_append _ _ hextra (by omega)]
        exact hown
    · -- the candidate itself has seen exactly the rows of those before it
      refine ⟨o, ?_, hfor, ?_⟩
      · rw [hout, ← hs.length, List.getElem?_concat_length]
      · rw [hrows, filter_lt_append _ _ hextra le_rfl,
          filter_lt_eq_self done.length hs.tags]
        exact ho
  · intro hmiss x hx
    rw [hout, forall_mem_append, forall_mem_singleton] at hmiss
    rw [hrows] at hx
    rcases mem_append.mp hx with hold | hnew
    · exact hs.idle hmiss.1 x hold
    · exact hidle hmiss.2 x hnew

theorem recovered_of_alive (r : Recovery) (e : Failure) (h : recoverSavepoint r e = none) :
    r = .recovered := by
  cases r with
  | recovered => rfl
  | raised e' => cases h
  | lost => cases h

theorem executeCandidate_faithful (hs : Faithful window c done s)
    (h : executeCandidate window (c.attempt done.length) done.length event s = .ok s')
    (halive : s'.fatal = none) : Faithful window c (done ++ [event]) s' := by
  rcases executeCandidate_ok h with
    ⟨e, hrun, hout, hfatal, htxn⟩ | ⟨res, hrun, hout, -, hrows⟩
  · have hsame := htxn (recovered_of_alive _ e (hfatal.symm.trans halive))
    have hnil := filter_eq_nil hs.tags
    apply faithful_snoc (.failed e) hs halive hout
    · rw [hsame, append_nil]
    · exact fun x hx => (nomatch hx)
    · exact fun _ x hx => (nomatch hx)
    · rw [hsame]
      simp [RowsFor, eventsOf, auditsOf, hnil]
    · rw [hrun]
      rfl
    · rw [leftRows_snoc, leave, ← hs.left, hrun, hsame]
  · apply faithful_snoc _ hs halive hout hrows
    · simp
    · intro hmiss x hx
      rw [mem_singleton.mp hx]
      exact writes_of_miss hrun hmiss
    · rw [hrows]
      exact rowsFor_statement _ res hs.tags hrun
    · rw [hrun]
    · rw [leftRows_snoc, leave, ← hs.left, hrun, hrows]

/-- The statement of a position fails over what the positions before it have left, and its
savepoint is not recovered. -/
def Unrecovered (window : ℤ) (c : Conditions) (events : List AlertEvent) : Prop :=
  ∃ j event e, events[j]? = some event ∧ (c.attempt j).recovery ≠ .recovered ∧
    runStatement window (leftRows window c (events.take j)) (c.attempt j) event = .error e

theorem executeCandidate_fatal (h : executeCandidate window a k event s = .ok s') :
    s'.outcomes.length = s.outcomes.length+1 ∧
      (s'.fatal = none ∨ s'.fatal = s.fatal ∨
        a.recovery ≠ .recovered ∧ ∃ e, runStatement window s.txn.rows a event = .error e) := by
  rcases executeCandidate_ok h with
    ⟨e, hrun, hout, hfatal, -⟩ | ⟨res, -, hout, hfatal, -⟩
  · refine ⟨by simp [hout], ?_⟩
    by_cases hrec : a.recovery = .recovered
    · exact .inl (by simp [hfatal, recoverSavepoint, hrec])
    · exact .inr (.inr ⟨hrec, e, hrun⟩)
  · grind

/-- The whole loop: it ends with every candidate accounted for, or with a
failure whose savepoint could not be recovered. -/
theorem executeCandidates_ok (rest : List AlertEvent) (hs : Faithful window c done s)
    (h : executeCandidates window c done.length rest s = .ok s') :
    Faithful window c (done ++ rest) s' ∨
    (s'.fatal ≠ none ∧ s'.outcomes.length ≤ done.length+rest.length ∧
      Unrecovered window c (done ++ rest)) := by
  induction rest generalizing done s with
  | nil =>
    cases h
    rw [append_nil]
    exact .inl hs
  | cons event rest ih =>
    rw [executeCandidates, if_neg (by simp [hs.alive])] at h
    split at h
    · cases h
    · next s₁ hstep =>
      obtain ⟨hlen, hfatal⟩ := executeCandidate_fatal hstep
      cases hf : s₁.fatal with
      | none =>
        have hs₁ := executeCandidate_faithful hs hstep hf
        have hlist : done ++ [event] ++ rest = done ++ event :: rest := by simp
        rw [← hlist]
        rcases ih hs₁ (by simpa using h) with hgood | ⟨hbad, hle, hk⟩
        · exact .inl hgood
        · refine .inr ⟨hbad, ?_, hk⟩
          simp only [length_append, length_singleton] at hle
          simp only [length_cons]
          omega
      | some e =>
        -- the break: the remaining candidates are not looked at
        have hend : s' = s₁ := by
          cases rest with
          | nil =>
            cases h
            rfl
          | cons event' rest =>
            rw [executeCandidates, if_pos (by simp [hf])] at h
            cases h
            rfl
        subst hend
        refine .inr ⟨by simp [hf], ?_, ?_⟩
        · rw [hlen, hs.length]
          simp only [length_cons]
          omega
        · rcases hfatal with hnone | hsame | hun
          · rw [hf] at hnone
            cases hnone
          · rw [hf, hs.alive] at hsame
            cases hsame
          · obtain ⟨hrec, e, hrun⟩ := hun
            refine ⟨done.length, event, e, by simp, hrec, ?_⟩
            rw [take_left, ← hs.left, hrun]

theorem faithful_start (window : ℤ) (c : Conditions) :
    Faithful window c [] ⟨.start, [], none⟩ :=
  ⟨rfl, rfl, fun _ h => (nomatch h), rfl, fun _ _ h => (nomatch h), fun _ _ h => (nomatch h)⟩

structure Reported (k : ℕ) (event : AlertEvent) (durable : List Tagged) (o : Outcome) : Prop where
  hit_iff : ∀ inv, o = .hit inv ↔ ∃ row audit, eventsOf k durable = [row] ∧
    row.disposition = .merged ∧ row.investigationId = some inv ∧ auditsOf k durable = [audit] ∧
    audit.entry = .eventMerged event.eventIdText event.fingerprint
  contents : RowsFor k event durable o
  no_row : (∀ inv, o ≠ .hit inv) → eventsOf k durable = [] ∧ auditsOf k durable = []

theorem reported_of_rowsFor (durable : List Tagged) (o : Outcome) (h : RowsFor k event durable o) :
    Reported k event durable o := by
  have hnone : eventsOf k durable = [] → ∀ inv, ¬∃ row audit, eventsOf k durable = [row] ∧
      row.disposition = .merged ∧ row.investigationId = some inv ∧
      auditsOf k durable = [audit] ∧
      audit.entry = .eventMerged event.eventIdText event.fingerprint := by
    rintro hnil inv ⟨row, audit, hev, -⟩
    rw [hnil] at hev
    cases hev
  cases o with
  | hit inv =>
    obtain ⟨t, hev, hau⟩ := h
    refine ⟨fun inv' => ⟨?_, ?_⟩, ⟨t, hev, hau⟩, fun hno => absurd rfl (hno inv)⟩
    · intro heq
      cases heq
      exact ⟨_, _, hev, rfl, rfl, hau, rfl⟩
    · rintro ⟨row, audit, hev', -, hinv, -⟩
      rw [hev] at hev'
      rw [← (List.cons.inj hev').1] at hinv
      exact congrArg Outcome.hit (Option.some.inj hinv)
  | miss =>
    exact ⟨fun inv => ⟨fun heq => (nomatch heq), fun hrows => absurd hrows (hnone h.1 inv)⟩, h,
      fun _ => h⟩
  | failed e =>
    exact ⟨fun inv => ⟨fun heq => (nomatch heq), fun hrows => absurd hrows (hnone h.1 inv)⟩, h,
      fun _ => h⟩

theorem reported_failed (k : ℕ) (event : AlertEvent) (e : Failure) :
    Reported k event [] (.failed e) :=
  reported_of_rowsFor [] _ ⟨rfl, rfl⟩

theorem finishMergeBatch_ok (f : Option Failure) (h : finishMergeBatch c s = .ok (f, rows)) :
    (f = none ∧ s.fatal = none ∧
      (rows = s.txn.rows ∨ (rows = [] ∧ ∀ o ∈ s.outcomes, o.isHit = false))) ∨
    ∃ e, f = some e ∧ rows = [] ∧ (s.fatal = some e ∨ c.commitFails = some e) := by
  unfold finishMergeBatch at h
  split at h
  · grind
  · next hf =>
    split at h
    · grind
    · grind

def Raises (c : Conditions) (events : List AlertEvent) (e : Failure) : Prop :=
  c.rollbackFails = some e ∨ ∃ j < events.length,
    (c.attempt j).beginFails = some e ∨ (c.attempt j).releaseFails = some e

theorem executeCandidate_error {e : Failure} (h : executeCandidate window a k event s = .error e) :
    a.beginFails = some e ∨ a.releaseFails = some e := by
  unfold executeCandidate at h
  split at h
  · next e' hbegin =>
    cases h
    exact .inl hbegin
  · dsimp only at h
    split at h
    · cases h
    · split at h
      · next e' hrelease =>
        cases h
        exact .inr hrelease
      · cases h

theorem executeCandidates_error {e : Failure} (rest : List AlertEvent)
    (h : executeCandidates window c k rest s = .error e) :
    ∃ j < k+rest.length, (c.attempt j).beginFails = some e ∨
      (c.attempt j).releaseFails = some e := by
  induction rest generalizing k s with
  | nil => cases h
  | cons event rest ih =>
    rw [executeCandidates] at h
    split at h
    · cases h
    · split at h
      · next e' hstep =>
        cases h
        exact ⟨k, by simp, executeCandidate_error hstep⟩
      · next s' hstep =>
        obtain ⟨j, hj, hfails⟩ := ih h
        refine ⟨j, ?_, hfails⟩
        rw [length_cons]
        omega

theorem finishMergeBatch_error {e : Failure} (h : finishMergeBatch c s = .error e) :
    c.rollbackFails = some e := by
  unfold finishMergeBatch at h
  split at h
  · cases h
  · split at h
    · split at h <;> cases h
    · split at h
      · next e' hrollback =>
        cases h
        exact hrollback
      · cases h

/-- What a statement of the group sees of the positions before it is durable in the end, or it is
nothing. -/
theorem own_durable (hs : Faithful window c done s)
    (hrows : rows = s.txn.rows ∨ (rows = [] ∧ ∀ o ∈ s.outcomes, o.isHit = false)) (k : ℕ)
    (event : AlertEvent) :
    runStatement window (s.txn.rows.filter (fun x => x.1 < k)) (c.attempt k) event =
      runStatement window (rows.filter (fun x => x.1 < k)) (c.attempt k) event := by
  rcases hrows with rfl | ⟨rfl, hmiss⟩
  · rfl
  · have hidle : ∀ x ∈ s.txn.rows.filter (fun x => x.1 < k), x.2 = .empty :=
      fun x hx => hs.idle hmiss x (mem_filter.mp hx).1
    rw [runStatement, runStatement, overlayAll_idle _ hidle]
    rfl

theorem underFatal_failed (e : Failure) (o : Option Outcome) :
    ∃ e', underFatal e o = .failed e' := by
  unfold underFatal
  split
  · next e' => exact ⟨e', rfl⟩
  · exact ⟨e, rfl⟩

theorem rowsFor_rolledBack (k : ℕ) (event : AlertEvent) (o : Outcome) (h : o.isHit = false) :
    RowsFor k event [] o := by
  cases o with
  | hit inv => cases h
  | miss => exact ⟨rfl, rfl⟩
  | failed e => exact ⟨rfl, rfl⟩

theorem pad_of_length (outcomes : List Outcome) (n : ℕ) (h : outcomes.length = n) :
    outcomes.map some ++ List.replicate (n-outcomes.length) none = outcomes.map some := by
  simp [h]

theorem pad_length (outcomes : List Outcome) (n : ℕ) (h : outcomes.length ≤ n) :
    (outcomes.map some ++ List.replicate (n-outcomes.length) none).length = n := by grind

/-- The group either raises, which it does for a savepoint that cannot be opened or released and
for the rollback of a group without a hit, and has made nothing durable; or it answers one outcome
for each event in order. -/
theorem group_commit_faithful (window : ℤ) (c : Conditions) (events : List AlertEvent) :
    (∃ e, (executeMergeBatch window c events).answer = .error e ∧ Raises c events e ∧
      (executeMergeBatch window c events).durable = []) ∨
    ∃ outcomes, (executeMergeBatch window c events).answer = .ok outcomes ∧
      outcomes.length = events.length ∧
      ∀ k event, events[k]? = some event → ∃ o, outcomes[k]? = some (some o) ∧
        Reported k event (executeMergeBatch window c events).durable o ∧
        (o = outcomeOf (runStatement window
            ((executeMergeBatch window c events).durable.filter (fun x => x.1 < k))
            (c.attempt k) event) ∨
          (∃ e, c.commitFails = some e) ∨ Unrecovered window c events) := by
  unfold executeMergeBatch
  -- an exception that leaves the loop or the end of the group rolls back all of it
  cases hloop : executeCandidates window c 0 events ⟨.start, [], none⟩ with
  | error e =>
    have hraises := executeCandidates_error events hloop
    rw [Nat.zero_add] at hraises
    exact .inl ⟨e, rfl, .inr hraises, rfl⟩
  | ok s =>
    have hend := executeCandidates_ok events (faithful_start window c) hloop
    rw [nil_append, length_nil, Nat.zero_add] at hend
    cases hfin : finishMergeBatch c s with
    | error e =>
      left
      refine ⟨e, ?_, .inl (finishMergeBatch_error hfin), ?_⟩
      · simp only [hfin]
      · simp only [hfin]
    | ok p =>
      obtain ⟨f, rows⟩ := p
      right
      rcases finishMergeBatch_ok f hfin with ⟨rfl, hfatal, hrows⟩ | ⟨e, rfl, rfl, hwhy⟩
      · -- no fatal failure, so every candidate was run
        obtain hs | ⟨hne, -, -⟩ := hend
        · simp only [hfin]
          rw [pad_of_length s.outcomes events.length hs.length]
          refine ⟨_, rfl, by simp [hs.length], ?_⟩
          intro k event hk
          obtain ⟨o, ho, hfor, hown⟩ := hs.own k event hk
          have hdurable : RowsFor k event rows o := by
            rcases hrows with rfl | ⟨rfl, hmiss⟩
            · exact hfor
            · exact rowsFor_rolledBack k event o (hmiss o (mem_of_getElem? ho))
          refine ⟨o, ?_, reported_of_rowsFor rows o hdurable, .inl ?_⟩
          · rw [getElem?_map, ho]
            rfl
          · rw [hown]
            exact congrArg outcomeOf (own_durable hs hrows k event)
        · exact absurd hfatal hne
      · simp only [hfin]
        -- a fatal failure: the entries behind it are padded and then overwritten
        have hle : s.outcomes.length ≤ events.length := by
          rcases hend with hs | ⟨-, hle, -⟩
          · exact le_of_eq hs.length
          · exact hle
        refine ⟨_, rfl, by rw [length_map, pad_length _ _ hle], ?_⟩
        intro k event hk
        have hlt : k < (s.outcomes.map some ++
            List.replicate (events.length-s.outcomes.length) none).length := by
          rw [pad_length _ _ hle]
          exact (List.getElem?_eq_some_iff.mp hk).1
        obtain ⟨e', he'⟩ := underFatal_failed e ((s.outcomes.map some ++
          List.replicate (events.length-s.outcomes.length) none)[k])
        refine ⟨.failed e', ?_, reported_failed k event e', .inr ?_⟩
        · grind
        · rcases hwhy with hf | hc
          · obtain hs | ⟨-, -, hun⟩ := hend
            · rw [hs.alive] at hf
              cases hf
            · exact .inr hun
          · exact .inl ⟨e, hc⟩

end DbAgent.Ingest
