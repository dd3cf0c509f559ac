import DbAgent.IngestStatements

/-! The fused merge statement against `_ingest_txn`: where the statement merges,
the transaction run alone at the same instant merges too. -/
namespace DbAgent.Ingest

open JsonText (Json Object lookup)
open Pg (Numeric)

theorem length_le_octetLength (s : List Char) : s.length ≤ Pg.octetLength s := by
  induction s with
  | nil => exact le_rfl
  | cons c cs ih =>
    have hc := Char.utf8Size_pos c
    grind [Pg.octetLength, List.length_cons]

theorem toInteger_some (z w : ℤ) (h : Pg.toInteger z = some w) : w = z := by
  unfold Pg.toInteger at h
  grind

theorem overrideOfText_some (t : List Char) (w : ℤ) (h : overrideOfText t = some w) :
    Pg.isInteger t = true ∧ t.length ≤ 11 ∧ w = Pg.bigint t := by
  unfold overrideOfText at h
  split at h
  · next hc =>
    simp only [Bool.and_eq_true, decide_eq_true_eq] at hc
    exact ⟨hc.1, (length_le_octetLength t).trans hc.2, toInteger_some _ _ h⟩
  · cases h

variable (I : Py.Interpreter)

theorem int_of_windowOverride (v : Json Numeric) (w : ℤ) (h : windowOverride v = some w) :
    Py.int I (v.bindNum I.number) = .ok w := by
  cases v with
  | num n =>
    obtain ⟨hint, -, hw⟩ := overrideOfText_some n.text w h
    -- a text without a point is a number of scale zero, which is decoded exactly
    have hscale := Pg.scale_zero_of_isInteger n hint
    have hval := Pg.bigint_text n hscale
    rw [Json.bindNum, Py.Interpreter.number, if_pos hscale, Py.int, hw, hval]
  | str s =>
    obtain ⟨hint, hlen, hw⟩ := overrideOfText_some s.toList w h
    have hmax : s.toList.length ≤ Py.maxStrDigits := hlen.trans (by decide)
    have hval := Py.intOfText_of_isInteger I s.toList hint hmax
    rw [Json.bindNum, Py.int, hval, Option.elim_some, hw]
  | null => cases h
  | bool b => cases h
  | arr xs => cases h
  | obj kvs => cases h

theorem correlationWindow_of_windowSeconds (o : Option (Object Numeric)) (d w : ℤ)
    (config : Option (Object Py.Number))
    (hconfig : config.map Object.members =
      o.map (fun o => Json.bindNumMembers I.number o.members))
    (h : windowSeconds o d = .ok (some w)) : correlationWindow I d config = .ok w := by
  have hlookup : ∀ k, config.bind (fun o => lookup k o.members) =
      (o.bind (fun o => lookup k o.members)).map (Json.bindNum I.number) := by
    intro k
    cases config with
    | none => simp_all
    | some c =>
      cases o with
      | none => cases hconfig
      | some o =>
        grind [Py.lookup_bindNumMembers]
  unfold windowSeconds at h
  unfold correlationWindow
  rw [hlookup, hlookup]
  grind [int_of_windowOverride, toInteger_some]

def Decodable (st : Store) (platformKey : String) : Prop :=
  ∀ p o, st.platforms platformKey = some p → p.config = some o → I.decodes o = true

theorem admitEvent_of_platformWindow (S : Settings) (st : Store) (event : AlertEvent) (w : ℤ)
    (hdec : Decodable I st event.platformKey)
    (h : platformWindow st event.platformKey S.correlationWindowSeconds = .ok (some w)) :
    ∃ config, admitEvent I S st event = .ok (.ok ⟨w, config⟩) := by
  unfold platformWindow at h
  unfold admitEvent
  cases hp : st.platforms event.platformKey with
  | none =>
    rw [hp] at h
    cases h
  | some p =>
    rw [hp] at h
    dsimp only at h
    split at h
    · next honline =>
      obtain ⟨config, hload, hmem⟩ : ∃ config, loadConfig I p = .ok config ∧
          config.map Object.members =
            p.config.map (fun o => Json.bindNumMembers I.number o.members) := by
        unfold loadConfig
        cases hc : p.config with
        | none => exact ⟨none, rfl, rfl⟩
        | some o =>
          have hd := hdec p o hp hc
          refine ⟨some (o.bindNum I.number (Py.canonical_number I)), ?_, rfl⟩
          simp only [Py.loads, hd, if_true]
          rfl
      have hw := correlationWindow_of_windowSeconds I p.config _ w config hmem h
      -- both sides lower an ASCII status in the same way
      have hlower : Py.lower p.status.toList = "online".toList := honline
      simp_all
    · cases h

theorem sortKey_inj (r r' : EventRow) (h : r.sortKey = r'.sortKey) :
    r.receivedAt = r'.receivedAt := by
  unfold EventRow.sortKey at h
  cases h1 : r.receivedAt with
  | none =>
    cases h2 : r'.receivedAt with
    | none => rfl
    | some t' =>
      rw [h1, h2] at h
      cases h
  | some t =>
    cases h2 : r'.receivedAt with
    | none =>
      rw [h1, h2] at h
      cases h
    | some t' => simp_all

theorem newest_receivedAt (st : Store) (platformKey fingerprint : String) (start : Instant)
    (r r' : EventRow × InvestigationRow) (h : Newest st platformKey fingerprint start r)
    (h' : Newest st platformKey fingerprint start r') : r.1.receivedAt = r'.1.receivedAt := by
  apply sortKey_inj
  exact le_antisymm (h'.2 r h.1) (h.2 r' h'.1)

theorem conflicts_mergeWrites (st : Store) (event : AlertEvent) (inv inv' : Uuid) (t : Instant)
    (clock : Clock) :
    st.conflicts (mergeWrites event inv clock) = st.conflicts (hitWrites event inv' t) := rfl

theorem ingestTxn_merges (S : Settings) (st : Store) (tie : ℕ) (fresh : Uuid)
    (event : AlertEvent) (t : Instant) (a : Admission) (start : Instant)
    (r : EventRow × InvestigationRow) (ha : admitEvent I S st event = .ok (.ok a))
    (hstart : Py.addSeconds t (-a.window) = some start)
    (hr : Newest st event.platformKey event.fingerprint start r)
    (hconf : st.conflicts (hitWrites event r.2.investigationId t) = false) :
    ∃ r', Newest st event.platformKey event.fingerprint start r' ∧
      ingestTxn I S st tie (.still t) fresh event =
        .ok (.merged r'.2.investigationId,
          st.overlay (mergeWrites event r'.2.investigationId (.still t))) := by
  -- the two lookups range over the same rows, so this one finds a row as well
  have hne : openRows st event.fingerprint event.platformKey start ≠ [] :=
    List.ne_nil_of_mem ((mem_openRows st _ _ _ r).mpr hr.1)
  obtain ⟨r', hr'⟩ := Pg.newest_isSome (fun r : EventRow × InvestigationRow => r.1.sortKey) tie
    (openRows st event.fingerprint event.platformKey start) hne
  obtain ⟨hmem, hmax⟩ := Pg.newest_some _ _ _ _ hr'
  have hnew : Newest st event.platformKey event.fingerprint start r' :=
    ⟨(mem_openRows _ _ _ _ _).mp hmem,
      fun x hx => hmax x ((mem_openRows _ _ _ _ _).mpr hx)⟩
  have hfind : findOpenByFingerprint st tie event.fingerprint event.platformKey a.window t =
      .ok (some r'.2.investigationId) := by
    unfold findOpenByFingerprint
    simp only [hstart, hr', Option.map_some]
  have hdecide : decideUnderLock S st tie (.still t) fresh event a =
      .ok (.merged r'.2.investigationId, mergeWrites event r'.2.investigationId (.still t)) := by
    unfold decideUnderLock
    simp only [Clock.still, hfind]
  refine ⟨r', hnew, ?_⟩
  unfold ingestTxn
  simp only [ha, hdecide, commitWrites, Store.commit]
  rw [conflicts_mergeWrites st event _ r.2.investigationId t, hconf]
  rfl

/-- Where the fused statement returns nothing it has inserted nothing. -/
theorem fast_path_refines (S : Settings) (st : Store) (tie : ℕ) (event : AlertEvent)
    (t : Instant) (res : StatementResult) (hdec : Decodable I st event.platformKey)
    (h : mergeExistingEventWithAudit st tie event S.correlationWindowSeconds t = .ok res) :
    (res.value = none → res.writes = .empty) ∧
    ∀ inv, res.value = some inv →
      res.writes = mergeWrites event inv (.still t) ∧
      ∃ window config,
        platformWindow st event.platformKey S.correlationWindowSeconds = .ok (some window) ∧
        admitEvent I S st event = .ok (.ok ⟨window, config⟩) ∧
        ∀ tie' fresh,
          (Py.addSeconds t (-window) = none ∧
            ingestTxn I S st tie' (.still t) fresh event = .error (.python .overflowError)) ∨
          ∃ start r r', Py.addSeconds t (-window) = some start ∧
            Newest st event.platformKey event.fingerprint start r ∧ r.2.investigationId = inv ∧
            Newest st event.platformKey event.fingerprint start r' ∧
            r'.1.receivedAt = r.1.receivedAt ∧
            ingestTxn I S st tie' (.still t) fresh event =
              .ok (.merged r'.2.investigationId,
                st.overlay (mergeWrites event r'.2.investigationId (.still t))) := by
  rcases mergeExistingEventWithAudit_ok _ _ _ _ _ _ h with
    ⟨hv, hw⟩ | ⟨window, r, hwin, hnew, hv, hw, hconf⟩
  · refine ⟨fun _ => hw, ?_⟩
    intro inv hsome
    rw [hv] at hsome
    cases hsome
  · refine ⟨fun hnone => absurd (hnone.symm.trans hv) (by simp), ?_⟩
    intro inv hsome
    obtain rfl : r.2.investigationId = inv := Option.some.inj (hv.symm.trans hsome)
    obtain ⟨config, ha⟩ := admitEvent_of_platformWindow I S st event window hdec hwin
    refine ⟨hw, window, config, hwin, ha, ?_⟩
    intro tie' fresh
    -- the transaction computes the start of the window as a `datetime`
    cases hs : Py.addSeconds t (-window) with
    | none =>
      refine .inl ⟨rfl, ?_⟩
      simp only [ingestTxn, ha, decideUnderLock, findOpenByFingerprint, Clock.still, hs]
    | some start =>
      have hstart : start = t-window*1000000 := by
        rw [Py.addSeconds_eq hs]
        ring
      subst hstart
      rw [hw] at hconf
      obtain ⟨r', hnew', htxn⟩ := ingestTxn_merges I S st tie' fresh event t ⟨window, config⟩ _ r
        ha hs hnew hconf
      exact .inr ⟨_, r, r', rfl, hnew, rfl, hnew', newest_receivedAt _ _ _ _ _ _ hnew' hnew, htxn⟩

/-- The slot of the sample alerts with a case that was opened at `t`. -/
def openedStore (t : Instant) : Store :=
  sampleStore.overlay (openWrites (sampleAlert 1) 9 sampleSettings.budgetDefaults (.still t))

theorem ingestTxn_undecodable {I : Py.Interpreter} {st : Store} {event : AlertEvent} {p : Platform}
    {o : Object Numeric} (hp : st.platforms event.platformKey = some p) (ho : p.config = some o)
    (hd : I.decodes o = false) (S : Settings) (tie : ℕ) (clock : Clock) (fresh : Uuid) :
    ingestTxn I S st tie clock fresh event = .error (.python .valueError) := by
  simp [ingestTxn, admitEvent, hp, loadConfig, ho, Py.loads, hd, Except.map]

/-- The same with a config in which an integer has 4301 digits. -/
def longConfig : Object Numeric :=
  ⟨[("quota", .num ⟨10^Py.maxStrDigits, 0⟩)], by simp [Json.Canonical, Json.CanonicalMembers]⟩

def longStore (t : Instant) : Store :=
  { openedStore t with
    platforms := fun _ => some { samplePlatform with config := some longConfig } }

/-- In the first half hour of `datetime` the statement merges, and the
transaction cannot compute the start of its window; nor can it read every
config that PostgreSQL keeps. -/
theorem fast_path_overflows :
    (∃ t ws, mergeExistingEventWithAudit (openedStore t) 0 (sampleAlert 2)
        sampleSettings.correlationWindowSeconds t = .ok ⟨some 9, ws⟩ ∧
      ingestTxn sampleInterpreter sampleSettings (openedStore t) 0 (.still t) 10 (sampleAlert 2) =
        .error (.python .overflowError)) ∧
    ∃ t ws, mergeExistingEventWithAudit (longStore t) 0 (sampleAlert 2)
        sampleSettings.correlationWindowSeconds t = .ok ⟨some 9, ws⟩ ∧
      ingestTxn sampleInterpreter sampleSettings (longStore t) 0 (.still t) 10 (sampleAlert 2) =
        .error (.python .valueError) := by
  have hlong : sampleInterpreter.decodes longConfig = false := by decide +kernel
  exact ⟨⟨Py.minInstant+60000000, _, rfl, rfl⟩,
    5000000000, _, rfl, ingestTxn_undecodable rfl rfl hlong _ _ _ _⟩

theorem fast_path_refines_openedStore :
    ∃ r' : EventRow × InvestigationRow, r'.1.receivedAt = some 5000000000 ∧
      ingestTxn sampleInterpreter sampleSettings (openedStore 5000000000) 0 (.still 5060000000) 10
          (sampleAlert 2) =
        .ok (.merged r'.2.investigationId, (openedStore 5000000000).overlay
          (mergeWrites (sampleAlert 2) r'.2.investigationId (.still 5060000000))) := by
  have hdec : Decodable sampleInterpreter (openedStore 5000000000) "presto-us" :=
    fun _ _ hp ho => by cases hp; cases ho
  obtain ⟨-, hhit⟩ := fast_path_refines sampleInterpreter sampleSettings (openedStore 5000000000) 0
    (sampleAlert 2) 5060000000 _ hdec rfl
  obtain ⟨-, window, config, hwin, -, htxn⟩ := hhit 9 rfl
  obtain rfl : window = 1800 := by
    have hw : Except.ok (some 1800) = Except.ok (some window) := hwin
    grind
  rcases htxn 0 10 with ⟨hnone, -⟩ | ⟨start, r, r', -, hnew, -, -, hat, hres⟩
  · exact absurd hnone (by decide)
  · refine ⟨r', ?_, hres⟩
    rw [hat]
    have hmem : r.1 ∈ (openedStore 5000000000).events := hnew.1.event_mem
    rw [List.mem_singleton.mp hmem]
    rfl

end DbAgent.Ingest
