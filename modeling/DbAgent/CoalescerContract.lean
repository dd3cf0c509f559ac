import DbAgent.CoalescerRuns

/-! What the callers of the coalescer can rely on, and the answer with which it
breaks: one whose iteration raises after the group has left `_inflight`. -/
namespace DbAgent.Coalescer

open Transition

variable {ε α : Type}

variable {s : State ε α}

section Frames

/-- Nothing is accepted, and `closing` is not taken back. -/
def Keeps (s t : State ε α) : Prop :=
  t.accepted = s.accepted ∧ (s.closing = true → t.closing = true)

theorem keeps_takeGroup (s : State ε α) (d : ℕ) : Keeps s (s.takeGroup d) := by
  unfold State.takeGroup
  split <;> exact ⟨rfl, fun h => h⟩

theorem keeps_awaitGroup (s : State ε α) (d : ℕ) (deadline now : ℤ) :
    Keeps s (s.awaitGroup d deadline now) := by
  unfold State.awaitGroup
  split
  · exact keeps_takeGroup s d
  · dsimp only
    split
    · exact keeps_takeGroup { s with arrival := false } d
    · exact ⟨rfl, fun h => h⟩

theorem keeps_drainTop (s : State ε α) (d : ℕ) (now : ℤ) : Keeps s (s.drainTop d now) := by
  unfold State.drainTop
  split
  · exact ⟨rfl, fun h => h⟩
  · split
    · exact keeps_takeGroup s d
    · exact keeps_awaitGroup s d _ now

theorem keeps_crash (s : State ε α) (d : ℕ) (e : Exc) : Keeps s (s.crash d e) := by
  cases e <;> exact ⟨rfl, fun _ => rfl⟩

theorem keeps_failBatch (s : State ε α) (d : ℕ) (now : ℤ) (batch : List (Pending ε)) (e : Exc) :
    Keeps s (s.failBatch d now batch e) :=
  keeps_drainTop { s with inflight := [], resolved := settleAll e s.resolved batch } d now

theorem keeps_finishBatch (s : State ε α) (d : ℕ) (now : ℤ) (batch : List (Pending ε))
    (a : Answer α) : Keeps s (s.finishBatch d now batch a) := by
  unfold State.finishBatch
  split
  · exact keeps_crash s d .cancelled
  · exact keeps_failBatch s d now batch _
  · exact keeps_failBatch s d now batch _
  · exact keeps_crash { s with inflight := [] } d _
  · split
    · exact keeps_failBatch s d now batch _
    · split
      · next log _ => exact keeps_drainTop { s with inflight := [], resolved := log } d now
      · next log _ => exact keeps_crash { s with inflight := [], resolved := log } d _

theorem keeps_step (t : State ε α) (e : Event ε α) (hstep : Step s e t)
    (hclosing : s.closing = true) : Keeps s t := by
  cases hstep with
  | refuse => exact ⟨rfl, fun h => h⟩
  | accept loop event now _ hopen => grind
  | detach => exact ⟨rfl, fun h => h⟩
  | run d now => exact keeps_drainTop s d now
  | wake d now deadline => exact keeps_awaitGroup s d deadline now
  | timeout d => exact keeps_takeGroup s d
  | call => exact ⟨rfl, fun h => h⟩
  | answer => exact ⟨rfl, fun h => h⟩
  | complete d now batch _ _ _ a => exact keeps_finishBatch s d now batch a
  | cancel d => exact keeps_crash s d .cancelled
  | close => exact ⟨rfl, fun _ => rfl⟩
  | closed => exact ⟨rfl, fun h => h⟩
  | abandon => exact ⟨rfl, fun h => h⟩

theorem accepted_run (es : List (Event ε α)) (t : State ε α) (hclosing : s.closing = true)
    (hrun : (system ε α).run s es = some t) : t.accepted = s.accepted := by
  have hstep (r : State ε α) (e : Event ε α) (r' : State ε α) (_ : True)
      (h : r.closing = true ∧ r.accepted = s.accepted) (hr : (system ε α).step r e = some r') :
      r'.closing = true ∧ r'.accepted = s.accepted := by
    obtain ⟨hacc, hkeep⟩ := keeps_step r' e (step_sound r' e hr) h.1
    exact ⟨hkeep h.1, hacc.trans h.2⟩
  exact (run_invariant _ _ _ hstep es s t (fun _ _ => trivial) ⟨hclosing, rfl⟩ hrun).2

def Dead (s : State ε α) : Prop := s.closing = true ∧ ∀ d, ¬(s.tasks d).live

theorem dead_step (t : State ε α) (e : Event ε α) (hstep : Step s e t) (h : Dead s) :
    Dead t ∧ t.resolved = s.resolved := by
  obtain ⟨hclosing, hdead⟩ := h
  cases hstep with
  | refuse => exact ⟨⟨hclosing, hdead⟩, rfl⟩
  | accept loop event now _ hopen => grind
  | detach => exact ⟨⟨hclosing, hdead⟩, rfl⟩
  | run d now hpc => exact absurd (by rw [hpc]; trivial) (hdead d)
  | wake d now deadline hpc => exact absurd (by rw [hpc]; trivial) (hdead d)
  | timeout d deadline hpc => exact absurd (by rw [hpc]; trivial) (hdead d)
  | call => exact ⟨⟨hclosing, hdead⟩, rfl⟩
  | answer => exact ⟨⟨hclosing, hdead⟩, rfl⟩
  | complete d now batch _ g _ a hpc => exact absurd (by rw [hpc]; trivial) (hdead d)
  | cancel d hlive => exact absurd hlive (hdead d)
  | close => exact ⟨⟨rfl, hdead⟩, rfl⟩
  | closed => exact ⟨⟨hclosing, hdead⟩, rfl⟩
  | abandon => exact ⟨⟨hclosing, hdead⟩, rfl⟩

theorem resolved_run_of_dead (es : List (Event ε α)) (t : State ε α) (h : Dead s)
    (hrun : (system ε α).run s es = some t) : t.resolved = s.resolved := by
  have hstep (r : State ε α) (e : Event ε α) (r' : State ε α) (_ : True)
      (h : Dead r ∧ r.resolved = s.resolved) (hr : (system ε α).step r e = some r') :
      Dead r' ∧ r'.resolved = s.resolved := by
    obtain ⟨hdead, hres⟩ := dead_step r' e (step_sound r' e hr) h.1
    exact ⟨hdead, hres.trans h.2⟩
  exact (run_invariant _ _ _ hstep es s t (fun _ _ => trivial) ⟨h, rfl⟩ hrun).2

end Frames

section Contract

theorem handed_sublist (h : Ledger s) : s.handed.flatten.Sublist s.accepted := by
  obtain ⟨dropped, horder, _⟩ := h.order
  -- the groups partition a front part of what was accepted
  have hgroups : s.handed.flatten.Sublist (s.groups.flatMap Group.batch) := by
    rw [h.handed, List.flatMap_def]
    exact (List.filter_sublist.map Group.batch).flatten
  grind

theorem accepted_nodup (h : Ledger s) : (s.accepted.map Pending.id).Nodup := by
  rw [h.ids]
  exact List.nodup_range

theorem handed_sizes (h : Ledger s) (batch : List (Pending ε)) (hb : batch ∈ s.handed) :
    batch ≠ [] ∧ batch.length ≤ batchSize := by
  rw [h.handed] at hb
  obtain ⟨g, hg, rfl⟩ := List.mem_map.mp hb
  exact h.sizes g (List.mem_filter.mp hg).1

theorem running_unique (h : Ledger s) (j k : ℕ) (g g' : Group ε α) (hj : s.groups[j]? = some g)
    (hk : s.groups[k]? = some g') (hg : g.phase = .running) (hg' : g'.phase = .running) :
    j = k := by
  have hjlast := h.last j g hj (by rw [hg]; trivial)
  have hklast := h.last k g' hk (by rw [hg']; trivial)
  omega

theorem done_of_idle (h : Invariant s) (hd : s.drainer = none) (x : Pending ε)
    (hx : x ∈ s.accepted) :
    x.id ∈ doneIds s.resolved := by
  obtain ⟨hq, hi, _⟩ := h.idle hd
  by_contra hdone
  rcases h.ledger.pending x hx hdone with hqueue | hfly
  · rw [hq] at hqueue
    cases hqueue
  · rw [hi] at hfly
    cases hfly

theorem live_of_pending (h : Invariant s) (x : Pending ε) (hx : x ∈ s.accepted)
    (hdone : x.id ∉ doneIds s.resolved) : ∃ d, s.drainer = some d ∧ (s.tasks d).live := by
  cases hd : s.drainer with
  | none => exact absurd (done_of_idle h hd x hx) hdone
  | some d => exact ⟨d, rfl, (h.slot.live d).mpr hd⟩

/-- In every interleaving in which the answers can be iterated: items are
handed over at most once and in order, one group at a time; a future is
resolved at most once, with its own outcome or an exception; a pending item
has a live drainer; and a failure or a call of `close` ends the admission. -/
theorem coalescer_contract (s : State ε α) (hs : (system ε α).ReachVia Event.Sound s) :
    (s.handed.flatten.Sublist s.accepted ∧ (s.accepted.map Pending.id).Nodup ∧
      (s.handed.flatten.map Pending.id).Nodup ∧
      s.handed = (s.groups.filter (fun g => g.phase.called)).map Group.batch ∧
      ∀ batch ∈ s.handed, batch ≠ [] ∧ batch.length ≤ 8) ∧
    (∀ (j k : ℕ) (g g' : Group ε α), s.groups[j]? = some g → s.groups[k]? = some g' →
      g.phase = .running → g'.phase = .running → j = k) ∧
    ((doneIds s.resolved).Nodup ∧
      ∀ id a, (id, .result a) ∈ s.resolved → Own s.groups id a) ∧
    ((∀ x ∈ s.accepted, x.id ∉ doneIds s.resolved →
        ∃ d, s.drainer = some d ∧ (s.tasks d).live) ∧
      ∀ c, s.closers c = .returned → ∀ x ∈ s.accepted, x.id ∈ doneIds s.resolved) ∧
    ((s.failure ≠ none ∨ ∃ c, s.closers c ≠ .idle) →
      ∀ es t, (system ε α).run s es = some t → t.accepted = s.accepted) := by
  have h := invariant_reachVia s hs
  have hsub := handed_sublist h.ledger
  have hnodup := accepted_nodup h.ledger
  refine ⟨⟨hsub, hnodup, hnodup.sublist (hsub.map Pending.id), h.ledger.handed,
    handed_sizes h.ledger⟩, running_unique h.ledger, ⟨h.ledger.once, h.ledger.own⟩,
    ⟨live_of_pending h, ?_⟩, ?_⟩
  · intro c hc x hx
    have hok := h.slot.closers c
    rw [hc] at hok
    exact done_of_idle h hok.2 x hx
  · intro hend es t hrun
    have hclosing : s.closing = true := by
      rcases hend with hf | ⟨c, hc⟩
      · exact (h.slot.failed hf).1
      · exact closing_of_closerOk _ (h.slot.closers c) hc
    exact accepted_run es t hclosing hrun

def sampleRun : List (Event ℕ ℕ) :=
  [.submit 0 5 0, .run 0 10000, .call 0, .answer 0 (.sequence [.value 7]), .complete 0 20000,
    .close 0]

theorem sampleRun_sound (e : Event ℕ ℕ) (he : e ∈ sampleRun) (s : State ℕ ℕ) : e.Sound s := by
  simp only [sampleRun, List.mem_cons, List.not_mem_nil, or_false] at he
  rcases he with rfl | rfl | rfl | rfl | rfl | rfl
  · trivial
  · trivial
  · trivial
  · intro x hx
    grind
  · trivial
  · trivial

theorem coalescer_contract_sampleRun :
    ∃ s : State ℕ ℕ, (system ℕ ℕ).ReachVia Event.Sound s ∧ s.accepted = [⟨0, 5, 0⟩] ∧
      s.closers 0 = .returned ∧ (∀ x ∈ s.accepted, x.id ∈ doneIds s.resolved) ∧
      Own s.groups 0 7 := by
  obtain ⟨s, hrun, hacc, hclosed, hres⟩ :
      ∃ s : State ℕ ℕ, (system ℕ ℕ).run State.initial sampleRun = some s ∧
        s.accepted = [⟨0, 5, 0⟩] ∧ s.closers 0 = .returned ∧ s.resolved = [(0, .result 7)] :=
    ⟨_, rfl, rfl, rfl, rfl⟩
  have hs : (system ℕ ℕ).ReachVia Event.Sound s :=
    run_reachVia _ _ sampleRun State.initial s (.init rfl) sampleRun_sound hrun
  obtain ⟨_, _, ⟨_, hown⟩, ⟨_, hdone⟩, _⟩ := coalescer_contract s hs
  exact ⟨s, hs, hacc, hclosed, hdone 0 hclosed, hown 0 7 (by rw [hres]; simp)⟩

/-- A generator that raises while `list()` consumes it: its item is in no list
any more when `_fail_everything` runs, and is never resolved. -/
theorem raising_iteration_strands :
    ∃ s : State ℕ ℕ, (system ℕ ℕ).Reachable s ∧ (∃ x ∈ s.accepted, x.id = 0) ∧
      (s.drainer = none ∧ ∀ d, ¬(s.tasks d).live) ∧
      ∀ es t, (system ℕ ℕ).run s es = some t → 0 ∉ doneIds t.resolved := by
  obtain ⟨s, hrun, hacc, hclosing, hdrainer, htasks, hres⟩ :
      ∃ s : State ℕ ℕ, (system ℕ ℕ).run State.initial
          [.submit 0 5 0, .run 0 10000, .call 0, .answer 0 (.iterationRaises (.other 1)),
            .complete 0 20000] = some s ∧
        s.accepted = [⟨0, 5, 0⟩] ∧ s.closing = true ∧ s.drainer = none ∧
        (∀ d, s.tasks d = .absent ∨ s.tasks d = .finished false) ∧ s.resolved = [] := by
    refine ⟨_, rfl, rfl, rfl, rfl, ?_, rfl⟩
    intro d
    cases d with
    | zero => exact .inr rfl
    | succ d => exact .inl rfl
  have hdead : ∀ d, ¬(s.tasks d).live := by
    intro d hlive
    rcases htasks d with h | h
    · rw [h] at hlive
      exact hlive
    · rw [h] at hlive
      exact hlive
  refine ⟨s, run_reachable _ _ State.initial s (.init rfl) hrun,
    ⟨⟨0, 5, 0⟩, by rw [hacc]; simp, rfl⟩, ⟨hdrainer, hdead⟩, ?_⟩
  intro es t ht
  rw [resolved_run_of_dead es t ⟨hclosing, hdead⟩ ht, hres]
  simp [doneIds]

end Contract

end DbAgent.Coalescer
