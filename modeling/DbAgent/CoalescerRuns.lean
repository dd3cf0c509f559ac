import DbAgent.CoalescerInvariant

/-! Every step of the coalescer keeps its invariant, so every run with sound
answers does. -/
namespace DbAgent.Coalescer

open Transition List

variable {ε α : Type}

variable {s : State ε α}

section Groups

theorem set_last (groups : List (Group ε α)) (k : ℕ) (g : Group ε α)
    (hk : groups[k]? = some g) (hlast : k+1 = groups.length) :
    ∃ init, groups = init ++ [g] ∧ ∀ g', groups.set k g' = init ++ [g'] := by
  obtain ⟨hlt, hget⟩ := List.getElem?_eq_some_iff.mp hk
  have hlen : (groups.take k).length = k := by
    rw [length_take]
    omega
  have hdrop : groups.drop k = [g] := by
    rw [drop_eq_getElem_cons hlt, hget, drop_eq_nil_of_le (by omega)]
  have hsplit : groups = groups.take k ++ [g] := by
    rw [← hdrop, take_append_drop]
  refine ⟨groups.take k, hsplit, ?_⟩
  intro g'
  calc groups.set k g' = (groups.take k ++ [g]).set k g' := by rw [← hsplit]
    _ = groups.take k ++ [g].set (k-(groups.take k).length) g' :=
      set_append_right _ _ (Nat.le_of_eq hlen)
    _ = groups.take k ++ [g'] := by rw [hlen, Nat.sub_self, set_cons_zero]

theorem own_set (init : List (Group ε α)) (g g' : Group ε α) (hopen : g.phase.isOpen) (id : ℕ)
    (a : α) (h : Own (init ++ [g]) id a) : Own (init ++ [g']) id a := by
  obtain ⟨x, xs, k, y, hx, hphase, hrest⟩ := h
  rcases mem_append.mp hx with hold | hnew
  · exact ⟨x, xs, k, y, mem_append_left _ hold, hphase, hrest⟩
  · rw [mem_singleton.mp hnew] at hphase
    rw [hphase] at hopen
    exact hopen.elim

variable {k : ℕ} {g : Group ε α} (g' : Group ε α) (handed : List (List (Pending ε)))
  (hk : s.groups[k]? = some g) (hopen : g.phase.isOpen) (hbatch : g'.batch = g.batch)
  (hsound : g'.phase.Sound) (hhanded : ∀ init : List (List (Pending ε)),
    s.handed = init ++ (if g.phase.called then [g.batch] else []) →
    handed = init ++ (if g'.phase.called then [g.batch] else []))

include hk hopen hbatch hsound hhanded

theorem ledger_setGroup (h : Ledger s) :
    Ledger { s with groups := s.groups.set k g', handed := handed } := by
  obtain ⟨init, hsplit, hset⟩ := set_last s.groups k g hk (h.last k g hk hopen)
  have hinit : ∀ x ∈ init, x ∈ s.groups := by
    intro x hx
    rw [hsplit]
    exact mem_append_left _ hx
  refine ⟨h.ids, ?_, ?_, ?_, ?_, ?_, h.once, ?_, h.pending⟩
  · have hflat : (s.groups.set k g').flatMap Group.batch = s.groups.flatMap Group.batch := by
      rw [hset, hsplit, flatMap_append, flatMap_append]
      simp [hbatch]
    dsimp only
    rw [hflat]
    exact h.order
  · intro x hx
    dsimp only at hx
    rw [hset] at hx
    rcases mem_append.mp hx with hold | hnew
    · exact h.sizes x (hinit x hold)
    · rw [mem_singleton.mp hnew, hbatch]
      exact h.sizes g (mem_of_getElem? hk)
  · have hold := h.handed
    grind
  · intro j x hj hx
    dsimp only at hj ⊢
    rw [length_set]
    by_cases hjk : k = j
    · rw [← hjk]
      exact h.last k g hk hopen
    · rw [List.getElem?_set_ne hjk] at hj
      exact h.last j x hj hx
  · intro x hx
    dsimp only at hx
    rw [hset] at hx
    rcases mem_append.mp hx with hold | hnew
    · exact h.sound x (hinit x hold)
    · grind
  · intro id a hres
    -- an outcome comes from a group that has ended, and this one was open
    have hown := h.own id a hres
    grind [own_set]

theorem invariant_setGroup (h : Invariant s) :
    Invariant { s with groups := s.groups.set k g', handed := handed } where
  ledger := ledger_setGroup g' handed hk hopen hbatch hsound hhanded h.ledger
  slot := ⟨h.slot.live, h.slot.fresh, h.slot.failed, h.slot.closers⟩
  idle := by
    intro hd
    obtain ⟨hq, hi, hno⟩ := h.idle hd
    refine ⟨hq, hi, fun hf => ?_⟩
    exact absurd hopen (hno hf g (mem_of_getElem? hk))
  busy := by
    intro d hd
    have hbusy := h.busy d hd
    dsimp only
    cases hpc : s.tasks d with
    | executing batch j =>
      rw [hpc] at hbusy
      obtain ⟨hi, hlast, x, hx, hxb⟩ := hbusy
      -- the drainer waits for the open group, since both are the last one
      have hjk : k = j := by
        have hklast := h.ledger.last k g hk hopen
        omega
      subst hjk
      obtain rfl := Option.some.inj (hk.symm.trans hx)
      have hlt := (List.getElem?_eq_some_iff.mp hk).1
      have hlen : (s.groups.set k g').length = s.groups.length := length_set
      exact ⟨hi, hlast.trans hlen.symm, g', List.getElem?_set_self hlt, hbatch.trans hxb⟩
    | _ =>
      have hrest := resting_of_busy (s.tasks d) hbusy (by simp [hpc])
      exact absurd hopen (hrest.2 g (mem_of_getElem? hk))

end Groups

section Steps

inductive Step (s : State ε α) : Event ε α → State ε α → Prop
  | refuse (loop : ℕ) (event : ε) (now : ℤ) (h : s.failure ≠ none ∨ s.closing = true) :
    Step s (.submit loop event now) { s with loop := some loop }
  | accept (loop : ℕ) (event : ε) (now : ℤ) (hf : s.failure = none) (hc : s.closing = false) :
    Step s (.submit loop event now) (State.accept { s with loop := some loop } event now)
  | detach (id : ℕ) : Step s (.detach id) { s with detached := s.detached ++ [id] }
  | run (d : ℕ) (now : ℤ) (h : s.tasks d = .ready) : Step s (.run d now) (s.drainTop d now)
  | wake (d : ℕ) (now deadline : ℤ) (h : s.tasks d = .collecting deadline) :
    Step s (.wake d now) (s.awaitGroup d deadline now)
  | timeout (d : ℕ) (deadline : ℤ) (h : s.tasks d = .collecting deadline) :
    Step s (.timeout d) (s.takeGroup d)
  | call (g : ℕ) (batch : List (Pending ε)) (h : s.groups[g]? = some ⟨batch, .scheduled⟩) :
    Step s (.call g)
      { s with groups := s.groups.set g ⟨batch, .running⟩, handed := s.handed ++ [batch] }
  | answer (g : ℕ) (a : Answer α) (batch : List (Pending ε)) (phase : GroupPhase α)
      (h : s.groups[g]? = some ⟨batch, phase⟩) (hopen : phase.isOpen)
      (hcalled : ∀ xs, a = .sequence xs → phase.called = true) :
    Step s (.answer g a) { s with groups := s.groups.set g ⟨batch, .ended phase.called a⟩ }
  | complete (d : ℕ) (now : ℤ) (batch batch' : List (Pending ε)) (g : ℕ) (called : Bool)
      (a : Answer α) (h : s.tasks d = .executing batch g)
      (hg : s.groups[g]? = some ⟨batch', .ended called a⟩) :
    Step s (.complete d now) (s.finishBatch d now batch a)
  | cancel (d : ℕ) (h : (s.tasks d).live) : Step s (.cancel d) (s.crash d .cancelled)
  | close (c : ℕ) (h : s.closers c = .idle) :
    Step s (.close c) { s with
      closing := true
      arrival := true
      closers := Function.update s.closers c (s.drainer.elim .returned .waiting) }
  | closed (c d : ℕ) (b : Bool) (h : s.closers c = .waiting d) (hd : s.tasks d = .finished b) :
    Step s (.closed c) { s with closers := Function.update s.closers c .returned }
  | abandon (c d : ℕ) (h : s.closers c = .waiting d) :
    Step s (.abandon c) { s with closers := Function.update s.closers c .abandoned }

theorem step_sound (t : State ε α) (e : Event ε α) (h : s.step e = some t) : Step s e t := by
  unfold State.step at h
  cases e with
  | submit loop event now =>
    dsimp only at h
    split at h
    · cases h
    · split at h
      · next hrefuse =>
        obtain rfl := Option.some.inj h
        exact .refuse loop event now hrefuse
      · next haccept =>
        obtain rfl := Option.some.inj h
        rw [not_or, not_not, Bool.not_eq_true] at haccept
        exact .accept loop event now haccept.1 haccept.2
  | answer g a =>
    dsimp only at h
    split at h
    · next batch hg =>
      obtain rfl := Option.some.inj h
      exact .answer g _ batch .running hg trivial (fun _ _ => rfl)
    · next batch e hg =>
      obtain rfl := Option.some.inj h
      exact .answer g (.raised e) batch .scheduled hg trivial (fun _ hxs => (nomatch hxs))
    · cases h
  | cancel d =>
    dsimp only at h
    split at h
    · next hpc =>
      obtain rfl := Option.some.inj h
      exact .cancel d (by rw [hpc]; trivial)
    · next hpc =>
      obtain rfl := Option.some.inj h
      exact .cancel d (by rw [hpc]; trivial)
    · cases h
  | _ =>
    dsimp only at h
    grind [Step]

theorem ready_of_invariant (d : ℕ) (h : Invariant s) (hlive : (s.tasks d).live)
    (hpc : ∀ batch g, s.tasks d ≠ .executing batch g) : Ready s d := by
  have hd := (h.slot.live d).mp hlive
  obtain ⟨hi, hno⟩ := resting_of_busy (s.tasks d) (h.busy d hd) hpc
  exact ⟨h.ledger, h.slot, hd, hi, hno⟩

theorem invariant_initial : Invariant (State.initial : State ε α) where
  ledger := ⟨rfl, ⟨[], rfl, fun _ => rfl⟩, fun _ h => (nomatch h), rfl, fun _ _ h => (nomatch h),
    fun _ h => (nomatch h), nodup_nil, fun _ _ h => (nomatch h), fun _ h => (nomatch h)⟩
  slot := ⟨fun _ => ⟨fun h => h.elim, fun h => (nomatch h)⟩, fun _ _ => rfl,
    fun h => absurd rfl h, fun _ => trivial⟩
  idle := fun _ => ⟨rfl, rfl, fun _ _ h => (nomatch h)⟩
  busy := fun _ h => (nomatch h)

theorem ledger_accept (t : State ε α) (event : ε) (now : ℤ) (h : Ledger s) (hf : s.failure = none)
    (hqueue : t.queue = s.queue ++ [⟨s.accepted.length, event, now⟩])
    (haccepted : t.accepted = s.accepted ++ [⟨s.accepted.length, event, now⟩])
    (hgroups : t.groups = s.groups) (hhanded : t.handed = s.handed)
    (hresolved : t.resolved = s.resolved) (hinflight : t.inflight = s.inflight) : Ledger t := by
  refine ⟨?_, ?_, ?_, ?_, ?_, ?_, ?_, ?_, ?_⟩
  · rw [haccepted, map_append, length_append, length_singleton, range_succ,
      h.ids]
    rfl
  · obtain ⟨dropped, horder, hdropped⟩ := h.order
    obtain rfl := hdropped hf
    refine ⟨[], ?_, fun _ => rfl⟩
    grind
  · rw [hgroups]
    exact h.sizes
  · rw [hhanded, hgroups]
    exact h.handed
  · rw [hgroups]
    exact h.last
  · rw [hgroups]
    exact h.sound
  · rw [hresolved]
    exact h.once
  · rw [hresolved, hgroups]
    exact h.own
  · intro x hx hdone
    rw [haccepted] at hx
    rw [hresolved] at hdone
    rw [hqueue, hinflight]
    rcases mem_append.mp hx with hold | hnew
    · rcases h.pending x hold hdone with hq | hi
      · exact .inl (mem_append_left _ hq)
      · exact .inr hi
    · exact .inl (mem_append_right _ hnew)

theorem slot_spawn (t : State ε α) (hs : Slot s) (hd : s.drainer = none)
    (hclosers : ∀ c, s.closers c = .idle)
    (htasks : t.tasks = Function.update s.tasks s.nextTask .ready)
    (hdrainer : t.drainer = some s.nextTask) (hnext : t.nextTask = s.nextTask+1)
    (hfail : t.failure = none) (hsame : t.closers = s.closers) : Slot t where
  live := by
    intro d
    rw [htasks, hdrainer]
    by_cases h : d = s.nextTask
    · subst h
      rw [Function.update_self]
      exact ⟨fun _ => rfl, fun _ => trivial⟩
    · rw [Function.update_of_ne h, hs.live d, hd]
      grind
  fresh := by
    intro d h
    rw [hnext] at h
    rw [htasks, Function.update_of_ne (by omega)]
    exact hs.fresh d (by omega)
  failed := fun h => absurd hfail h
  closers := by
    intro c
    rw [hsame, hclosers c]
    trivial

theorem invariant_accept (s : State ε α) (loop : Option ℕ) (event : ε) (now : ℤ)
    (h : Invariant s) (hf : s.failure = none) (hc : s.closing = false) :
    Invariant (State.accept { s with loop := loop } event now) := by
  have hclosers : ∀ c, s.closers c = .idle := by
    intro c
    by_contra hne
    have hclosing := closing_of_closerOk _ (h.slot.closers c) hne
    exact absurd (hc.symm.trans hclosing) (by decide)
  unfold State.accept
  dsimp only
  cases hd : s.drainer with
  | some d =>
    have hlive : ∀ d', (s.tasks d').live ↔ some d = some d' := by
      intro d'
      rw [← hd]
      exact h.slot.live d'
    dsimp only
    refine ⟨ledger_accept _ event now h.ledger hf rfl rfl rfl rfl rfl rfl,
      ⟨hlive, h.slot.fresh, fun hfail => absurd hf hfail, ?_⟩, fun hnone => (nomatch hnone),
      fun d' hd' => h.busy d' (hd.trans hd')⟩
    intro c
    dsimp only
    rw [hclosers c]
    trivial
  | none =>
    obtain ⟨hq, hi, hno⟩ := h.idle hd
    dsimp only
    refine ⟨ledger_accept _ event now h.ledger hf rfl rfl rfl rfl rfl rfl,
      slot_spawn _ h.slot hd hclosers rfl rfl rfl hf rfl, fun hnone => (nomatch hnone), ?_⟩
    intro d' hd'
    obtain rfl : s.nextTask = d' := Option.some.inj hd'
    simp only [State.setTask, Function.update_self]
    exact ⟨hi, hno hf⟩

theorem invariant_setCloser (c : ℕ) (pc : CloserPc) (arrival closing : Bool) (h : Invariant s)
    (hclosing : s.closing = true → closing = true)
    (hpc : CloserOk { s with closing := closing } pc) :
    Invariant { s with
      closing := closing
      arrival := arrival
      closers := Function.update s.closers c pc } where
  ledger := ledger_of_eq _ h.ledger rfl
  slot := by
    refine ⟨h.slot.live, h.slot.fresh, ?_, ?_⟩
    · intro hf
      obtain ⟨hc, hd⟩ := h.slot.failed hf
      exact ⟨hclosing hc, hd⟩
    · intro c'
      dsimp only
      by_cases hc : c' = c
      · subst hc
        rw [Function.update_self]
        cases pc <;> exact hpc
      · rw [Function.update_of_ne hc]
        exact closerOk_mono _ _ (h.slot.closers c') hclosing (.inl rfl)
  idle := h.idle
  busy := fun d hd => h.busy d hd

theorem invariant_step (s t : State ε α) (e : Event ε α) (h : Invariant s) (he : e.Sound s)
    (hstep : Step s e t) : Invariant t := by
  cases hstep with
  | refuse loop event now _ =>
    exact ⟨ledger_of_eq _ h.ledger rfl,
      ⟨h.slot.live, h.slot.fresh, h.slot.failed, h.slot.closers⟩, h.idle, fun d hd => h.busy d hd⟩
  | accept loop event now hf hc => exact invariant_accept s _ event now h hf hc
  | detach id =>
    exact ⟨ledger_of_eq _ h.ledger rfl,
      ⟨h.slot.live, h.slot.fresh, h.slot.failed, h.slot.closers⟩, h.idle, fun d hd => h.busy d hd⟩
  | run d now hpc =>
    have hready := ready_of_invariant d h (by rw [hpc]; trivial) (by simp [hpc])
    exact invariant_drainTop now hready
  | wake d now deadline hpc =>
    have hready := ready_of_invariant d h (by rw [hpc]; trivial) (by simp [hpc])
    exact invariant_awaitGroup deadline now hready
  | timeout d deadline hpc =>
    have hready := ready_of_invariant d h (by rw [hpc]; trivial) (by simp [hpc])
    exact invariant_takeGroup hready
  | call g batch hg =>
    refine invariant_setGroup ⟨batch, .running⟩ _ hg trivial rfl ?_ ?_ h
    · exact fun _ _ hphase => (nomatch hphase)
    · intro init hinit
      rw [hinit]
      simp [GroupPhase.called]
  | answer g a batch phase hg hopen hcalled =>
    refine invariant_setGroup ⟨batch, .ended phase.called a⟩ _ hg hopen rfl ?_ ?_ h
    · intro called a' hphase
      cases hphase
      exact ⟨he, hcalled⟩
    · exact fun init hinit => hinit
  | complete d now batch batch' g called a hpc hg =>
    have hd := (h.slot.live d).mp (by rw [hpc]; trivial)
    have hbusy := h.busy d hd
    rw [hpc] at hbusy
    obtain ⟨hfly, hlast, x, hx, rfl⟩ := hbusy
    obtain rfl := Option.some.inj (hg.symm.trans hx)
    -- only the last group can be open, and it has ended
    have hno : NoOpen s.groups := by
      intro y hy hopen
      obtain ⟨j, hj⟩ := List.getElem?_of_mem hy
      have hjlast := h.ledger.last j y hj hopen
      obtain rfl : j = g := by omega
      obtain rfl := Option.some.inj (hg.symm.trans hj)
      exact hopen
    exact invariant_finishBatch now _ called a h.ledger h.slot hd hno hfly
      (mem_of_getElem? hg) rfl
  | cancel d hlive =>
    exact invariant_crash .cancelled h.ledger h.slot ((h.slot.live d).mp hlive)
  | close c _ =>
    apply invariant_setCloser c _ true true h (fun _ => rfl)
    cases hd : s.drainer with
    | none => exact ⟨rfl, rfl⟩
    | some d => exact ⟨rfl, .inr rfl⟩
  | closed c d b hc hpc =>
    have hok := h.slot.closers c
    rw [hc] at hok
    apply invariant_setCloser c .returned s.arrival s.closing h (fun hclosing => hclosing)
    refine ⟨hok.1, ?_⟩
    -- the task it waited for is over, and the slot held no other
    rcases hok.2 with hnone | hsome
    · exact hnone
    · have hlive := (h.slot.live d).mpr hsome
      rw [hpc] at hlive
      exact hlive.elim
  | abandon c d hc =>
    have hok := h.slot.closers c
    rw [hc] at hok
    exact invariant_setCloser c .abandoned s.arrival s.closing h (fun hclosing => hclosing) hok.1

theorem invariant_reachVia (s : State ε α) (hs : (system ε α).ReachVia Event.Sound s) :
    Invariant s := by
  apply reachVia_invariant (system ε α) Event.Sound Invariant
  · rintro s rfl
    exact invariant_initial
  · intro s e t _ he h hstep
    exact invariant_step s t e h he (step_sound t e hstep)
  · exact hs

end Steps

end DbAgent.Coalescer
