import Mathlib.Data.List.Nodup
import Mathlib.Data.List.Flatten
import DbAgent.Coalescer

/-! The invariant of the coalescer: who owns each accepted item between its
acceptance and its outcome, and what the drainer slot says about the tasks. -/
namespace DbAgent.Coalescer

open List

variable {ε α : Type}

variable {batch : List (Pending ε)}

variable {log : List (ℕ × Resolution α)}

section Settling

def doneIds (log : List (ℕ × Resolution α)) : List ℕ := log.map Prod.fst

theorem mem_settle (id : ℕ) (r : Resolution α) (p : ℕ × Resolution α) (h : p ∈ settle log id r) :
    p ∈ log ∨ p = (id, r) := by
  grind [settle, mem_singleton]

theorem doneIds_settle (log : List (ℕ × Resolution α)) (id : ℕ) (r : Resolution α) :
    doneIds log ⊆ doneIds (settle log id r) ∧ id ∈ doneIds (settle log id r) := by
  grind [settle, doneIds]

theorem nodup_settle (id : ℕ) (r : Resolution α) (h : (doneIds log).Nodup) :
    (doneIds (settle log id r)).Nodup := by
  grind [settle, doneIds]

structure Settled (log log' : List (ℕ × Resolution α)) (batch : List (Pending ε))
    (new : ℕ × Resolution α → Prop) : Prop where
  grows : doneIds log ⊆ doneIds log'
  members : ∀ x ∈ batch, x.id ∈ doneIds log'
  nodup : (doneIds log).Nodup → (doneIds log').Nodup
  entries : ∀ p ∈ log', p ∈ log ∨ new p

theorem settled_settleAll (e : Exc) (log : List (ℕ × Resolution α)) (batch : List (Pending ε)) :
    Settled log (settleAll e log batch) batch (fun p => p.2 = .exception e) := by
  induction batch generalizing log with
  | nil => exact ⟨fun _ h => h, fun _ h => (nomatch h), fun h => h, fun _ h => .inl h⟩
  | cons x batch ih =>
    obtain ⟨hgrow, hmem⟩ := doneIds_settle log x.id (.exception e)
    have hrest := ih (settle log x.id (.exception e))
    refine ⟨fun _ h => hrest.grows (hgrow h), ?_, ?_, ?_⟩
    · intro y hy
      rcases mem_cons.mp hy with rfl | hy
      · exact hrest.grows hmem
      · exact hrest.members y hy
    · intro h
      exact hrest.nodup (nodup_settle x.id _ h)
    · intro p hp
      rcases hrest.entries p hp with hold | hnew
      · rcases mem_settle _ _ _ hold with hlog | rfl
        · exact .inl hlog
        · exact .inr rfl
      · exact .inr hnew

def FromAnswer (batch : List (Pending ε)) (xs : List (Element α)) (p : ℕ × Resolution α) :
    Prop :=
  ∃ (k : ℕ) (x : Pending ε) (el : Element α), batch[k]? = some x ∧ xs[k]? = some el ∧ p.1 = x.id ∧
    ∀ a, p.2 = .result a → el = .value a

theorem fromAnswer_cons (x : Pending ε) (el : Element α) (xs : List (Element α))
    (p : ℕ × Resolution α) (h : FromAnswer batch xs p) : FromAnswer (x :: batch) (el :: xs) p := by
  obtain ⟨k, y, el', hy, hel, hrest⟩ := h
  exact ⟨k+1, y, el', hy, hel, hrest⟩

theorem settled_settleEach (xs : List (Element α)) (log : List (ℕ × Resolution α))
    (hlen : xs.length = batch.length) (hxs : ∀ x ∈ xs, x ≠ .stopIteration) :
    (settleEach log batch xs).2 = false ∧
      Settled log (settleEach log batch xs).1 batch (FromAnswer batch xs) := by
  induction batch generalizing log xs with
  | nil =>
    have hnil : settleEach log ([] : List (Pending ε)) xs = (log, false) := by
      cases xs <;> simp [settleEach]
    rw [hnil]
    exact ⟨rfl, fun _ h => h, fun _ h => (nomatch h), fun h => h, fun _ h => .inl h⟩
  | cons x batch ih =>
    cases xs with
    | nil => cases hlen
    | cons el xs =>
      have hlen' : xs.length = batch.length := by simpa using hlen
      have hxs' : ∀ y ∈ xs, y ≠ .stopIteration := fun y hy => hxs y (mem_cons_of_mem el hy)
      -- both kinds of element settle the head and go on
      have hstep : ∀ r : Resolution α, (∀ a, r = .result a → el = .value a) →
          settleEach log (x :: batch) (el :: xs) = settleEach (settle log x.id r) batch xs →
          (settleEach log (x :: batch) (el :: xs)).2 = false ∧
            Settled log (settleEach log (x :: batch) (el :: xs)).1 (x :: batch)
              (FromAnswer (x :: batch) (el :: xs)) := by
        intro r hr heq
        obtain ⟨hflag, hrest⟩ := ih xs (settle log x.id r) hlen' hxs'
        obtain ⟨hgrow, hmem⟩ := doneIds_settle log x.id r
        rw [heq]
        refine ⟨hflag, fun _ h => hrest.grows (hgrow h), ?_, ?_, ?_⟩
        · intro y hy
          rcases mem_cons.mp hy with rfl | hy
          · exact hrest.grows hmem
          · exact hrest.members y hy
        · intro h
          exact hrest.nodup (nodup_settle x.id r h)
        · intro p hp
          rcases hrest.entries p hp with hold | hnew
          · rcases mem_settle _ _ _ hold with hlog | rfl
            · exact .inl hlog
            · exact .inr ⟨0, x, el, rfl, rfl, rfl, hr⟩
          · exact .inr (fromAnswer_cons x el xs p hnew)
      cases el with
      | value a => grind [settleEach]
      | exception e => grind [settleEach]
      | stopIteration => exact absurd rfl (hxs _ mem_cons_self)

end Settling

def DrainerPc.live : DrainerPc ε → Prop
  | .absent => False
  | .ready => True
  | .collecting _ => True
  | .executing _ _ => True
  | .finished _ => False

def GroupPhase.isOpen : GroupPhase α → Prop
  | .scheduled => True
  | .running => True
  | .ended _ _ => False

def GroupPhase.called : GroupPhase α → Bool
  | .scheduled => false
  | .running => true
  | .ended called _ => called

def Own (groups : List (Group ε α)) (id : ℕ) (a : α) : Prop :=
  ∃ (g : Group ε α) (xs : List (Element α)) (k : ℕ) (x : Pending ε),
    g ∈ groups ∧ g.phase = .ended true (.sequence xs) ∧
    g.batch[k]? = some x ∧ x.id = id ∧ xs[k]? = some (.value a)

def GroupPhase.Sound (phase : GroupPhase α) : Prop :=
  ∀ called a, phase = .ended called a → a.Sound ∧ ∀ xs, a = .sequence xs → called = true

def NoOpen (groups : List (Group ε α)) : Prop := ∀ g ∈ groups, ¬g.phase.isOpen

/-- The history: items pass from the queue into groups in order, only the last
group can be open, and an item that is not resolved is queued or in flight. -/
structure Ledger (s : State ε α) : Prop where
  ids : s.accepted.map Pending.id = List.range s.accepted.length
  order : ∃ dropped, s.groups.flatMap Group.batch ++ s.queue ++ dropped = s.accepted ∧
    (s.failure = none → dropped = [])
  sizes : ∀ g ∈ s.groups, g.batch ≠ [] ∧ g.batch.length ≤ batchSize
  handed : s.handed = (s.groups.filter (fun g => g.phase.called)).map Group.batch
  last : ∀ k g, s.groups[k]? = some g → g.phase.isOpen → k+1 = s.groups.length
  sound : ∀ g ∈ s.groups, g.phase.Sound
  once : (doneIds s.resolved).Nodup
  own : ∀ id a, (id, .result a) ∈ s.resolved → Own s.groups id a
  pending : ∀ x ∈ s.accepted, x.id ∉ doneIds s.resolved → x ∈ s.queue ∨ x ∈ s.inflight

/-- What a call of `close` knows. -/
def CloserOk (s : State ε α) : CloserPc → Prop
  | .idle => True
  | .waiting d => s.closing = true ∧ (s.drainer = none ∨ s.drainer = some d)
  | .returned => s.closing = true ∧ s.drainer = none
  | .abandoned => s.closing = true

/-- The slot holds the one live drainer, and a failure empties it for good. -/
structure Slot (s : State ε α) : Prop where
  live : ∀ d, (s.tasks d).live ↔ s.drainer = some d
  fresh : ∀ d, s.nextTask ≤ d → s.tasks d = .absent
  failed : s.failure ≠ none → s.closing = true ∧ s.drainer = none
  closers : ∀ c, CloserOk s (s.closers c)

def Busy (s : State ε α) : DrainerPc ε → Prop
  | .executing batch k => s.inflight = batch ∧ k+1 = s.groups.length ∧
      ∃ g, s.groups[k]? = some g ∧ g.batch = batch
  | _ => s.inflight = [] ∧ NoOpen s.groups

structure Invariant (s : State ε α) : Prop where
  ledger : Ledger s
  slot : Slot s
  idle : s.drainer = none →
    s.queue = [] ∧ s.inflight = [] ∧ (s.failure = none → NoOpen s.groups)
  busy : ∀ d, s.drainer = some d → Busy s (s.tasks d)

structure Ready (s : State ε α) (d : ℕ) : Prop where
  ledger : Ledger s
  slot : Slot s
  drainer : s.drainer = some d
  inflight : s.inflight = []
  noOpen : NoOpen s.groups

variable {s : State ε α} {d : ℕ}

theorem ready_failure (hs : Slot s) (hd : s.drainer = some d) : s.failure = none := by
  by_contra hf
  rw [(hs.failed hf).2] at hd
  cases hd

theorem not_live_of_ne (d' : ℕ) (hs : Slot s) (hd : s.drainer = some d) (hne : d' ≠ d) :
    ¬(s.tasks d').live := by
  intro hlive
  have heq := ((hs.live d').mp hlive).symm.trans hd
  exact hne (Option.some.inj heq)

theorem lt_nextTask (hs : Slot s) (hd : s.drainer = some d) : d < s.nextTask := by
  by_contra hge
  have hlive := (hs.live d).mpr hd
  rw [hs.fresh d (by omega)] at hlive
  exact hlive

theorem ledger_of_eq (t : State ε α) (h : Ledger s)
    (ht : (t.accepted, t.queue, t.inflight, t.groups, t.failure, t.handed, t.resolved) =
      (s.accepted, s.queue, s.inflight, s.groups, s.failure, s.handed, s.resolved)) : Ledger t := by
  simp only [Prod.mk.injEq] at ht
  obtain ⟨haccepted, hqueue, hinflight, hgroups, hfailure, hhanded, hresolved⟩ := ht
  constructor
  · rw [haccepted]
    exact h.ids
  · rw [hgroups, hqueue, haccepted, hfailure]
    exact h.order
  · rw [hgroups]
    exact h.sizes
  · rw [hhanded, hgroups]
    exact h.handed
  · rw [hgroups]
    exact h.last
  · rw [hgroups]
    exact h.sound
  · rw [hresolved]
    exact h.once
  · rw [hresolved, hgroups]
    exact h.own
  · rw [haccepted, hresolved, hqueue, hinflight]
    exact h.pending

theorem closing_of_closerOk (pc : CloserPc) (h : CloserOk s pc) (hpc : pc ≠ .idle) :
    s.closing = true := by
  cases pc with
  | idle => exact absurd rfl hpc
  | waiting d => exact h.1
  | returned => exact h.1
  | abandoned => exact h

/-- What a call of `close` knows stays true when the slot is emptied. -/
theorem closerOk_mono (t : State ε α) (pc : CloserPc) (h : CloserOk s pc)
    (hclosing : s.closing = true → t.closing = true)
    (hdrainer : t.drainer = s.drainer ∨ t.drainer = none) : CloserOk t pc := by
  cases pc with
  | idle => trivial
  | waiting d =>
    refine ⟨hclosing h.1, ?_⟩
    rcases hdrainer with hsame | hnone
    · rw [hsame]
      exact h.2
    · exact .inl hnone
  | returned =>
    refine ⟨hclosing h.1, ?_⟩
    rcases hdrainer with hsame | hnone
    · exact hsame.trans h.2
    · exact hnone
  | abandoned => exact hclosing h

theorem resting_of_busy (pc : DrainerPc ε) (h : Busy s pc)
    (hpc : ∀ batch k, pc ≠ .executing batch k) : s.inflight = [] ∧ NoOpen s.groups := by
  cases pc with
  | executing batch k => exact absurd rfl (hpc batch k)
  | absent => exact h
  | ready => exact h
  | collecting deadline => exact h
  | finished b => exact h

section Draining

theorem slot_setTask (t : State ε α) (pc : DrainerPc ε) (hs : Slot s) (hd : s.drainer = some d)
    (hpc : pc.live) (htasks : t.tasks = Function.update s.tasks d pc)
    (hdrainer : t.drainer = s.drainer) (hnext : t.nextTask = s.nextTask)
    (hfail : t.failure = s.failure) (hclosing : t.closing = s.closing)
    (hclosers : t.closers = s.closers) : Slot t where
  live := by
    intro d'
    rw [htasks, hdrainer]
    by_cases h : d' = d
    · grind
    · rw [Function.update_of_ne h]
      exact hs.live d'
  fresh := by
    intro d' hd'
    have hlt := lt_nextTask hs hd
    rw [hnext] at hd'
    rw [htasks, Function.update_of_ne (by omega)]
    exact hs.fresh d' hd'
  failed := by
    rw [hfail, hclosing, hdrainer]
    exact hs.failed
  closers := by
    intro c
    rw [hclosers]
    exact closerOk_mono t _ (hs.closers c) (fun h => hclosing.trans h) (.inl hdrainer)

theorem slot_finish (t : State ε α) (b : Bool) (hs : Slot s) (hd : s.drainer = some d)
    (htasks : t.tasks = Function.update s.tasks d (.finished b)) (hdrainer : t.drainer = none)
    (hnext : t.nextTask = s.nextTask) (hfail : t.failure ≠ none → t.closing = true)
    (hclosing : s.closing = true → t.closing = true) (hclosers : t.closers = s.closers) :
    Slot t where
  live := by
    intro d'
    rw [htasks, hdrainer]
    by_cases h : d' = d
    · subst h
      rw [Function.update_self]
      exact ⟨fun hlive => hlive.elim, fun hnone => (nomatch hnone)⟩
    · grind [not_live_of_ne]
  fresh := by
    intro d' hd'
    have hlt := lt_nextTask hs hd
    rw [hnext] at hd'
    rw [htasks, Function.update_of_ne (by omega)]
    exact hs.fresh d' hd'
  failed := fun hf => ⟨hfail hf, hdrainer⟩
  closers := by
    intro c
    rw [hclosers]
    exact closerOk_mono t _ (hs.closers c) hclosing (.inr hdrainer)

theorem invariant_exitDrain (h : Ready s d) (hq : s.queue = []) :
    Invariant (s.exitDrain d) where
  ledger := ledger_of_eq _ h.ledger rfl
  slot := slot_finish _ false h.slot h.drainer rfl rfl rfl
    (fun hf => absurd (ready_failure h.slot h.drainer) hf) (fun hc => hc) rfl
  idle := fun _ => ⟨hq, h.inflight, fun _ => h.noOpen⟩
  busy := fun _ hd => (nomatch hd)

theorem invariant_collect (deadline : ℤ) (h : Ready s d) :
    Invariant (s.setTask d (.collecting deadline)) where
  ledger := ledger_of_eq _ h.ledger rfl
  slot := slot_setTask _ (.collecting deadline) h.slot h.drainer trivial rfl rfl rfl rfl rfl rfl
  idle := fun hd => (nomatch hd.symm.trans h.drainer)
  busy := by
    intro d' hd'
    obtain rfl : d = d' := Option.some.inj (h.drainer.symm.trans hd')
    have hpc : (s.setTask d (.collecting deadline)).tasks d = .collecting deadline :=
      Function.update_self _ _ _
    rw [hpc]
    exact ⟨h.inflight, h.noOpen⟩

theorem last_append (groups : List (Group ε α)) (new : Group ε α) (hno : NoOpen groups)
    (k : ℕ) (g : Group ε α) (hk : (groups ++ [new])[k]? = some g) (hg : g.phase.isOpen) :
    k+1 = (groups ++ [new]).length := by
  rw [length_append, length_singleton]
  by_cases hlt : k < groups.length
  · rw [List.getElem?_append_left hlt] at hk
    exact absurd hg (hno g (mem_of_getElem? hk))
  · grind

theorem own_append (groups : List (Group ε α)) (new : Group ε α) (id : ℕ) (a : α)
    (h : Own groups id a) : Own (groups ++ [new]) id a := by
  obtain ⟨g, xs, k, x, hg, hrest⟩ := h
  exact ⟨g, xs, k, x, mem_append_left _ hg, hrest⟩

theorem ledger_takeGroup (h : Ready s d) (hbatch : s.queue.take batchSize = batch)
    (hne : batch ≠ []) :
    Ledger { s with
      queue := s.queue.drop batchSize
      inflight := batch
      groups := s.groups ++ [⟨batch, .scheduled⟩] } := by
  have hsplit : s.queue = batch ++ s.queue.drop batchSize := by
    rw [← hbatch, take_append_drop]
  refine ⟨h.ledger.ids, ?_, ?_, ?_, last_append s.groups _ h.noOpen, ?_, h.ledger.once, ?_, ?_⟩
  · obtain ⟨dropped, horder, hdropped⟩ := h.ledger.order
    grind
  · intro g hg
    rcases mem_append.mp hg with hold | hnew
    · exact h.ledger.sizes g hold
    · grind
  · -- the new group has not been called yet
    have hhanded := h.ledger.handed
    simp only [filter_append, map_append, hhanded]
    simp [GroupPhase.called]
  · intro g hg
    rcases mem_append.mp hg with hold | hnew
    · exact h.ledger.sound g hold
    · rw [mem_singleton.mp hnew]
      exact fun _ _ hphase => (nomatch hphase)
  · intro id a hres
    exact own_append _ _ _ _ (h.ledger.own id a hres)
  · intro y hy hdone
    rcases h.ledger.pending y hy hdone with hqueue | hfly
    · grind
    · rw [h.inflight] at hfly
      cases hfly

theorem invariant_takeGroup (h : Ready s d) : Invariant (s.takeGroup d) := by
  unfold State.takeGroup
  split
  · next hbatch =>
    exact invariant_exitDrain h ((take_eq_nil_iff.mp hbatch).resolve_left (by decide))
  · next x xs hbatch =>
    have hledger := ledger_takeGroup h hbatch (by simp)
    refine ⟨ledger_of_eq _ hledger rfl, ?_, ?_, ?_⟩
    · exact slot_setTask _ (.executing (x :: xs) s.groups.length) h.slot h.drainer trivial rfl
        rfl rfl rfl rfl rfl
    · exact fun hd => (nomatch hd.symm.trans h.drainer)
    · intro d' hd'
      obtain rfl : d = d' := Option.some.inj (h.drainer.symm.trans hd')
      simp only [State.setTask, Function.update_self]
      exact ⟨rfl, by simp, _, List.getElem?_concat_length, rfl⟩

theorem ready_arrival (b : Bool) (h : Ready s d) :
    Ready { s with arrival := b } d where
  ledger := ledger_of_eq _ h.ledger rfl
  slot := ⟨h.slot.live, h.slot.fresh, h.slot.failed, h.slot.closers⟩
  drainer := h.drainer
  inflight := h.inflight
  noOpen := h.noOpen

theorem invariant_awaitGroup (deadline now : ℤ) (h : Ready s d) :
    Invariant (s.awaitGroup d deadline now) := by
  unfold State.awaitGroup
  split
  · exact invariant_takeGroup h
  · dsimp only
    split
    · exact invariant_takeGroup (ready_arrival false h)
    · exact invariant_collect deadline (ready_arrival false h)

theorem invariant_drainTop (now : ℤ) (h : Ready s d) : Invariant (s.drainTop d now) := by
  unfold State.drainTop
  split
  · next hq => exact invariant_exitDrain h hq
  · split
    · exact invariant_takeGroup h
    · exact invariant_awaitGroup _ now h

/-- `_fail_everything` resolves whatever was queued or in flight. -/
theorem invariant_crash (e : Exc) (hl : Ledger s) (hs : Slot s) (hd : s.drainer = some d) :
    Invariant (s.crash d e) := by
  have hfail := ready_failure hs hd
  -- the handlers differ in the exception they pass on and in how the task ends
  have hgeneral : ∀ e' b, Invariant ((s.failEverything e').setTask d (.finished b)) := by
    intro e' b
    have hfly := settled_settleAll e' s.resolved s.inflight
    have hqueue := settled_settleAll e' (settleAll e' s.resolved s.inflight) s.queue
    obtain ⟨dropped, horder, hdropped⟩ := hl.order
    obtain rfl := hdropped hfail
    constructor
    -- what was queued is dropped: it is resolved and will never be in a group
    · refine ⟨hl.ids, ⟨s.queue, ?_, fun hf => (nomatch hf)⟩, hl.sizes, hl.handed, hl.last,
        hl.sound, hqueue.nodup (hfly.nodup hl.once), ?_, ?_⟩
      · simpa [State.setTask, State.failEverything] using horder
      · intro id a hres
        rcases hqueue.entries _ hres with hres | hexc
        · rcases hfly.entries _ hres with hres | hexc
          · exact hl.own id a hres
          · cases hexc
        · cases hexc
      · intro x hx hdone
        exfalso
        apply hdone
        by_cases hold : x.id ∈ doneIds s.resolved
        · exact hqueue.grows (hfly.grows hold)
        · rcases hl.pending x hx hold with hq | hi
          · exact hqueue.members x hq
          · exact hqueue.grows (hfly.members x hi)
    · exact slot_finish _ b hs hd rfl rfl rfl (fun _ => rfl) (fun _ => rfl) rfl
    · exact fun _ => ⟨rfl, rfl, fun hf => (nomatch hf)⟩
    · exact fun _ hnone => (nomatch hnone)
  cases e <;> exact hgeneral _ _

theorem ready_settled (new : ℕ × Resolution α → Prop) (hl : Ledger s) (hs : Slot s)
    (hd : s.drainer = some d) (hno : NoOpen s.groups) (hfly : s.inflight = batch)
    (hlog : Settled s.resolved log batch new)
    (hnew : ∀ p a, new p → p.2 = .result a → Own s.groups p.1 a) :
    Ready { s with inflight := [], resolved := log } d where
  ledger := by
    refine ⟨hl.ids, hl.order, hl.sizes, hl.handed, hl.last, hl.sound, hlog.nodup hl.once, ?_, ?_⟩
    · intro id a hres
      rcases hlog.entries _ hres with hold | hentry
      · exact hl.own id a hold
      · exact hnew (id, .result a) a hentry rfl
    · intro x hx hdone
      have hold : x.id ∉ doneIds s.resolved := fun h => hdone (hlog.grows h)
      rcases hl.pending x hx hold with hq | hi
      · exact .inl hq
      · rw [hfly] at hi
        exact absurd (hlog.members x hi) hdone
  slot := ⟨hs.live, hs.fresh, hs.failed, hs.closers⟩
  drainer := hd
  inflight := rfl
  noOpen := hno

theorem invariant_failBatch (now : ℤ) (e : Exc) (hl : Ledger s) (hs : Slot s)
    (hd : s.drainer = some d) (hno : NoOpen s.groups) (hfly : s.inflight = batch) :
    Invariant (s.failBatch d now batch e) := by
  apply invariant_drainTop
  grind [ready_settled, settled_settleAll]

/-- `_run_batch` settles its members or leaves them to `_fail_everything`, as
long as the answer is sound. -/
theorem invariant_finishBatch (now : ℤ) (g : Group ε α) (called : Bool) (a : Answer α)
    (hl : Ledger s) (hs : Slot s) (hd : s.drainer = some d) (hno : NoOpen s.groups)
    (hfly : s.inflight = g.batch) (hg : g ∈ s.groups) (hphase : g.phase = .ended called a) :
    Invariant (s.finishBatch d now g.batch a) := by
  obtain ⟨hsound, hcalled⟩ := hl.sound g hg called a hphase
  cases a with
  | raised e =>
    cases e with
    | cancelled => exact invariant_crash .cancelled hl hs hd
    | closed _ => exact invariant_failBatch now _ hl hs hd hno hfly
    | runtimeError _ => exact invariant_failBatch now _ hl hs hd hno hfly
    | typeError => exact invariant_failBatch now _ hl hs hd hno hfly
    | other _ => exact invariant_failBatch now _ hl hs hd hno hfly
  | notIterable typeName => exact invariant_failBatch now _ hl hs hd hno hfly
  | iterationRaises e => exact hsound.elim
  | sequence xs =>
    rw [State.finishBatch]
    split
    · exact invariant_failBatch now _ hl hs hd hno hfly
    · next hlen =>
      obtain ⟨hflag, hlog⟩ := settled_settleEach xs s.resolved (not_not.mp hlen) hsound
      obtain rfl := hcalled xs rfl
      -- each result stands at its item's own position in the answer
      have hready := ready_settled _ hl hs hd hno hfly hlog (by
        rintro p a ⟨k, x, el, hx, hel, hid, hval⟩ hres
        rw [hval a hres] at hel
        exact ⟨g, xs, k, x, hg, hphase, hx, hid.symm, hel⟩)
      grind [invariant_drainTop]

end Draining

end DbAgent.Coalescer
