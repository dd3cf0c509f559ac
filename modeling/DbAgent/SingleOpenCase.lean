import DbAgent.SlotWorld
import DbAgent.IngestStatements

/-! One open case per slot: the advisory lock is held from before the deciding
re-read until after the commit, so a later open of the slot has read the rows
of every earlier one. -/
namespace DbAgent.Ingest

open Transition List

structure OpenRecord.VisibleIn (o : OpenRecord) (st : Store) : Prop where
  event : ∃ row ∈ st.events, row.eventId = o.event.eventId ∧ row.disposition = .opened ∧
    row.AttachedTo o.event.platformKey o.event.fingerprint o.investigationId
  investigation : ∃ row ∈ st.investigations, row.investigationId = o.investigationId

/-- The re-read had no reason to merge into the case of `o`: it was terminal,
or all its events in the slot were older than the window. -/
def Reread.PassesOver (d : Reread) (o : OpenRecord) : Prop :=
  (∀ row ∈ d.snapshot.investigations, row.investigationId = o.investigationId →
    row.status ∈ terminalStatuses) ∨
  ∀ row ∈ d.snapshot.events,
    row.AttachedTo o.event.platformKey o.event.fingerprint o.investigationId →
    row.receivedSince d.start = false

def SingleOpen (earlier later : OpenRecord) : Prop :=
  slotOf later.event = slotOf earlier.event →
    earlier.VisibleIn later.reread.snapshot ∧ later.reread.PassesOver earlier

def WritesFor (event : AlertEvent) (ws : Writes) : Response → Prop
  | .opened inv => ∃ budget clock, ws = openWrites event inv budget clock
  | .merged inv => ∃ clock, ws = mergeWrites event inv clock
  | .rejected reason => ∃ clock, ws = rejectWrites event reason clock

variable {w : World} {q : ℕ} {event : AlertEvent} {pc : RequestPc} {st : Store} {ws : Writes}

section Invariant

variable (G : Gateway)

def Holds (w : World) (q : ℕ) (event : AlertEvent) : Prop :=
  w.locks (G.lockKey (slotOf event)) = some q

def Recorded (w : World) (q : ℕ) (event : AlertEvent) (r : Response) : Prop :=
  ∀ inv, r = .opened inv →
    ∃ o ∈ w.opened, o.request = q ∧ o.event = event ∧ o.investigationId = inv

def RequestOk (w : World) (q : ℕ) : RequestPc → Prop
  | .rejecting event reason ws => WritesFor event ws (.rejected reason)
  | .locked event _ => Holds G w q event
  | .decided event d r ws =>
    Holds G w q event ∧ WritesFor event ws r ∧ (event, d) ∈ w.rereads ∧
      ∀ inv, r = .opened inv → ∀ o ∈ w.opened, SingleOpen o ⟨q, event, inv, d⟩
  | .committed event r => Holds G w q event ∧ Recorded w q event r
  | .answered event r => Recorded w q event r
  | _ => True

structure Invariant (w : World) : Prop where
  requests : ∀ q, RequestOk G w q (w.requests q)
  visible : ∀ o ∈ w.opened, o.VisibleIn w.store
  rereads : ∀ o ∈ w.opened, (o.event, o.reread) ∈ w.rereads
  single : w.opened.Pairwise SingleOpen

/-- What a step of `actor` leaves to the other requests: their locks, the
history, and that only the holder of a slot's lock adds an open to it. -/
structure Moves (w w' : World) (actor : Option ℕ) : Prop where
  locks : ∀ q k, actor ≠ some q → w.locks k = some q → w'.locks k = some q
  opened : ∃ new, w'.opened = w.opened ++ new ∧ ∀ o ∈ new, ∃ q, actor = some q ∧ Holds G w q o.event
  rereads : w.rereads ⊆ w'.rereads

theorem moves_refl (w' : World) (actor : Option ℕ) (hl : w'.locks = w.locks)
    (ho : w'.opened = w.opened) (hr : w'.rereads = w.rereads) : Moves G w w' actor where
  locks := fun q k _ h => hl ▸ h
  opened := ⟨[], by simp [ho], by simp⟩
  rereads := by simp [hr]

theorem recorded_mono (w' : World) (r : Response) (hsub : w.opened ⊆ w'.opened)
    (h : Recorded w q event r) : Recorded w' q event r := by
  intro inv hr
  obtain ⟨o, ho, hrest⟩ := h inv hr
  grind

/-- The facts about a request survive the steps of others. For a decided open
the lock is what keeps another open of the slot away. -/
theorem requestOk_move (w' : World) (actor : Option ℕ) (hm : Moves G w w' actor)
    (hq : actor ≠ some q) (h : RequestOk G w q pc) : RequestOk G w' q pc := by
  obtain ⟨new, hnew, hheld⟩ := hm.opened
  have hsub : w.opened ⊆ w'.opened := by
    rw [hnew]
    exact subset_append_left _ _
  cases pc with
  | idle => trivial
  | queued event => trivial
  | grouped event b hit => trivial
  | missed event => trivial
  | rejecting event reason ws => exact h
  | admitted event a => trivial
  | locked event a => exact hm.locks q _ hq h
  | decided event d r ws =>
    obtain ⟨hlock, hws, hread, hsingle⟩ := h
    refine ⟨hm.locks q _ hq hlock, hws, hm.rereads hread, ?_⟩
    intro inv hr o ho
    rw [hnew] at ho
    rcases mem_append.mp ho with hold | hadded
    · grind
    · -- the open that was just added would need the same lock
      intro hslot
      obtain ⟨q', ha, hq'⟩ := hheld o hadded
      have hkey : w.locks (G.lockKey (slotOf event)) = some q' := by
        have hs : slotOf event = slotOf o.event := hslot
        rw [hs]
        exact hq'
      have heq : q' = q := Option.some.inj (hkey.symm.trans hlock)
      grind
  | committed event r =>
    exact ⟨hm.locks q _ hq h.1, recorded_mono w' r hsub h.2⟩
  | answered event r => exact recorded_mono w' r hsub h
  | failed event => trivial

structure Grows (st st' : Store) : Prop where
  events : st.events ⊆ st'.events
  investigations : ∀ row ∈ st.investigations,
    ∃ row' ∈ st'.investigations, row'.investigationId = row.investigationId

theorem grows_refl (st : Store) : Grows st st :=
  ⟨fun _ h => h, fun row h => ⟨row, h, rfl⟩⟩

theorem grows_commit (st' : Store) (h : st.commit ws = some st') : Grows st st' := by
  rw [commit_ok st st' ws h]
  exact ⟨subset_append_left _ _, fun row hr => ⟨row, mem_append_left _ hr, rfl⟩⟩

theorem grows_setStatus (st : Store) (inv : Uuid) (status : Status) :
    Grows st (st.setStatus inv status) where
  events := fun _ h => h
  investigations := by
    intro row hr
    refine ⟨_, mem_map_of_mem hr, ?_⟩
    split <;> rfl

theorem visibleIn_grows (o : OpenRecord) (st' : Store) (hg : Grows st st') (h : o.VisibleIn st) :
    o.VisibleIn st' := by
  obtain ⟨⟨row, hr, hrest⟩, ⟨inv, hi, hid⟩⟩ := h
  obtain ⟨inv', hi', hid'⟩ := hg.investigations inv hi
  exact ⟨⟨row, hg.events hr, hrest⟩, ⟨inv', hi', hid'.trans hid⟩⟩

theorem invariant_keep (w' : World) (actor : Option ℕ) (h : Invariant G w) (hm : Moves G w w' actor)
    (hgrow : Grows w.store w'.store) (ho : w'.opened = w.opened)
    (hothers : ∀ q, actor ≠ some q → w'.requests q = w.requests q)
    (hactor : ∀ q, actor = some q → RequestOk G w' q (w'.requests q)) : Invariant G w' where
  requests := by
    intro q
    by_cases hq : actor = some q
    · exact hactor q hq
    · rw [hothers q hq]
      exact requestOk_move G w' actor hm hq (h.requests q)
  visible := by
    intro o hmem
    rw [ho] at hmem
    exact visibleIn_grows o _ hgrow (h.visible o hmem)
  rereads := by
    intro o hmem
    rw [ho] at hmem
    exact hm.rereads (h.rereads o hmem)
  single := by
    rw [ho]
    exact h.single

theorem setRequest_other (w : World) (q' : ℕ) (pc : RequestPc) (h : some q ≠ some q') :
    (w.setRequest q pc).requests q' = w.requests q' :=
  Function.update_of_ne (fun he => h (congrArg some he.symm)) _ _

theorem setRequest_self (w : World) (q : ℕ) (pc : RequestPc) :
    (w.setRequest q pc).requests q = pc :=
  Function.update_self _ _ _

theorem invariant_act (w₁ : World) (h : Invariant G w)
    (hm : Moves G w (w₁.setRequest q pc) (some q)) (hgrow : Grows w.store w₁.store)
    (ho : w₁.opened = w.opened) (hr : w₁.requests = w.requests)
    (hpc : RequestOk G (w₁.setRequest q pc) q pc) : Invariant G (w₁.setRequest q pc) := by
  apply invariant_keep G _ (some q) h hm hgrow ho
  · intro q' hq'
    rw [setRequest_other w₁ q' pc hq', hr]
  · intro q' hq'
    cases hq'
    rw [setRequest_self]
    exact hpc

theorem invariant_request (h : Invariant G w) (hpc : RequestOk G w q pc) :
    Invariant G (w.setRequest q pc) := by
  apply invariant_act G w h (moves_refl G _ _ rfl rfl rfl) (grows_refl _) rfl rfl
  cases pc <;> exact hpc

theorem moves_setLock (k : ℤ) (holder : Option ℕ) (pc : RequestPc)
    (hk : ∀ q', w.locks k = some q' → q' = q) :
    Moves G w ((w.setLock k holder).setRequest q pc) (some q) := by
  refine { moves_refl G w (some q) rfl rfl rfl with locks := ?_ }
  intro q' k' hq' hheld
  have hne : k' ≠ k := by
    rintro rfl
    exact hq' (congrArg some (hk q' hheld).symm)
  exact (Function.update_of_ne hne holder w.locks).trans hheld

theorem invariant_unlock (h : Invariant G w) (hlock : Holds G w q event) (hpc : RequestOk G w q pc)
    (hfree : (∃ r, pc = .answered event r) ∨ pc = .failed event) :
    Invariant G ((w.setLock (G.lockKey (slotOf event)) none).setRequest q pc) := by
  have hm := moves_setLock G (G.lockKey (slotOf event)) none pc
    (fun q' hq' => Option.some.inj (hq'.symm.trans hlock))
  apply invariant_act G (w.setLock (G.lockKey (slotOf event)) none) h hm (grows_refl _) rfl
    rfl
  -- a request that has answered or failed needs no lock any more
  rcases hfree with ⟨r, rfl⟩ | rfl
  · exact hpc
  · trivial

theorem requestOk_of_eq (h : Invariant G w) (hq : w.requests q = pc) :
    RequestOk G w q pc := hq ▸ h.requests q

theorem openWrites_visible (q : ℕ) (event : AlertEvent) (inv : Uuid) (d : Reread)
    (budget : Budget) (clock : Clock) (st : Store) :
    OpenRecord.VisibleIn ⟨q, event, inv, d⟩ (st.overlay (openWrites event inv budget clock)) where
  event := ⟨_, mem_append_right _ (mem_singleton_self _), rfl, rfl, rfl, rfl, rfl⟩
  investigation := ⟨_, mem_append_right _ (mem_singleton_self _), rfl⟩

theorem passesOver_of_none (o : OpenRecord) (d : Reread) (hslot : slotOf event = slotOf o.event)
    (hno : ∀ row, ¬Correlates d.snapshot event.platformKey event.fingerprint d.start row) :
    d.PassesOver o := by
  obtain ⟨hp, hf⟩ := Prod.mk.inj hslot
  by_contra hnot
  simp only [Reread.PassesOver, not_or, not_forall] at hnot
  obtain ⟨⟨inv, hinv, hid, hterm⟩, ⟨row, hrow, hatt, hsince⟩⟩ := hnot
  rw [← hp, ← hf, ← hid] at hatt
  exact hno (row, inv) ⟨hrow, hinv, hatt, by simpa using hsince,
    (mem_nonTerminal_iff _).mpr hterm⟩

theorem invariant_reread (tie : ℕ) (clock : Clock) (fresh : Uuid) (a : Admission) (r : Response)
    (h : Invariant G w) (hq : w.requests q = .locked event a)
    (hd : decideUnderLock G.settings w.store tie clock fresh event a = .ok (r, ws)) :
    Invariant G { w.setRequest q
        (.decided event ⟨clock.reread-a.window*1000000, w.store⟩ r ws) with
      rereads := w.rereads ++ [(event, ⟨clock.reread-a.window*1000000, w.store⟩)] } := by
  have hlock : Holds G w q event := requestOk_of_eq G h hq
  have hm : Moves G w { w.setRequest q
        (.decided event ⟨clock.reread-a.window*1000000, w.store⟩ r ws) with
      rereads := w.rereads ++ [(event, ⟨clock.reread-a.window*1000000, w.store⟩)] } (some q) :=
    { moves_refl G w (some q) rfl rfl rfl with
      rereads := subset_append_left _ _ }
  have hws : WritesFor event ws r := by
    rcases decideUnderLock_ok _ _ _ _ _ _ _ _ _ hd with ⟨row, -, rfl, rfl⟩ | ⟨rfl, hopen, -⟩
    · exact ⟨clock, rfl⟩
    · obtain ⟨budget, rfl⟩ := hopen
      exact ⟨budget, clock, rfl⟩
  apply invariant_act G { w with
    rereads := w.rereads ++ [(event, ⟨clock.reread-a.window*1000000, w.store⟩)] } h hm
    (grows_refl _) rfl rfl
  refine ⟨hlock, hws, mem_append_right _ (mem_singleton_self _), ?_⟩
  -- the re-read ran under the lock, so the opens of the slot are those it saw
  intro inv hr o ho hslot
  rcases decideUnderLock_ok _ _ _ _ _ _ _ _ _ hd with ⟨row, -, hr', -⟩ | ⟨-, -, hno⟩
  · grind
  · exact ⟨h.visible o ho, passesOver_of_none o _ hslot hno⟩

theorem invariant_commit (d : Reread) (r : Response) (h : Invariant G w)
    (hq : w.requests q = .decided event d r ws) (hst : w.store.commit ws = some st) :
    Invariant G (w.install q event d r st) := by
  obtain ⟨hlock, hws, hread, hsingle⟩ := requestOk_of_eq G h hq
  have hgrow := grows_commit _ hst
  have hrecord : ∀ o ∈ recordOf q event d r, ∃ inv, r = .opened inv ∧ o = ⟨q, event, inv, d⟩ := by
    intro o ho
    cases r with
    | opened inv => exact ⟨inv, rfl, mem_singleton.mp ho⟩
    | merged inv => cases ho
    | rejected reason => cases ho
  have hm : Moves G w (w.install q event d r st) (some q) := by
    refine { moves_refl G w (some q) rfl rfl rfl with opened := ⟨recordOf q event d r, rfl, ?_⟩ }
    intro o ho
    obtain ⟨inv, -, rfl⟩ := hrecord o ho
    exact ⟨q, rfl, hlock⟩
  constructor
  · intro q'
    by_cases hq' : some q = some q'
    · cases hq'
      rw [World.install, setRequest_self]
      refine ⟨hlock, ?_⟩
      intro inv hr
      refine ⟨⟨q, event, inv, d⟩, mem_append_right _ ?_, rfl, rfl, rfl⟩
      rw [hr]
      exact mem_singleton_self _
    · have hsame : (w.install q event d r st).requests q' = w.requests q' :=
        setRequest_other _ q' _ hq'
      rw [hsame]
      exact requestOk_move G _ (some q) hm hq' (h.requests q')
  · intro o ho
    rcases mem_append.mp ho with hold | hadded
    · exact visibleIn_grows o _ hgrow (h.visible o hold)
    · obtain ⟨inv, rfl, rfl⟩ := hrecord o hadded
      obtain ⟨budget, clock, rfl⟩ := hws
      have hst' := commit_ok _ _ _ hst
      subst hst'
      exact openWrites_visible q event inv d budget clock w.store
  · intro o ho
    rcases mem_append.mp ho with hold | hadded
    · exact h.rereads o hold
    · obtain ⟨inv, -, rfl⟩ := hrecord o hadded
      exact hread
  -- the new open comes last, and its re-read has looked at all earlier ones
  · apply pairwise_append.mpr
    refine ⟨h.single, ?_, ?_⟩
    · cases r with
      | opened inv => exact pairwise_singleton _ _
      | merged inv => exact List.Pairwise.nil
      | rejected reason => exact List.Pairwise.nil
    · grind

/-- A step that no request takes. -/
theorem invariant_store (h : Invariant G w) (store : Store) (groups : ℕ → Group)
    (hgrow : Grows w.store store) :
    Invariant G { w with store := store, groups := groups } :=
  invariant_keep G _ none h (moves_refl G _ _ rfl rfl rfl) hgrow rfl (fun _ _ => rfl)
    (fun _ hq => nomatch hq)

theorem invariant_step (w w' : World) (h : Invariant G w) (hs : WorldStep G w w') :
    Invariant G w' := by
  cases hs with
  | submit q event hq => exact invariant_request G h trivial
  | fail q event hq => exact invariant_request G h trivial
  | unlock q event hq =>
    have hlock : Holds G w q event := by
      rcases hq with ⟨a, hq⟩ | ⟨d, r, ws, hq⟩
      · exact requestOk_of_eq G h hq
      · exact (requestOk_of_eq G h hq).1
    exact invariant_unlock G h hlock trivial (.inr rfl)
  | statement q b tie now event r hq hb hr =>
    exact invariant_act G (w.setGroup b _) h (moves_refl G _ _ rfl rfl rfl) (grows_refl _)
      rfl rfl trivial
  | groupCommit b st hb hst =>
    exact invariant_store G h _ _ (grows_commit _ hst)
  | groupAbort b hb => exact invariant_store G h _ _ (grows_refl _)
  | hit q b event inv hq hb =>
    exact invariant_request G h (fun _ hr => nomatch hr)
  | miss q b event hq hb => exact invariant_request G h trivial
  | reject q event reason clock hq ha => exact invariant_request G h ⟨clock, rfl⟩
  | admitEvent q event a hq ha => exact invariant_request G h trivial
  | lock q event a hq hk =>
    have hm :=
      moves_setLock (w := w) (q := q) G (G.lockKey (slotOf event)) (some q) (.locked event a)
      (fun q' hq' => by grind)
    exact invariant_act G (w.setLock _ _) h hm (grows_refl _) rfl rfl
      (Function.update_self _ _ _)
  | reread q tie clock fresh event a r ws hq hd =>
    exact invariant_reread G tie clock fresh a r h hq hd
  | commitReject q event reason ws st hq hst =>
    exact invariant_act G { w with store := st } h (moves_refl G _ _ rfl rfl rfl)
      (grows_commit _ hst) rfl rfl (fun _ hr => nomatch hr)
  | commit q event d r ws st hq hst => exact invariant_commit G d r h hq hst
  | release q event r hq =>
    obtain ⟨hlock, hrec⟩ := requestOk_of_eq G h hq
    exact invariant_unlock G h hlock hrec (.inl ⟨r, rfl⟩)
  | setStatus inv status =>
    exact invariant_store G h _ _ (grows_setStatus _ _ _)
  | setPlatform key p =>
    exact invariant_store G h _ _ ⟨fun _ hr => hr, fun row hr => ⟨row, hr, rfl⟩⟩

theorem invariant_reachable (st : Store) (w : World) (h : (system G st).Reachable w) :
    Invariant G w := by
  apply reachable_invariant (system G st) (Invariant G) _ _ w h
  · rintro w rfl
    exact ⟨fun _ => trivial, fun _ ho => (nomatch ho), fun _ ho => (nomatch ho), List.Pairwise.nil⟩
  · intro w e w' hinv hs
    exact invariant_step G w w' hinv (world_step_sound G w w' e hs)

end Invariant

section Origin

def Born (w : World) (slot : String × String) : Prop := ∃ o ∈ w.opened, slotOf o.event = slot

def AttachedIn (rows : List EventRow) (slot : String × String) : Prop :=
  ∃ row ∈ rows, ∃ inv, row.AttachedTo slot.1 slot.2 inv

def RequestPc.Correlated (slot : String × String) : RequestPc → Prop
  | .grouped event _ (some _) => slotOf event = slot
  | .decided event _ (.merged _) _ => slotOf event = slot
  | .committed event r => slotOf event = slot ∧ ∀ reason, r ≠ .rejected reason
  | .answered event r => slotOf event = slot ∧ ∀ reason, r ≠ .rejected reason
  | _ => False

/-- In a slot that was empty at the start, everything goes back to an open. -/
structure Origin (slot : String × String) (w : World) : Prop where
  store : AttachedIn w.store.events slot → Born w slot
  groups : ∀ b, AttachedIn (w.groups b).writes.events slot → Born w slot
  requests : ∀ q, (w.requests q).Correlated slot → Born w slot

theorem attachedIn_append (rows rows' : List EventRow) (slot : String × String)
    (h : AttachedIn (rows ++ rows') slot) : AttachedIn rows slot ∨ AttachedIn rows' slot := by
  obtain ⟨row, hrow, hatt⟩ := h
  rcases mem_append.mp hrow with hr | hr
  · exact .inl ⟨row, hr, hatt⟩
  · exact .inr ⟨row, hr, hatt⟩

theorem attachedIn_commit (st' : Store) (slot : String × String) (hst : st.commit ws = some st')
    (h : AttachedIn st'.events slot) : AttachedIn st.events slot ∨ AttachedIn ws.events slot := by
  rw [commit_ok _ _ _ hst] at h
  exact attachedIn_append _ _ _ h

theorem writes_setPhase (groups : ℕ → Group) (b b' : ℕ) (phase : Phase) :
    (Function.update groups b ⟨phase, (groups b).writes⟩ b').writes = (groups b').writes := by grind

theorem newest_attachedIn (start : Instant) (r : EventRow × InvestigationRow)
    (h : Newest st event.platformKey event.fingerprint start r) :
    AttachedIn st.events (slotOf event) :=
  ⟨r.1, h.1.event_mem, _, h.1.attached⟩

theorem writesFor_slot (r : Response) (slot : String × String) (hws : WritesFor event ws r)
    (h : AttachedIn ws.events slot) : slotOf event = slot ∧ ∀ reason, r ≠ .rejected reason := by
  obtain ⟨row, hrow, inv, hp, hf, hi⟩ := h
  cases r with
  | opened i =>
    obtain ⟨budget, clock, rfl⟩ := hws
    cases mem_singleton.mp hrow
    exact ⟨Prod.ext (Option.some.inj hp) hf, fun _ hr => (nomatch hr)⟩
  | merged i =>
    obtain ⟨clock, rfl⟩ := hws
    cases mem_singleton.mp hrow
    exact ⟨Prod.ext (Option.some.inj hp) hf, fun _ hr => (nomatch hr)⟩
  | rejected reason =>
    obtain ⟨clock, rfl⟩ := hws
    cases mem_singleton.mp hrow
    cases hi

theorem hitWrites_slot (inv : Uuid) (t : Instant) (slot : String × String)
    (h : AttachedIn (hitWrites event inv t).events slot) : slotOf event = slot := by
  obtain ⟨row, hrow, _, hp, hf, _⟩ := h
  cases mem_singleton.mp hrow
  exact Prod.ext (Option.some.inj hp) hf

variable (G : Gateway) (slot : String × String)

theorem origin_request (w₁ : World) (q : ℕ) (h : Origin slot w) (hst : w₁.store = w.store)
    (hg : w₁.groups = w.groups) (hr : w₁.requests = w.requests) (ho : w₁.opened = w.opened)
    (hpc : pc.Correlated slot → Born w slot) : Origin slot (w₁.setRequest q pc) := by
  have hborn : Born w slot → Born (w₁.setRequest q pc) slot := by
    rintro ⟨o, hmem, hslot⟩
    exact ⟨o, (congrArg (o ∈ ·) ho).mpr hmem, hslot⟩
  constructor
  · intro hatt
    exact hborn (h.store (hst ▸ hatt))
  · intro b hatt
    exact hborn (h.groups b (hg ▸ hatt))
  · intro q' hcor
    by_cases hq : some q = some q'
    · cases hq
      rw [setRequest_self] at hcor
      exact hborn (hpc hcor)
    · rw [setRequest_other _ q' pc hq, hr] at hcor
      exact hborn (h.requests q' hcor)

theorem origin_statement (q b tie : ℕ) (now : Instant) (r : StatementResult) (h : Origin slot w)
    (hr : mergeExistingEventWithAudit (w.store.overlay (w.groups b).writes) tie event
      G.settings.correlationWindowSeconds now = .ok r) :
    Origin slot ((w.setGroup b ⟨.active, (w.groups b).writes.append r.writes⟩).setRequest q
      (.grouped event b r.value)) := by
  have hhit : ∀ inv, r.value = some inv → slotOf event = slot → Born w slot := by
    intro inv hv hslot
    rcases mergeExistingEventWithAudit_ok _ _ _ _ _ _ hr with ⟨hnone, -⟩ | ⟨_, row, -, hnew, -⟩
    · grind
    · rw [← hslot]
      -- the row it has found is committed, or was inserted by the same group
      rcases attachedIn_append _ _ _ (newest_attachedIn _ _ hnew) with hst | hg
      · exact hslot ▸ h.store (hslot ▸ hst)
      · exact hslot ▸ h.groups b (hslot ▸ hg)
  constructor
  · exact h.store
  · intro b' hatt
    by_cases hb : b' = b
    · subst hb
      have hrows : AttachedIn ((w.groups b').writes.events ++ r.writes.events) slot := by
        simpa [World.setRequest, World.setGroup, Writes.append] using hatt
      rcases attachedIn_append _ _ _ hrows with hold | hnew
      · exact h.groups b' hold
      · rcases mergeExistingEventWithAudit_ok _ _ _ _ _ _ hr with
          ⟨-, hempty⟩ | ⟨_, row, -, -, hv, hw, -⟩
        · rw [hempty] at hnew
          obtain ⟨_, hmem, -⟩ := hnew
          cases hmem
        · rw [hw] at hnew
          exact hhit _ hv (hitWrites_slot _ _ _ hnew)
    · have hsame : ((w.setGroup b ⟨.active, (w.groups b).writes.append r.writes⟩).setRequest q
          (.grouped event b r.value)).groups b' = w.groups b' := Function.update_of_ne hb _ _
      rw [hsame] at hatt
      exact h.groups b' hatt
  · intro q' hcor
    by_cases hq : some q = some q'
    · cases hq
      rw [setRequest_self] at hcor
      cases hv : r.value with
      | none =>
        rw [hv] at hcor
        cases hcor
      | some inv =>
        rw [hv] at hcor
        exact hhit inv hv hcor
    · rw [setRequest_other _ q' _ hq] at hcor
      exact h.requests q' hcor

theorem origin_commit (d : Reread) (r : Response) (hinv : Invariant G w) (h : Origin slot w)
    (hq : w.requests q = .decided event d r ws) (hst : w.store.commit ws = some st) :
    Origin slot (w.install q event d r st) := by
  obtain ⟨-, hws, -, -⟩ := requestOk_of_eq G hinv hq
  have hborn : Born w slot → Born (w.install q event d r st) slot := by
    rintro ⟨o, hmem, hslot⟩
    exact ⟨o, mem_append_left _ hmem, hslot⟩
  have hown : (slotOf event = slot ∧ ∀ reason, r ≠ .rejected reason) →
      Born (w.install q event d r st) slot := by
    rintro ⟨hslot, hr⟩
    cases r with
    | opened inv =>
      exact ⟨⟨q, event, inv, d⟩, mem_append_right _ (mem_singleton_self _), hslot⟩
    -- a merge was decided on a row of the slot, which goes back to an open
    | merged inv =>
      apply hborn
      apply h.requests q
      rw [hq]
      exact hslot
    | rejected reason => grind
  constructor
  · intro hatt
    rcases attachedIn_commit _ _ hst hatt with hold | hnew
    · exact hborn (h.store hold)
    · exact hown (writesFor_slot r slot hws hnew)
  · intro b hatt
    exact hborn (h.groups b hatt)
  · intro q' hcor
    by_cases hq' : some q = some q'
    · cases hq'
      rw [World.install, setRequest_self] at hcor
      exact hown hcor
    · rw [World.install, setRequest_other _ q' _ hq'] at hcor
      exact hborn (h.requests q' hcor)

theorem origin_step (w' : World) (hinv : Invariant G w) (h : Origin slot w)
    (hs : WorldStep G w w') :
    Origin slot w' := by
  have hpc : ∀ q pc, w.requests q = pc → pc.Correlated slot → Born w slot :=
    fun q pc hq hcor => h.requests q (hq ▸ hcor)
  have hquiet {pc : RequestPc} (q : ℕ) (hno : ¬pc.Correlated slot) :
      Origin slot (w.setRequest q pc) :=
    origin_request slot w q h rfl rfl rfl rfl (fun hc => absurd hc hno)
  cases hs with
  | submit q event hq => exact hquiet q nofun
  | fail q event hq => exact hquiet q nofun
  | unlock q event hq =>
    exact origin_request slot (w.setLock _ none) q h rfl rfl rfl rfl (fun hc => nomatch hc)
  | statement q b tie now event r hq hb hr =>
    exact origin_statement G slot q b tie now r h hr
  | groupCommit b st hb hst =>
    refine ⟨?_, fun b' hatt => h.groups b' ?_, h.requests⟩
    · intro hatt
      rcases attachedIn_commit _ _ hst hatt with hold | hnew
      · exact h.store hold
      · exact h.groups b hnew
    · rw [← writes_setPhase w.groups b b' .committed]
      exact hatt
  | groupAbort b hb =>
    refine ⟨h.store, fun b' hatt => h.groups b' ?_, h.requests⟩
    rw [← writes_setPhase w.groups b b' .aborted]
    exact hatt
  | hit q b event inv hq hb =>
    exact origin_request slot w q h rfl rfl rfl rfl (fun hc => hpc q _ hq hc.1)
  | miss q b event hq hb => exact hquiet q nofun
  | reject q event reason clock hq ha => exact hquiet q nofun
  | admitEvent q event a hq ha => exact hquiet q nofun
  | lock q event a hq hk =>
    exact origin_request slot (w.setLock _ _) q h rfl rfl rfl rfl (fun hc => nomatch hc)
  | reread q tie clock fresh event a r ws hq hd =>
    refine origin_request slot { w with rereads := w.rereads ++ [(event, _)] } q h rfl rfl rfl
      rfl ?_
    intro hcor
    rcases decideUnderLock_ok _ _ _ _ _ _ _ _ _ hd with ⟨row, hnew, rfl, -⟩ | ⟨rfl, -, -⟩
    · have hslot : slotOf event = slot := hcor
      exact h.store (hslot ▸ newest_attachedIn _ _ hnew)
    · cases hcor
  | commitReject q event reason ws st hq hst =>
    have hws : WritesFor event ws (.rejected reason) := requestOk_of_eq G hinv hq
    have hbase : Origin slot { w with store := st } := by
      refine ⟨?_, h.groups, h.requests⟩
      intro hatt
      rcases attachedIn_commit _ _ hst hatt with hold | hnew
      · exact h.store hold
      -- a rejected event is attached to no case
      · exact absurd rfl ((writesFor_slot _ slot hws hnew).2 reason)
    exact origin_request slot { w with store := st } q hbase rfl rfl rfl
      rfl (fun hc => absurd rfl (hc.2 reason))
  | commit q event d r ws st hq hst =>
    exact origin_commit G slot d r hinv h hq hst
  | release q event r hq =>
    exact origin_request slot (w.setLock _ none) q h rfl rfl rfl rfl
      (fun hc => hpc q _ hq hc)
  | setStatus inv status => exact ⟨h.store, h.groups, h.requests⟩
  | setPlatform key p => exact ⟨h.store, h.groups, h.requests⟩

theorem origin_reachable (hempty : ¬AttachedIn st.events slot) (h : (system G st).Reachable w) :
    Origin slot w := by
  have hboth : Invariant G w ∧ Origin slot w := by
    apply reachable_invariant (system G st) (fun w => Invariant G w ∧ Origin slot w) _ _ w h
    · rintro w rfl
      refine ⟨invariant_reachable G st _ (.init rfl), fun ha => absurd ha hempty, ?_, ?_⟩
      · rintro b ⟨_, hmem, -⟩
        cases hmem
      · exact fun _ hc => (nomatch hc)
    · intro w e w' hinv hs
      have hstep := world_step_sound G w w' e hs
      grind [invariant_step, origin_step]
  exact hboth.2

end Origin

/-- Every deciding re-read of the slot finds the cases opened there within its
window and not terminal. -/
def StaysOpen (w : World) (slot : String × String) : Prop :=
  ∀ d, d ∈ w.rereads → slotOf d.1 = slot → ∀ o ∈ w.opened, slotOf o.event = slot →
    (∀ row ∈ d.2.snapshot.events, row.eventId = o.event.eventId →
      row.receivedSince d.2.start = true) ∧
    ∀ row ∈ d.2.snapshot.investigations, row.investigationId = o.investigationId →
      row.status ∈ nonTerminalStatuses

theorem not_passesOver (slot : String × String) (hstay : StaysOpen w slot) (o later : OpenRecord)
    (ho : o ∈ w.opened) (hslot : slotOf o.event = slot) (hlater : slotOf later.event = slot)
    (hread : (later.event, later.reread) ∈ w.rereads) (hvis : o.VisibleIn later.reread.snapshot) :
    ¬later.reread.PassesOver o := by
  obtain ⟨hsince, hopen⟩ := hstay _ hread hlater o ho hslot
  obtain ⟨⟨row, hrow, hid, -, hatt⟩, ⟨inv, hinv, hiid⟩⟩ := hvis
  rintro (hterm | hold)
  · exact (mem_nonTerminal_iff _).mp (hopen inv hinv hiid) (hterm inv hinv hiid)
  · grind

/-- In every interleaving: the opens of a slot are committed one after the other, and at its
deciding re-read each of them saw every earlier one, and saw it terminal or with all its events
outside the window; every answer 202 is one of them. -/
theorem single_open_case (G : Gateway) (st : Store) (w : World)
    (h : (system G st).Reachable w) :
    w.opened.Pairwise SingleOpen ∧
    (∀ q event inv, w.requests q = .answered event (.opened inv) →
      ∃ o ∈ w.opened, o.request = q ∧ o.event = event ∧ o.investigationId = inv) ∧
    ∀ slot, ¬AttachedIn st.events slot → StaysOpen w slot →
      (∃ q event r, w.requests q = .answered event r ∧ slotOf event = slot ∧
        ∀ reason, r ≠ .rejected reason) →
      (w.opened.filter (fun o => slotOf o.event = slot)).length = 1 := by
  have hinv := invariant_reachable G st w h
  refine ⟨hinv.single, ?_, ?_⟩
  · intro q event inv hq
    exact requestOk_of_eq G hinv hq inv rfl
  · rintro slot hempty hstay ⟨q, event, r, hq, hslot, hr⟩
    have horigin := origin_reachable G slot hempty h
    obtain ⟨o, ho, hoslot⟩ : Born w slot := by
      apply horigin.requests q
      rw [hq]
      exact ⟨hslot, hr⟩
    have hpair := hinv.single.filter (fun o => decide (slotOf o.event = slot))
    have hmem : ∀ o ∈ w.opened.filter (fun o => slotOf o.event = slot),
        o ∈ w.opened ∧ slotOf o.event = slot := by
      intro o ho
      simpa using mem_filter.mp ho
    cases hl : w.opened.filter (fun o => slotOf o.event = slot) with
    | nil => grind
    | cons a rest =>
      cases rest with
      | nil => rfl
      | cons b rest =>
        -- the second of two opens would have passed over the first
        rw [hl] at hpair hmem
        have hab : SingleOpen a b := (pairwise_cons.mp hpair).1 b mem_cons_self
        obtain ⟨ha, haslot⟩ := hmem a mem_cons_self
        obtain ⟨hb, hbslot⟩ := hmem b (mem_cons_of_mem a mem_cons_self)
        obtain ⟨hvis, hover⟩ := hab (hbslot.trans haslot.symm)
        exact absurd hover (not_passesOver slot hstay a b ha haslot hbslot
          (hinv.rereads b hb) hvis)

def sampleGateway : Gateway := ⟨sampleInterpreter, sampleSettings, fun _ => 7⟩

def sampleSchedule : List WorldEvent :=
  [.submit 0 (sampleAlert 1), .submit 1 (sampleAlert 2), .statement 0 0 0 5000000000,
    .statement 1 0 0 5000000000, .groupCommit 0, .resume 0, .resume 1,
    .admitEvent 0 (.still 5000000001), .admitEvent 1 (.still 5000000001), .lock 0,
    .reread 0 0 (.still 5000000002) 9, .commit 0, .release 0, .lock 1,
    .reread 1 0 (.still 5000000003) 10, .commit 1, .release 1]

theorem single_open_case_sampleSchedule :
    ∃ w, (system sampleGateway sampleStore).Reachable w ∧
      w.requests 0 = .answered (sampleAlert 1) (.opened 9) ∧
      w.requests 1 = .answered (sampleAlert 2) (.merged 9) ∧
      (w.opened.filter (fun o => slotOf o.event = ("presto-us", "f1"))).length = 1 := by
  obtain ⟨w, hrun, h0, h1, hstay⟩ : ∃ w,
      (system sampleGateway sampleStore).run (.initial sampleStore) sampleSchedule = some w ∧
      w.requests 0 = .answered (sampleAlert 1) (.opened 9) ∧
      w.requests 1 = .answered (sampleAlert 2) (.merged 9) ∧ StaysOpen w ("presto-us", "f1") := by
    refine ⟨_, rfl, rfl, rfl, ?_⟩
    unfold StaysOpen
    decide
  have hreach := run_reachable _ sampleSchedule _ w (.init rfl) hrun
  have hempty : ¬AttachedIn sampleStore.events ("presto-us", "f1") := by
    rintro ⟨_, hmem, -⟩
    cases hmem
  obtain ⟨-, -, hone⟩ := single_open_case sampleGateway sampleStore w hreach
  exact ⟨w, hreach, h0, h1, hone _ hempty hstay ⟨0, _, _, h0, rfl, fun _ hr => (nomatch hr)⟩⟩

end DbAgent.Ingest
