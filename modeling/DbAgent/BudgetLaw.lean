import DbAgent.WorkflowRuns

/-! The budget of a run under `adjust_budget` signals: the limits that all the
overrides delivered so far amount to, beside the ones that the code looks at. -/
namespace DbAgent.WorkflowRuns

open Transition Workflow List State Budget

structure Limits where
  rounds : ℤ
  cost : ℚ
  deadline : Instant

open Limits

/-- The limits of a budget whose wall time counts from `now`. -/
def Limits.ofBudget (now : Instant) (b : Budget) : Limits where
  rounds := Py.truncate (b.maxRounds.getD 15)
  cost := b.maxCostUsd.getD 10
  deadline := now + Py.truncate (b.maxWallSeconds.getD 1800) * 1000000

def Limits.override (now : Instant) (l : Limits) (o : Budget) : Limits where
  rounds := (o.maxRounds.map Py.truncate).getD l.rounds
  cost := o.maxCostUsd.getD l.cost
  deadline := match o.maxWallSeconds with
    | none => l.deadline
    | some w => now + Py.truncate w * 1000000

structure Overrides where
  /-- The case budget with the overrides delivered before it was read. -/
  merged : Budget
  /-- The budget with every override that has been applied. -/
  limits : Limits
  /-- The overrides that were delivered since. -/
  pending : List Budget
  /-- The current budget, and the time, at the top of the round. -/
  top : Limits
  topNow : Instant

open Overrides

def Overrides.current (g : Overrides) (now : Instant) : Limits :=
  g.pending.foldl (override now) g.limits

def topOf (s : State) : Event → Option ℤ
  | .reply (.plan _) =>
    match s.pc with
    | .planInitial => some 1
    | .planNext round => some (round+1)
    | _ => none
  | .wake =>
    match s.pc with
    | .waitPaused round => some round
    | _ => none
  | _ => none

def Overrides.enter (g : Overrides) (s : State) (now : Instant) : Overrides :=
  match s.pc with
  | .planInitial => { g with limits := .ofBudget now g.merged }
  | _ => g

def Overrides.atTop (g : Overrides) (now : Instant) : Overrides :=
  { g with top := g.current now, topNow := now }

def Overrides.observe (g : Overrides) (r : Run) (e : Event) : Overrides :=
  match e with
  | .signal (.adjustBudget b) =>
    if r.wf.status ∈ terminalStatuses then g else { g with pending := g.pending ++ [b] }
  | .reply (.case c) => { g with merged := g.pending.foldl update c.budget, pending := [] }
  | .reply (.spend _) => { g with limits := g.current r.now, pending := [] }
  | e =>
    match topOf r.wf e with
    | some _ => (g.enter r.wf r.now).atTop r.now
    | none => g

structure Budgeted where
  run : Run
  book : Overrides

def budgeted : System Budgeted Event where
  init x := runs.init x.run ∧ x.book.pending = []
  step x e := (runs.step x.run e).map (fun r => ⟨r, x.book.observe x.run e⟩)

/-- The budget law for one event. The current budget of a round is the one at
its top, where the overrides delivered before count. -/
structure BudgetLaw (x : Budgeted) (e : Event) (y : Budgeted) : Prop where
  /-- On top of a round, unless the run is aborted or paused there. -/
  opens_iff : ∀ n, topOf x.run.wf e = some n → x.run.wf.aborted = false →
    x.run.wf.paused = false →
    (y.run.wf.pc = .getSpend n ↔ n ≤ y.book.top.rounds ∧ x.run.now < y.book.top.deadline)
  collects_iff : ∀ n usd, x.run.wf.pc = .getSpend n → e = .reply (.spend usd) →
    (y.run.wf.pc = .collect n usd ↔
      n ≤ x.book.top.rounds ∧ usd < x.book.top.cost ∧ x.book.topNow < x.book.top.deadline)
  opens : ∀ n, y.run.wf.pc = .getSpend n → x.run.wf.pc ≠ .getSpend n →
    topOf x.run.wf e = some n
  collects : ∀ n usd, y.run.wf.pc = .collect n usd → x.run.wf.pc ≠ .collect n usd →
    x.run.wf.pc = .getSpend n ∧ e = .reply (.spend usd)
  round_budget : y.run.wf.pc = .toNeedsHuman .roundBudget →
    x.run.wf.pc ≠ .toNeedsHuman .roundBudget →
    ∃ n, topOf x.run.wf e = some n ∧ y.book.top.rounds < n
  time_budget : y.run.wf.pc = .toNeedsHuman .timeBudget →
    x.run.wf.pc ≠ .toNeedsHuman .timeBudget →
    ∃ n, topOf x.run.wf e = some n ∧ y.book.top.deadline ≤ x.run.now
  cost_budget : y.run.wf.pc = .toNeedsHuman .costBudget →
    x.run.wf.pc ≠ .toNeedsHuman .costBudget →
    ∃ n usd, x.run.wf.pc = .getSpend n ∧ e = .reply (.spend usd) ∧ x.book.top.cost ≤ usd

def idle (o : Budget) : Prop :=
  o.maxRounds = none ∧ o.maxCostUsd = none ∧ o.maxWallSeconds = none

abbrev KeepsRounds (s : State) (b : Budget) : Prop :=
  b.maxRounds = none ∨ b.maxRounds.map Py.truncate = some s.lastRound

/-- The points at which the code makes an override count in time: before
`create_case` has answered, if it leaves the wall time alone, and while
`get_spend` runs, if it leaves the number of rounds as the loop was entered with. -/
def InTime (s : State) (b : Budget) : Prop :=
  idle b ∨ (s.pc = .createCase ∧ b.maxWallSeconds = none) ∨
    (phaseOf s.pc = .spending ∧ KeepsRounds s b)

/-- The wall time from which an event computes a deadline. -/
def newWall (s : State) : Event → Option ℚ
  | .reply (.plan _) =>
    match s.pc with
    | .planInitial => some (s.budget.maxWallSeconds.getD 1800)
    | _ => none
  | .reply (.spend usd) =>
    if s.maxCost ≤ usd then none else s.budgetOverride.bind maxWallSeconds
  | _ => none

/-- Every override comes in time and finds none that is still to be applied, and
no deadline lies outside the range of `datetime`. -/
structure Timely (x : Budgeted) (e : Event) : Prop where
  override : ∀ b, e = .signal (.adjustBudget b) → x.run.wf.status ∉ terminalStatuses →
    phaseOf x.run.wf.pc ≠ .ended → (∀ o ∈ x.book.pending, idle o) ∧ InTime x.run.wf b
  in_range : ∀ w, newWall x.run.wf e = some w → Py.addSeconds x.run.now (Py.truncate w) ≠ none

/-- The limits of the loop are those of the overrides that were applied. -/
structure InForce (g : Overrides) (s : State) : Prop where
  rounds : g.limits.rounds = s.lastRound
  cost : g.limits.cost = s.maxCost
  deadline : g.limits.deadline = s.deadline
  budget_cost : ∀ q, s.budget.maxCostUsd = some q → s.maxCost = q

/-- An override that the budget has taken in already: to apply it again changes
nothing. -/
structure Absorbed (b o : Budget) : Prop where
  rounds : o.maxRounds = none ∨ o.maxRounds = b.maxRounds
  cost : o.maxCostUsd = none ∨ o.maxCostUsd = b.maxCostUsd
  wall : o.maxWallSeconds = none

structure Quiet (g : Overrides) (s : State) : Prop where
  pending : ∀ o ∈ g.pending, idle o
  absorbed : ∀ o, s.budgetOverride = some o → Absorbed s.budget o

structure Fresh (g : Overrides) (s : State) (init : List Budget) (o : Budget) : Prop where
  pending : g.pending = init ++ [o]
  idle_init : ∀ i ∈ init, idle i
  kept : s.budgetOverride = some o

abbrev Unapplied (g : Overrides) (s : State) (P : Budget → Prop) : Prop :=
  Quiet g s ∨ ∃ init o, Fresh g s init o ∧ P o

structure SameLimits (a b : Budget) : Prop where
  rounds : a.maxRounds = b.maxRounds
  cost : a.maxCostUsd = b.maxCostUsd
  wall : a.maxWallSeconds = b.maxWallSeconds

inductive Standing (g : Overrides) (s : State) : Prop
  | opening (hpc : s.pc = .createCase) (hb : s.budget = ⟨none, none, none, []⟩)
      (ho : Unapplied g s fun o => o.maxWallSeconds = none)
  | planning (hpc : s.pc = .planInitial) (hm : SameLimits g.merged s.budget) (hq : Quiet g s)
  | spending (n : ℤ) (hpc : s.pc = .getSpend n) (hf : InForce g s) (hn : n ≤ g.top.rounds)
      (ht : g.topNow < g.top.deadline) (hc : g.top.cost = s.maxCost)
      (ho : Unapplied g s (KeepsRounds s))
  | paused (n : ℤ) (hpc : s.pc = .waitPaused n) (hn : n ≤ s.lastRound) (hf : InForce g s)
      (hq : Quiet g s)
  | rounds (hpc : phaseOf s.pc = .rounds) (hp : ∀ n, s.pc ≠ .waitPaused n) (hf : InForce g s)
      (hq : Quiet g s)
  | ended (hpc : phaseOf s.pc = .ended)

variable {o : Budget}

theorem override_idle (h : idle o) (now : Instant) (l : Limits) :
    l.override now o = l := by
  obtain ⟨hr, hc, hw⟩ := h
  unfold override
  rw [hr, hc, hw]
  rfl

theorem foldl_override_idle {os : List Budget} (h : ∀ o ∈ os, idle o) (now : Instant)
    (l : Limits) : os.foldl (override now) l = l := by
  induction os with
  | nil => rfl
  | cons o os ih => grind [override_idle, mem_cons_self]

variable {g : Overrides} {s : State}

theorem current_of_quiet (h : Quiet g s) (now : Instant) :
    g.current now = g.limits :=
  foldl_override_idle h.pending now g.limits

theorem current_of_fresh {init : List Budget} (h : Fresh g s init o) (now : Instant) :
    g.current now = g.limits.override now o := by
  unfold current
  rw [h.pending, foldl_append, foldl_override_idle h.idle_init]
  rfl

theorem sameLimits_refl (a : Budget) : SameLimits a a := ⟨rfl, rfl, rfl⟩

theorem sameLimits_symm {a b : Budget} (h : SameLimits a b) : SameLimits b a :=
  ⟨h.rounds.symm, h.cost.symm, h.wall.symm⟩

theorem sameLimits_trans {a b c : Budget} (h : SameLimits a b) (h' : SameLimits b c) :
    SameLimits a c :=
  ⟨h.rounds.trans h'.rounds, h.cost.trans h'.cost, h.wall.trans h'.wall⟩

theorem update_idle {a b o : Budget} (h : SameLimits a b) (ho : idle o) :
    SameLimits (a.update o) b := by
  obtain ⟨hr, hc, hw⟩ := ho
  refine ⟨?_, ?_, ?_⟩
  · simp [update, hr, h.rounds]
  · simp [update, hc, h.cost]
  · simp [update, hw, h.wall]

theorem foldl_update_idle {a b : Budget} {os : List Budget} (h : SameLimits a b)
    (ho : ∀ o ∈ os, idle o) : SameLimits (os.foldl update a) b := by
  induction os generalizing a with
  | nil => exact h
  | cons o os ih => grind [update_idle, mem_cons_self]

theorem sameLimits_update {a b : Budget} (h : SameLimits a b) (o : Budget) :
    SameLimits (a.update o) (b.update o) := by
  refine ⟨?_, ?_, ?_⟩
  · simp [update, h.rounds]
  · simp [update, h.cost]
  · simp [update, h.wall]

theorem absorbed_of_idle (b : Budget) (h : idle o) : Absorbed b o :=
  ⟨.inl h.1, .inl h.2.1, h.2.2⟩

theorem absorbed_update (b o : Budget) (hw : o.maxWallSeconds = none) :
    Absorbed (b.update o) o := by
  refine ⟨?_, ?_, hw⟩
  · cases h : o.maxRounds with
    | none => exact .inl rfl
    | some q => exact .inr (by simp [update, h])
  · cases h : o.maxCostUsd with
    | none => exact .inl rfl
    | some q => exact .inr (by simp [update, h])

theorem absorbed_congr {a b o : Budget} (h : SameLimits a b) (ho : Absorbed b o) :
    Absorbed a o := by
  refine ⟨?_, ?_, ho.wall⟩
  · rw [h.rounds]
    exact ho.rounds
  · rw [h.cost]
    exact ho.cost

theorem sameLimits_of_absorbed {b o : Budget} (h : Absorbed b o) : SameLimits (b.update o) b := by
  refine ⟨?_, ?_, ?_⟩
  · rcases h.rounds with hr | hr
    · simp [update, hr]
    · simp [update, hr]
  · rcases h.cost with hc | hc
    · simp [update, hc]
    · simp [update, hc]
  · simp [update, h.wall]

structure SameBudget (s t : State) : Prop where
  budget : t.budget = s.budget
  budgetOverride : t.budgetOverride = s.budgetOverride
  lastRound : t.lastRound = s.lastRound
  maxCost : t.maxCost = s.maxCost
  deadline : t.deadline = s.deadline

variable {t : State}

theorem inForce_frame {g h : Overrides} {s : State} (hf : InForce g s) (hb : SameBudget s t)
    (hl : h.limits = g.limits) : InForce h t := by
  refine ⟨?_, ?_, ?_, ?_⟩
  · rw [hl, hb.lastRound]
    exact hf.rounds
  · rw [hl, hb.maxCost]
    exact hf.cost
  · rw [hl, hb.deadline]
    exact hf.deadline
  · rw [hb.budget, hb.maxCost]
    exact hf.budget_cost

theorem quiet_frame {g h : Overrides} {s : State} (hq : Quiet g s) (hb : SameBudget s t)
    (hp : h.pending = g.pending) : Quiet h t := by
  refine ⟨?_, ?_⟩
  · rw [hp]
    exact hq.pending
  · rw [hb.budgetOverride, hb.budget]
    exact hq.absorbed

theorem fresh_frame {s : State} {init : List Budget} (hf : Fresh g s init o) (hb : SameBudget s t) :
    Fresh g t init o :=
  ⟨hf.pending, hf.idle_init, hb.budgetOverride.trans hf.kept⟩

theorem standing_frame {s : State} (h : Standing g s) (hb : SameBudget s t) (hpc : t.pc = s.pc) :
    Standing g t := by
  cases h with
  | opening hs hbudget ho =>
    refine .opening (hpc.trans hs) (hb.budget.trans hbudget) ?_
    rcases ho with hq | ⟨init, o, hf, hw⟩
    · exact .inl (quiet_frame hq hb rfl)
    · exact .inr ⟨init, o, fresh_frame hf hb, hw⟩
  | planning hs hm hq =>
    refine .planning (hpc.trans hs) ?_ (quiet_frame hq hb rfl)
    rw [hb.budget]
    exact hm
  | spending n hs hf hn ht hc ho =>
    refine .spending n (hpc.trans hs) (inForce_frame hf hb rfl) hn ht (hc.trans hb.maxCost.symm) ?_
    rcases ho with hq | ⟨init, o, hfr, hr⟩
    · exact .inl (quiet_frame hq hb rfl)
    · refine .inr ⟨init, o, fresh_frame hfr hb, ?_⟩
      unfold KeepsRounds
      rw [hb.lastRound]
      exact hr
  | paused n hs hn hf hq =>
    refine .paused n (hpc.trans hs) ?_ (inForce_frame hf hb rfl) (quiet_frame hq hb rfl)
    rw [hb.lastRound]
    exact hn
  | rounds hs hp hf hq =>
    refine .rounds ?_ ?_ (inForce_frame hf hb rfl) (quiet_frame hq hb rfl)
    · rw [hpc]
      exact hs
    · grind
  | ended hs => exact .ended (by rw [hpc]; exact hs)

/-- What the budget law asks for on top of round `n`, where the current budget is
`l` and the run goes on to `pc`. -/
structure TopLaw (l : Limits) (aborted paused : Bool) (now : Instant) (n : ℤ) (pc : Pc) :
    Prop where
  opens_iff : aborted = false → paused = false →
    (pc = .getSpend n ↔ n ≤ l.rounds ∧ now < l.deadline)
  opens : ∀ m, pc = .getSpend m → m = n
  round_budget : pc = .toNeedsHuman .roundBudget → l.rounds < n
  time_budget : pc = .toNeedsHuman .timeBudget → l.deadline ≤ now
  collects : ∀ m usd, pc ≠ .collect m usd
  cost_budget : pc ≠ .toNeedsHuman .costBudget

section Top

variable {g : Overrides} {s : State} {now : Instant} {n : ℤ}

theorem top_needsHuman {l : Limits} {reason : Reason}
    (ha : reason = .aborted → s.aborted = true)
    (hr : reason = .roundBudget → l.rounds < n) (ht : reason = .timeBudget → l.deadline ≤ now)
    (hsome : reason = .aborted ∨ reason = .roundBudget ∨ reason = .timeBudget) :
    TopLaw l s.aborted s.paused now n (.toNeedsHuman reason) := by
  refine ⟨?_, ?_, ?_, ?_, ?_, ?_⟩
  · grind
  · exact nofun
  · grind
  · grind
  · exact nofun
  · grind

theorem top_checkBudget (hf : InForce g s) (hq : Quiet g s) (hn : n ≤ s.lastRound) :
    Standing (g.atTop now) (s.checkBudget now n) ∧
      TopLaw (g.atTop now).top s.aborted s.paused now n (s.checkBudget now n).pc := by
  have htop : (g.atTop now).top = g.limits := current_of_quiet hq now
  rw [htop]
  unfold checkBudget
  split_ifs with ha hd
  · exact ⟨.ended rfl, top_needsHuman (fun _ => ha) (by simp) (by simp) (.inl rfl)⟩
  · refine ⟨.ended rfl, top_needsHuman (by simp) (by simp) ?_ (.inr (.inr rfl))⟩
    intro _
    rw [hf.deadline]
    exact hd
  · have hrounds : n ≤ g.limits.rounds := by
      rw [hf.rounds]
      exact hn
    have hnow : now < g.limits.deadline := by
      rw [hf.deadline]
      exact not_le.mp hd
    have hsame : SameBudget s (s.schedule (.getSpend s.investigationId) (.getSpend n)) :=
      ⟨rfl, rfl, rfl, rfl, rfl⟩
    refine ⟨.spending n rfl (inForce_frame hf hsame rfl) ?_ ?_ ?_ (.inl ?_), ?_⟩
    · grind
    · rw [htop]
      exact hnow
    · rw [htop]
      exact hf.cost
    · exact quiet_frame hq hsame rfl
    · refine ⟨fun _ _ => ⟨fun _ => ⟨hrounds, hnow⟩, fun _ => rfl⟩, ?_, ?_, ?_, ?_, ?_⟩
      · rintro m ⟨⟩
        rfl
      · exact nofun
      · exact nofun
      · exact nofun
      · exact nofun

theorem top_enterRound (hf : InForce g s) (hq : Quiet g s) :
    Standing (g.atTop now) (s.enterRound now n) ∧
      TopLaw (g.atTop now).top s.aborted s.paused now n (s.enterRound now n).pc := by
  have htop : (g.atTop now).top = g.limits := current_of_quiet hq now
  unfold enterRound
  split_ifs with hlast hp
  · refine ⟨.ended rfl, top_needsHuman (by simp) ?_ (by simp) (.inr (.inl rfl))⟩
    intro _
    rw [htop, hf.rounds]
    exact hlast
  · have hsame : SameBudget s { s with pc := .waitPaused n } := ⟨rfl, rfl, rfl, rfl, rfl⟩
    refine ⟨.paused n rfl (not_lt.mp hlast) (inForce_frame hf hsame rfl)
      (quiet_frame hq hsame rfl), ?_⟩
    refine ⟨?_, ?_, ?_, ?_, ?_, ?_⟩
    · grind
    · exact nofun
    · exact nofun
    · exact nofun
    · exact nofun
    · exact nofun
  · exact top_checkBudget hf hq (not_lt.mp hlast)

end Top

theorem idle_of_isEmpty (h : o.isEmpty = true) : idle o := by
  simp only [Budget.isEmpty, Bool.and_eq_true, Option.isNone_iff_eq_none] at h
  exact ⟨h.1.1.1, h.1.1.2, h.1.2⟩

theorem idle_of_absorbed (h : Absorbed ⟨none, none, none, []⟩ o) : idle o :=
  ⟨h.rounds.elim id id, h.cost.elim id id, h.wall⟩

theorem afterCreateCase_budget (s : State) (c : Case) :
    SameLimits (s.afterCreateCase c).budget
      (s.budgetOverride.toList.foldl update c.budget) := by
  have hbudget (b : Budget) (h : (s.budgetOverride = none ∧ b = c.budget) ∨
      ∃ o, s.budgetOverride = some o ∧ b = if o.isEmpty then c.budget else c.budget.update o) :
      SameLimits b (s.budgetOverride.toList.foldl update c.budget) := by
    rcases h with ⟨ho, rfl⟩ | ⟨o, ho, rfl⟩
    · rw [ho]
      exact sameLimits_refl _
    · rw [ho]
      split_ifs with he
      · exact sameLimits_symm (update_idle (sameLimits_refl _) (idle_of_isEmpty he))
      · exact sameLimits_refl _
  apply hbudget
  unfold afterCreateCase
  dsimp only
  cases s.budgetOverride with
  | none =>
    left
    split_ifs
    all_goals exact ⟨rfl, rfl⟩
  | some o =>
    right
    refine ⟨o, rfl, ?_⟩
    by_cases hr : c.rejected = true
    · rw [if_pos hr]
      rfl
    · rw [if_neg hr]
      rfl

theorem afterCreateCase_frame (s : State) (c : Case) :
    (s.afterCreateCase c).budgetOverride = s.budgetOverride ∧
      (phaseOf (s.afterCreateCase c).pc = .ended ∨ (s.afterCreateCase c).pc = .planInitial) := by
  unfold afterCreateCase
  dsimp only
  split_ifs
  · exact ⟨rfl, .inl rfl⟩
  · exact ⟨rfl, .inr rfl⟩

theorem standing_createCase (c : Case) (hb : s.budget = ⟨none, none, none, []⟩)
    (ho : Unapplied g s fun o => o.maxWallSeconds = none) :
    Standing { g with merged := g.pending.foldl update c.budget, pending := [] }
      (s.afterCreateCase c) := by
  obtain ⟨hkept, hover | hplan⟩ := afterCreateCase_frame s c
  · exact .ended hover
  have hbudget := afterCreateCase_budget s c
  rcases ho with hq | ⟨init, o, hf, hw⟩
  · -- the override that the code keeps sets no limit, nor do the pending ones
    have hidle (o : Budget) (h : s.budgetOverride = some o) : idle o := by
      apply idle_of_absorbed
      rw [← hb]
      exact hq.absorbed o h
    have hcase : SameLimits (s.afterCreateCase c).budget c.budget := by
      apply sameLimits_trans hbudget
      apply foldl_update_idle (sameLimits_refl _)
      intro o h
      exact hidle o (Option.mem_toList.mp h)
    refine .planning hplan ?_ ⟨nofun, ?_⟩
    · apply sameLimits_trans _ (sameLimits_symm hcase)
      exact foldl_update_idle (sameLimits_refl _) hq.pending
    · intro o h
      rw [hkept] at h
      exact absorbed_of_idle _ (hidle o h)
  · rw [hf.kept] at hbudget
    refine .planning hplan ?_ ⟨nofun, ?_⟩
    · apply sameLimits_trans _ (sameLimits_symm hbudget)
      dsimp only
      rw [hf.pending, foldl_append]
      exact sameLimits_update (foldl_update_idle (sameLimits_refl _) hf.idle_init) o
    · intro o' h
      rw [hkept, hf.kept] at h
      cases h
      exact absorbed_congr hbudget (absorbed_update _ _ hw)

variable {now : Instant}

theorem top_planInitial (plan : Value) (hpc : s.pc = .planInitial)
    (hm : SameLimits g.merged s.budget) (hq : Quiet g s)
    (hr : Py.addSeconds now (Py.truncate (s.budget.maxWallSeconds.getD 1800)) ≠ none) :
    Standing ((g.enter s now).atTop now) (s.afterPlanInitial now plan) ∧
      TopLaw ((g.enter s now).atTop now).top s.aborted s.paused now 1
        (s.afterPlanInitial now plan).pc := by
  have henter : g.enter s now = { g with limits := .ofBudget now g.merged } := by
    unfold enter
    rw [hpc]
  rw [henter]
  unfold afterPlanInitial
  split
  · contradiction
  · rename_i d hd
    have hdeadline := Py.addSeconds_eq hd
    refine top_enterRound ⟨?_, ?_, ?_, ?_⟩ ⟨hq.pending, hq.absorbed⟩
    · simp [ofBudget, hm.rounds]
    · simp [ofBudget, hm.cost]
    · simp [ofBudget, hm.wall, hdeadline]
    · grind

abbrev NewDeadline (o : Budget) (now : Instant) (s : State) (d : Instant) : Prop :=
  (o.maxWallSeconds = none ∧ d = s.deadline) ∨
    ∃ w, o.maxWallSeconds = some w ∧ d = now + Py.truncate w * 1000000

theorem applyOverride_cases {s u : State} (h : s.applyOverride now = some u) :
    ((∀ o, s.budgetOverride = some o → idle o) ∧ u = s) ∨
    ∃ o d, s.budgetOverride = some o ∧
      NewDeadline o now s d ∧
      u = { s with
        budget := s.budget.update o
        maxRounds := ((s.budget.update o).maxRounds.map Py.truncate).getD s.maxRounds
        maxCost := (s.budget.update o).maxCostUsd.getD s.maxCost
        deadline := d
        budgetOverride := none } := by
  unfold applyOverride at h
  cases ho : s.budgetOverride with
  | none =>
    rw [ho] at h
    cases h
    exact .inl ⟨fun o h => (by cases h), rfl⟩
  | some o =>
    rw [ho] at h
    dsimp only at h
    split_ifs at h with he
    · cases h
      refine .inl ⟨?_, rfl⟩
      rintro o' ⟨⟩
      exact idle_of_isEmpty he
    · obtain ⟨d, hd, rfl⟩ := Option.map_eq_some_iff.mp h
      refine .inr ⟨o, d, rfl, ?_, rfl⟩
      cases hw : o.maxWallSeconds with
      | none =>
        rw [hw] at hd
        exact .inl ⟨hw, (Option.some.inj hd).symm⟩
      | some w =>
        rw [hw] at hd
        exact .inr ⟨w, hw, Py.addSeconds_eq hd⟩

theorem applyOverride_ne_none (h : ∀ w, s.budgetOverride.bind maxWallSeconds = some w →
    Py.addSeconds now (Py.truncate w) ≠ none) : s.applyOverride now ≠ none := by
  unfold applyOverride
  cases ho : s.budgetOverride with
  | none => exact nofun
  | some o =>
    rw [ho, Option.bind_some] at h
    dsimp only
    split_ifs
    · exact nofun
    · cases hw : o.maxWallSeconds with
      | none => exact nofun
      | some w => exact Option.map_eq_none_iff.not.mpr (h w hw)

theorem update_cost (hb : ∀ q, s.budget.maxCostUsd = some q → s.maxCost = q) (o : Budget) :
    (s.budget.update o).maxCostUsd.getD s.maxCost = o.maxCostUsd.getD s.maxCost := by
  simp only [update]
  cases o.maxCostUsd with
  | some q => rfl
  | none =>
    rw [Option.none_or, Option.getD_none]
    cases hq : s.budget.maxCostUsd with
    | none => rfl
    | some q => exact (hb q hq).symm

section Override

variable {g : Overrides} {s : State} {now d : Instant} {o : Budget}

theorem limits_absorbed (hf : InForce g s) (ha : Absorbed s.budget o)
    (hd : NewDeadline o now s d) :
    g.limits.cost = (s.budget.update o).maxCostUsd.getD s.maxCost ∧ g.limits.deadline = d := by
  have hcost : (s.budget.update o).maxCostUsd.getD s.maxCost = s.maxCost := by
    rw [(sameLimits_of_absorbed ha).cost]
    cases hq : s.budget.maxCostUsd with
    | none => rfl
    | some q => exact (hf.budget_cost q hq).symm
  have hdead : d = s.deadline := by
    obtain ⟨-, h⟩ | ⟨w, h, -⟩ := hd
    · exact h
    · rw [ha.wall] at h
      cases h
  exact ⟨hf.cost.trans hcost.symm, hf.deadline.trans hdead.symm⟩

theorem limits_fresh (hf : InForce g s)
    (hr : KeepsRounds s o)
    (hd : NewDeadline o now s d) :
    (g.limits.override now o).rounds = s.lastRound ∧
      (g.limits.override now o).cost = (s.budget.update o).maxCostUsd.getD s.maxCost ∧
      (g.limits.override now o).deadline = d := by
  refine ⟨?_, ?_, ?_⟩
  · change (o.maxRounds.map Py.truncate).getD g.limits.rounds = s.lastRound
    rcases hr with hr | hr
    · rw [hr]
      exact hf.rounds
    · rw [hr]
      rfl
  · change o.maxCostUsd.getD g.limits.cost = _
    rw [hf.cost]
    exact (update_cost hf.budget_cost o).symm
  · obtain ⟨hw, rfl⟩ | ⟨w, hw, rfl⟩ := hd
    · simp only [override, hw]
      exact hf.deadline
    · simp only [override, hw]

theorem inForce_applyOverride {u : State} (hf : InForce g s)
    (ho : Unapplied g s (KeepsRounds s))
    (h : s.applyOverride now = some u) :
    InForce { g with limits := g.current now, pending := [] } u ∧
      Quiet { g with limits := g.current now, pending := [] } u := by
  have hbudget (b : Budget) (m : ℚ) (q : ℚ) (h : b.maxCostUsd = some q) :
      b.maxCostUsd.getD m = q := by
    rw [h]
    rfl
  obtain ⟨hidle, rfl⟩ | ⟨o, d, hso, hd, rfl⟩ := applyOverride_cases h
  · -- nothing is applied, and nothing was to be
    have hcur : g.current now = g.limits := by
      rcases ho with hq | ⟨init, o, hfr, -⟩
      · exact current_of_quiet hq now
      · rw [current_of_fresh hfr, override_idle (hidle o hfr.kept)]
    refine ⟨?_, nofun, fun o h => absorbed_of_idle _ (hidle o h)⟩
    rw [hcur]
    exact ⟨hf.rounds, hf.cost, hf.deadline, hf.budget_cost⟩
  · refine ⟨?_, nofun, nofun⟩
    rcases ho with hq | ⟨init, o', hfr, hr⟩
    · obtain ⟨hcost, hdead⟩ := limits_absorbed hf (hq.absorbed o hso) hd
      rw [current_of_quiet hq]
      exact ⟨hf.rounds, hcost, hdead, hbudget _ _⟩
    · obtain rfl : o' = o := Option.some.inj (hfr.kept.symm.trans hso)
      obtain ⟨hrounds, hcost, hdead⟩ := limits_fresh hf hr hd
      rw [current_of_fresh hfr]
      exact ⟨hrounds, hcost, hdead, hbudget _ _⟩

end Override

variable {n : ℤ}

theorem standing_getSpend (usd : ℚ) (hf : InForce g s)
    (ho : Unapplied g s (KeepsRounds s))
    (hr : ¬s.maxCost ≤ usd → s.applyOverride now ≠ none) :
    Standing { g with limits := g.current now, pending := [] } (s.afterGetSpend now n usd) ∧
      ((s.maxCost ≤ usd ∧ (s.afterGetSpend now n usd).pc = .toNeedsHuman .costBudget) ∨
        (usd < s.maxCost ∧ (s.afterGetSpend now n usd).pc = .collect n usd)) := by
  unfold afterGetSpend
  split_ifs with hc
  · exact ⟨.ended rfl, .inl ⟨hc, rfl⟩⟩
  · split
    · exact absurd ‹_› (hr hc)
    · rename_i u hu
      obtain ⟨hforce, hquiet⟩ := inForce_applyOverride hf ho hu
      refine ⟨.rounds rfl nofun ?_ ?_, .inr ⟨not_le.mp hc, rfl⟩⟩
      · exact inForce_frame hforce ⟨rfl, rfl, rfl, rfl, rfl⟩ rfl
      · exact quiet_frame hquiet ⟨rfl, rfl, rfl, rfl, rfl⟩ rfl

def budgetPoint : Pc → Bool
  | .getSpend _ => true
  | .collect _ _ => true
  | .toNeedsHuman .roundBudget => true
  | .toNeedsHuman .timeBudget => true
  | .toNeedsHuman .costBudget => true
  | _ => false

theorem budgetPoint_rawLoop (s : State) (round : ℤ) (report : Report)
    (reqs : List RawCommandRequest) : budgetPoint (s.rawLoop round report reqs).pc = false := by
  cases reqs with
  | cons req rest => rfl
  | nil =>
    unfold rawLoop endRound
    split_ifs
    all_goals rfl

theorem budgetPoint_actionLoop (s : State) (rest : List Action) :
    budgetPoint (s.actionLoop rest).pc = false := by
  cases rest with
  | cons a rest => rfl
  | nil =>
    unfold actionLoop
    split_ifs
    all_goals rfl

variable {a : Reply}

/-- Nothing but the top of a round and the answer of `get_spend` leads to them. -/
theorem budgetPoint_resume {s : State} (h : s.resume now a = some t)
    (htop : topOf s (.reply a) = none) (ha : ∀ usd, a ≠ .spend usd) : budgetPoint t.pc = false := by
  cases resumed_of_resume h with
  | createCase c _ =>
    unfold afterCreateCase
    dsimp only
    split_ifs
    all_goals rfl
  | planInitial p hpc => simp [topOf, hpc] at htop
  | getSpend usd n _ => grind
  | recordIteration round report _ => exact budgetPoint_rawLoop _ _ _ _
  | validateRaw ok round report req rest _ =>
    split_ifs
    · rfl
    · exact budgetPoint_rawLoop _ _ _ _
  | recordDecision g aid d _ =>
    unfold afterDecision
    cases g with
    | raw round report req rest =>
      dsimp only
      split_ifs
      · rfl
      · exact budgetPoint_rawLoop _ _ _ _
    | remediation action rest =>
      dsimp only
      split_ifs
      · rfl
      · exact budgetPoint_actionLoop _ _
  | runRaw es round report rest _ => exact budgetPoint_rawLoop _ _ _ _
  | planNext p round hpc => simp [topOf, hpc] at htop
  | planRemediation r _ =>
    unfold afterPlanRemediation
    dsimp only
    split_ifs
    · rfl
    · exact budgetPoint_actionLoop _ _
  | executePlaybook ok exec action rest _ =>
    unfold afterExecute
    dsimp only
    split_ifs
    all_goals rfl
  | verifyFix ok action rest _ =>
    unfold afterVerify
    split_ifs
    · rfl
    · exact budgetPoint_actionLoop _ _
  | _ => rfl

structure InRounds (s t : State) : Prop where
  phase : phaseOf t.pc = .rounds
  not_paused : ∀ n, t.pc ≠ .waitPaused n
  same : SameBudget s t

theorem inRounds_rawLoop {s u : State} (round : ℤ) (report : Report)
    (reqs : List RawCommandRequest) (hs : SameBudget s u) :
    phaseOf (u.rawLoop round report reqs).pc = .ended ∨
      InRounds s (u.rawLoop round report reqs) := by
  have hsame (c : Call) (pc : Pc) : SameBudget s (u.schedule c pc) :=
    ⟨hs.budget, hs.budgetOverride, hs.lastRound, hs.maxCost, hs.deadline⟩
  cases reqs with
  | cons req rest => exact .inr ⟨rfl, nofun, hsame _ _⟩
  | nil =>
    unfold rawLoop endRound
    split_ifs
    · exact .inl rfl
    · exact .inl rfl
    · exact .inr ⟨rfl, nofun, hsame _ _⟩

theorem inRounds_resume {s : State} (hpc : phaseOf s.pc = .rounds)
    (htop : topOf s (.reply a) = none) (h : s.resume now a = some t) :
    phaseOf t.pc = .ended ∨ InRounds s t := by
  have habs {pc : Pc} (hs : s.pc = pc) (he : phaseOf pc ≠ .rounds) : False := by
    rw [hs] at hpc
    exact he hpc
  have hsame : SameBudget s s := ⟨rfl, rfl, rfl, rfl, rfl⟩
  cases resumed_of_resume h with
  | collect es round spent _ =>
    exact .inr ⟨rfl, nofun, ⟨rfl, rfl, rfl, rfl, rfl⟩⟩
  | analyze r round _ =>
    exact .inr ⟨rfl, nofun, ⟨rfl, rfl, rfl, rfl, rfl⟩⟩
  | recordIteration round report _ => exact inRounds_rawLoop _ _ _ hsame
  | validateRaw ok round report req rest _ =>
    split_ifs
    · exact .inr ⟨rfl, nofun, ⟨rfl, rfl, rfl, rfl, rfl⟩⟩
    · exact inRounds_rawLoop _ _ _ hsame
  | createApproval aid g hg =>
    cases g with
    | raw round report req rest =>
      exact .inr ⟨rfl, nofun, ⟨rfl, rfl, rfl, rfl, rfl⟩⟩
    | remediation action rest => exact .inl rfl
  | notifyApproval _ g aid _ hg =>
    cases g with
    | raw round report req rest =>
      exact .inr ⟨rfl, nofun, ⟨rfl, rfl, rfl, rfl, rfl⟩⟩
    | remediation action rest => exact .inl rfl
  | recordDecision g aid d hg =>
    cases g with
    | raw round report req rest =>
      unfold afterDecision
      dsimp only
      split_ifs
      · exact .inr ⟨rfl, nofun, ⟨rfl, rfl, rfl, rfl, rfl⟩⟩
      · exact inRounds_rawLoop _ _ _ ⟨rfl, rfl, rfl, rfl, rfl⟩
    | remediation action rest => exact (habs hg (by simp [phaseOf])).elim
  | runRaw es round report rest _ => exact inRounds_rawLoop _ _ _ ⟨rfl, rfl, rfl, rfl, rfl⟩
  | planNext p round hn => simp [topOf, hn] at htop
  | notified a o ha hn => exact .inl rfl
  | raised _ => exact .inl rfl
  | _ =>
    rename_i hn
    exact (habs hn (by simp [phaseOf])).elim

theorem standing_of_inRounds {s : State} (hf : InForce g s) (hq : Quiet g s)
    (h : phaseOf t.pc = .ended ∨ InRounds s t) : Standing g t := by
  rcases h with h | h
  · exact .ended h
  · exact .rounds h.phase h.not_paused (inForce_frame hf h.same rfl) (quiet_frame hq h.same rfl)

section Law

variable {x y : Budgeted} {e : Event}

theorem law_of_plain (htop : topOf x.run.wf e = none) (hs : ∀ usd, e ≠ .reply (.spend usd))
    (hp : budgetPoint y.run.wf.pc = false ∨ y.run.wf.pc = x.run.wf.pc) : BudgetLaw x e y := by
  have hno {pc : Pc} (hy : y.run.wf.pc = pc) (hx : x.run.wf.pc ≠ pc)
      (hb : budgetPoint pc = true) : False := by
    rcases hp with hp | hp
    · grind
    · grind
  constructor
  · grind
  · grind
  · exact fun n hy hx => (hno hy hx rfl).elim
  · exact fun n usd hy hx => (hno hy hx rfl).elim
  · exact fun hy hx => (hno hy hx rfl).elim
  · exact fun hy hx => (hno hy hx rfl).elim
  · exact fun hy hx => (hno hy hx rfl).elim

theorem law_of_top {n : ℤ} (htop : topOf x.run.wf e = some n)
    (hl : TopLaw y.book.top x.run.wf.aborted x.run.wf.paused x.run.now n y.run.wf.pc) :
    BudgetLaw x e y := by
  constructor
  · intro m hm
    rw [htop] at hm
    cases hm
    exact hl.opens_iff
  · rintro m usd - rfl
    cases htop
  · intro m hy _
    rw [hl.opens m hy]
    exact htop
  · exact fun m usd hy _ => absurd hy (hl.collects m usd)
  · exact fun hy _ => ⟨n, htop, hl.round_budget hy⟩
  · exact fun hy _ => ⟨n, htop, hl.time_budget hy⟩
  · exact fun hy _ => absurd hy hl.cost_budget

theorem law_of_spend {n : ℤ} {usd c : ℚ} (hpc : x.run.wf.pc = .getSpend n)
    (he : e = .reply (.spend usd)) (hn : n ≤ x.book.top.rounds)
    (ht : x.book.topNow < x.book.top.deadline) (hc : x.book.top.cost = c)
    (hy : (c ≤ usd ∧ y.run.wf.pc = .toNeedsHuman .costBudget) ∨
      (usd < c ∧ y.run.wf.pc = .collect n usd)) : BudgetLaw x e y := by
  subst he
  subst hc
  constructor
  · exact nofun
  · grind
  · grind
  · grind
  · grind
  · grind
  · grind

end Law

theorem topOf_reply (h : topOf s (.reply a) = some n) :
    ∃ p, a = .plan p ∧ ((s.pc = .planInitial ∧ n = 1) ∨ ∃ m, s.pc = .planNext m ∧ n = m+1) := by
  cases a with
  | plan p => grind [topOf]
  | _ => cases h

theorem observe_plain (g : Overrides) {r : Run} {e : Event} (htop : topOf r.wf e = none)
    (hb : ∀ b, e ≠ .signal (.adjustBudget b)) (hc : ∀ c, e ≠ .reply (.case c))
    (hs : ∀ usd, e ≠ .reply (.spend usd)) : g.observe r e = g := by
  unfold observe
  grind

theorem observe_top (g : Overrides) {r : Run} {e : Event} (htop : topOf r.wf e = some n) :
    g.observe r e = (g.enter r.wf r.now).atTop r.now := by
  unfold observe
  split
  · cases htop
  · cases htop
  · cases htop
  · rw [htop]

theorem resume_case {s : State} {c : Case} (h : s.resume now (.case c) = some t) :
    s.pc = .createCase ∧ t = s.afterCreateCase c := by
  cases resumed_of_resume h with
  | createCase c hpc => exact ⟨hpc, rfl⟩
  | notifyApproval _ _ _ ha _ => simp at ha
  | notified _ _ ha _ => simp at ha

theorem resume_spend {s : State} {usd : ℚ} (h : s.resume now (.spend usd) = some t) :
    ∃ n, s.pc = .getSpend n ∧ t = s.afterGetSpend now n usd := by
  cases resumed_of_resume h with
  | getSpend usd n hpc => exact ⟨n, hpc, rfl⟩
  | notifyApproval _ _ _ ha _ => simp at ha
  | notified _ _ ha _ => simp at ha

theorem resume_planNext {s : State} {p : Value} {m : ℤ} (hpc : s.pc = .planNext m)
    (h : s.resume now (.plan p) = some t) :
    t = enterRound { s with plan := p } now (m+1) := by
  simp only [resume, hpc] at h
  grind

theorem resume_planInitial {s : State} {p : Value} (hpc : s.pc = .planInitial)
    (h : s.resume now (.plan p) = some t) : t = s.afterPlanInitial now p := by
  simp only [resume, hpc] at h
  grind

theorem resume_failed {s : State}
    (hpc : s.pc = .createCase ∨ s.pc = .planInitial ∨ ∃ n, s.pc = .getSpend n)
    (htop : topOf s (.reply a) = none) (hc : ∀ c, a ≠ .case c) (hs : ∀ usd, a ≠ .spend usd)
    (h : s.resume now a = some t) : phaseOf t.pc = .ended := by
  have habs {pc : Pc} (hp : s.pc = pc) (hne : pc ≠ .createCase)
      (hne' : pc ≠ .planInitial) (hne'' : ∀ n, pc ≠ .getSpend n) : False := by
    rcases hpc with h | h | ⟨n, h⟩
    · grind
    · grind
    · grind
  cases resumed_of_resume h with
  | createCase c _ => exact absurd rfl (hc c)
  | planInitial p hp => simp [topOf, hp] at htop
  | getSpend usd n _ => grind
  | raised _ => rfl
  | notifyApproval _ g aid _ hp => grind
  | notified a o ha hp => rfl
  | _ => grind

theorem standing_at_createCase (h : Standing g s) (hpc : s.pc = .createCase) :
    s.budget = ⟨none, none, none, []⟩ ∧
      (Unapplied g s fun o => o.maxWallSeconds = none) := by
  cases h with
  | opening _ hb ho => exact ⟨hb, ho⟩
  | _ => simp_all [phaseOf]

theorem standing_at_planInitial (h : Standing g s) (hpc : s.pc = .planInitial) :
    SameLimits g.merged s.budget ∧ Quiet g s := by
  cases h with
  | planning _ hm hq => exact ⟨hm, hq⟩
  | _ => simp_all [phaseOf]

theorem standing_at_planNext {m : ℤ} (h : Standing g s) (hpc : s.pc = .planNext m) :
    InForce g s ∧ Quiet g s := by
  cases h with
  | rounds _ _ hf hq => exact ⟨hf, hq⟩
  | _ => simp_all [phaseOf]

theorem standing_at_getSpend (h : Standing g s) (hpc : s.pc = .getSpend n) :
    InForce g s ∧ n ≤ g.top.rounds ∧ g.topNow < g.top.deadline ∧
      g.top.cost = s.maxCost ∧ (Unapplied g s (KeepsRounds s)) := by
  cases h with
  | spending m hp hf hn ht hc ho => grind
  | _ => simp_all [phaseOf]

theorem standing_at_waitPaused (h : Standing g s) (hpc : s.pc = .waitPaused n) :
    n ≤ s.lastRound ∧ InForce g s ∧ Quiet g s := by
  cases h with
  | paused m hp hn hf hq => grind
  | rounds _ hp => exact absurd hpc (hp n)
  | _ => simp_all [phaseOf]

variable {x : Budgeted}

theorem standing_reply_top (hs : Standing x.book x.run.wf)
    (h : x.run.wf.resume x.run.now a = some t) (ht : Timely x (.reply a))
    (htop : topOf x.run.wf (.reply a) = some n) :
    Standing (x.book.observe x.run (.reply a)) t ∧
      BudgetLaw x (.reply a) ⟨{ x.run with wf := t }, x.book.observe x.run (.reply a)⟩ := by
  have hobs := observe_top x.book htop
  obtain ⟨p, rfl, ⟨hpc, rfl⟩ | ⟨m, hpc, rfl⟩⟩ := topOf_reply htop
  · obtain rfl := resume_planInitial hpc h
    obtain ⟨hm, hq⟩ := standing_at_planInitial hs hpc
    have hwall : newWall x.run.wf (.reply (.plan p)) =
        some (x.run.wf.budget.maxWallSeconds.getD 1800) := by simp only [newWall, hpc]
    obtain ⟨hst, hlaw⟩ := top_planInitial p hpc hm hq (ht.in_range _ hwall)
    rw [hobs]
    exact ⟨hst, law_of_top htop hlaw⟩
  · obtain rfl := resume_planNext hpc h
    have henter : x.book.enter x.run.wf x.run.now = x.book := by
      unfold enter
      rw [hpc]
    rw [henter] at hobs
    obtain ⟨hf, hq⟩ := standing_at_planNext hs hpc
    have hsame : SameBudget x.run.wf { x.run.wf with plan := p } := ⟨rfl, rfl, rfl, rfl, rfl⟩
    obtain ⟨hst, hlaw⟩ := top_enterRound (s := { x.run.wf with plan := p })
      (inForce_frame hf hsame rfl) (quiet_frame hq hsame rfl)
    rw [hobs]
    exact ⟨hst, law_of_top htop hlaw⟩

theorem standing_reply_plain (hs : Standing x.book x.run.wf)
    (h : x.run.wf.resume x.run.now a = some t) (htop : topOf x.run.wf (.reply a) = none)
    (hns : ∀ usd, a ≠ .spend usd) (hnc : ∀ c, a ≠ .case c) :
    Standing (x.book.observe x.run (.reply a)) t := by
  have hobs : x.book.observe x.run (.reply a) = x.book :=
    observe_plain x.book htop (by simp) (by simpa using hnc) (by simpa using hns)
  rw [hobs]
  cases hs with
  | opening hp => exact .ended (resume_failed (.inl hp) htop hnc hns h)
  | planning hp => exact .ended (resume_failed (.inr (.inl hp)) htop hnc hns h)
  | spending n hp => exact .ended (resume_failed (.inr (.inr ⟨n, hp⟩)) htop hnc hns h)
  | paused n hp _ hf hq =>
    exact standing_of_inRounds hf hq (inRounds_resume (by rw [hp]; rfl) htop h)
  | rounds hp _ hf hq => exact standing_of_inRounds hf hq (inRounds_resume hp htop h)
  | ended hp => exact .ended (ended_resume hp h).1

theorem standing_reply (hs : Standing x.book x.run.wf) (h : x.run.wf.resume x.run.now a = some t)
    (ht : Timely x (.reply a)) :
    Standing (x.book.observe x.run (.reply a)) t ∧
      BudgetLaw x (.reply a) ⟨{ x.run with wf := t }, x.book.observe x.run (.reply a)⟩ := by
  cases htop : topOf x.run.wf (.reply a) with
  | some n => exact standing_reply_top hs h ht htop
  | none =>
    by_cases hspend : ∃ usd, a = .spend usd
    · -- the answer of `get_spend`
      obtain ⟨usd, rfl⟩ := hspend
      obtain ⟨n, hpc, rfl⟩ := resume_spend h
      obtain ⟨hf, hn, hnow, hc, ho⟩ := standing_at_getSpend hs hpc
      have hr (hlt : ¬x.run.wf.maxCost ≤ usd) : x.run.wf.applyOverride x.run.now ≠ none := by
        apply applyOverride_ne_none
        intro w hw
        exact ht.in_range w (by rw [newWall, if_neg hlt, hw])
      obtain ⟨hst, hy⟩ := standing_getSpend usd hf ho hr
      exact ⟨hst, law_of_spend hpc rfl hn hnow hc hy⟩
    · have hns : ∀ usd, a ≠ .spend usd := fun usd he => hspend ⟨usd, he⟩
      refine ⟨?_, law_of_plain htop (fun usd he => hns usd (by cases he; rfl))
        (.inl (budgetPoint_resume h htop hns))⟩
      by_cases hcase : ∃ c, a = .case c
      · obtain ⟨c, rfl⟩ := hcase
        obtain ⟨hpc, rfl⟩ := resume_case h
        obtain ⟨hb, ho⟩ := standing_at_createCase hs hpc
        exact standing_createCase c hb ho
      · exact standing_reply_plain hs h htop hns (fun c he => hcase ⟨c, he⟩)

theorem sameBudget_signal (s : State) {sig : Signal} (h : ∀ b, sig ≠ .adjustBudget b) :
    SameBudget s (s.signal sig) := by
  cases sig with
  | adjustBudget b => exact absurd rfl (h b)
  | pause =>
    simp only [signal]
    split_ifs
    all_goals exact ⟨rfl, rfl, rfl, rfl, rfl⟩
  | abort =>
    simp only [signal]
    split_ifs
    all_goals exact ⟨rfl, rfl, rfl, rfl, rfl⟩
  | resume => exact ⟨rfl, rfl, rfl, rfl, rfl⟩
  | approvalDecided d =>
    simp only [signal]
    split
    · split_ifs
      all_goals exact ⟨rfl, rfl, rfl, rfl, rfl⟩
    · exact ⟨rfl, rfl, rfl, rfl, rfl⟩

variable {b : Budget}

theorem idle_of_inTime (h : InTime s b) (hc : s.pc ≠ .createCase) (hp : phaseOf s.pc ≠ .spending) :
    idle b := by
  rcases h with hi | ⟨hpc, -⟩ | ⟨hph, -⟩
  · exact hi
  · exact absurd hpc hc
  · exact absurd hph hp

theorem standing_adjustBudget (hs : Standing g s)
    (ht : phaseOf s.pc ≠ .ended → (∀ o ∈ g.pending, idle o) ∧ InTime s b) :
    Standing { g with pending := g.pending ++ [b] } { s with budgetOverride := some b } := by
  by_cases hover : phaseOf s.pc = .ended
  · exact .ended hover
  obtain ⟨hpending, hin⟩ := ht hover
  have hforce (hf : InForce g s) :
      InForce { g with pending := g.pending ++ [b] } { s with budgetOverride := some b } :=
    ⟨hf.rounds, hf.cost, hf.deadline, hf.budget_cost⟩
  have hquiet (hi : idle b) :
      Quiet { g with pending := g.pending ++ [b] } { s with budgetOverride := some b } := by
    refine ⟨?_, ?_⟩
    · grind
    · rintro o ⟨⟩
      exact absorbed_of_idle _ hi
  have hfresh : Fresh { g with pending := g.pending ++ [b] } { s with budgetOverride := some b }
    g.pending b := ⟨rfl, hpending, rfl⟩
  cases hs with
  | opening hpc hb ho =>
    refine .opening hpc hb ?_
    rcases hin with hi | ⟨-, hw⟩ | ⟨hp, -⟩
    · exact .inl (hquiet hi)
    · grind
    · rw [hpc] at hp
      cases hp
  | planning hpc hm hq =>
    have hi := idle_of_inTime hin (by simp [hpc]) (by simp [hpc, phaseOf])
    exact .planning hpc hm (hquiet hi)
  | spending n hpc hf hn htop hc ho =>
    refine .spending n hpc (hforce hf) hn htop hc ?_
    rcases hin with hi | ⟨hp, -⟩ | ⟨-, hr⟩
    · exact .inl (hquiet hi)
    · grind
    · grind
  | paused n hpc hn hf hq =>
    have hi := idle_of_inTime hin (by simp [hpc]) (by simp [hpc, phaseOf])
    exact .paused n hpc hn (hforce hf) (hquiet hi)
  | rounds hpc hp' hf hq =>
    have hc : s.pc ≠ .createCase := by
      intro he
      rw [he] at hpc
      cases hpc
    exact .rounds hpc hp' (hforce hf) (hquiet (idle_of_inTime hin hc (by simp [hpc])))
  | ended hpc => exact .ended hpc

theorem standing_signal {sig : Signal} (hs : Standing x.book x.run.wf)
    (ht : Timely x (.signal sig)) :
    Standing (x.book.observe x.run (.signal sig)) (x.run.wf.signal sig) := by
  by_cases hadj : ∃ b, sig = .adjustBudget b
  · obtain ⟨b, rfl⟩ := hadj
    simp only [observe, signal]
    split_ifs with hterm
    · exact hs
    · exact standing_adjustBudget hs (ht.override b rfl hterm)
  · have hne : ∀ b, sig ≠ .adjustBudget b := fun b h => hadj ⟨b, h⟩
    rw [observe_plain x.book rfl (by simpa using hne) (by simp) (by simp)]
    exact standing_frame hs (sameBudget_signal _ hne) (pc_signal _ _)

theorem standing_recordDecision {gate : Gate} {aid : Uuid} {timer : Instant} (hs : Standing g s)
    (hpc : s.pc = .waitDecision gate aid timer) (d : DecisionDict) (isTimeout : Bool) :
    Standing g (s.recordDecision gate aid d isTimeout) := by
  cases gate with
  | remediation action rest => exact .ended rfl
  | raw round report req rest =>
    cases hs with
    | rounds _ _ hf hq =>
      apply standing_of_inRounds hf hq
      exact .inr ⟨rfl, nofun, ⟨rfl, rfl, rfl, rfl, rfl⟩⟩
    | _ => simp_all [phaseOf]

theorem standing_step {x y : Budgeted} {e : Event} (hs : Standing x.book x.run.wf)
    (ht : Timely x e) (h : budgeted.step x e = some y) :
    Standing y.book y.run.wf ∧ BudgetLaw x e y := by
  obtain ⟨r, hr, rfl⟩ := Option.map_eq_some_iff.mp h
  obtain ⟨sig, rfl, -, rfl⟩ | ⟨a, s, rfl, hs', rfl⟩ | ⟨s, rfl, hs', rfl⟩ | ⟨s, rfl, hs', rfl⟩ |
    ⟨t, rfl, -, rfl⟩ := step_cases hr
  · exact ⟨standing_signal hs ht, law_of_plain rfl (by simp) (.inr (pc_signal _ _))⟩
  · exact standing_reply hs hs' ht
  · obtain ⟨n, hpc, -, rfl⟩ | ⟨gate, aid, timer, d, hpc, -, -, rfl⟩ := wake_cases hs'
    · have htop : topOf x.run.wf .wake = some n := by simp only [topOf, hpc]
      have henter : x.book.enter x.run.wf x.run.now = x.book := by
        unfold enter
        rw [hpc]
      have hobs := observe_top x.book htop
      rw [henter] at hobs
      obtain ⟨hn, hf, hq⟩ := standing_at_waitPaused hs hpc
      obtain ⟨hst, hl⟩ := top_checkBudget hf hq hn
      dsimp only
      rw [hobs]
      exact ⟨hst, law_of_top htop hl⟩
    · have htop : topOf x.run.wf .wake = none := by simp only [topOf, hpc]
      refine ⟨?_, law_of_plain htop (by simp) (.inl rfl)⟩
      dsimp only
      rw [observe_plain x.book htop (by simp) (by simp) (by simp)]
      exact standing_recordDecision hs hpc d false
  · obtain ⟨gate, aid, timer, hpc, -, -, rfl⟩ | ⟨action, rest, exec, timer, hpc, -, rfl⟩ :=
      timer_cases hs'
    · refine ⟨?_, law_of_plain rfl (by simp) (.inl rfl)⟩
      exact standing_recordDecision hs hpc _ true
    · exact ⟨.ended rfl, law_of_plain rfl (by simp) (.inl rfl)⟩
  · exact ⟨hs, law_of_plain rfl (by simp) (.inr rfl)⟩

theorem standing_reachVia (x : Budgeted) (h : budgeted.ReachVia Timely x) :
    Standing x.book x.run.wf := by
  apply reachVia_invariant budgeted Timely (fun x => Standing x.book x.run.wf) _ _ x h
  · rintro x ⟨⟨input, hr⟩, hp⟩
    rw [hr]
    refine .opening rfl rfl (.inl ⟨?_, nofun⟩)
    rw [hp]
    exact nofun
  · intro x e y _ he hs hy
    exact (standing_step hs he hy).1

/-- Under overrides that come in time, every event of every run obeys the budget
law. -/
theorem budget_law (x y : Budgeted) (e : Event) (hx : budgeted.ReachVia Timely x)
    (he : Timely x e) (hy : budgeted.step x e = some y) : BudgetLaw x e y :=
  (standing_step (standing_reachVia x hx) he hy).2

theorem timely_adjustBudget (hp : ∀ o ∈ x.book.pending, idle o) (hin : InTime x.run.wf b) :
    Timely x (.signal (.adjustBudget b)) := by
  refine ⟨?_, nofun⟩
  rintro b' ⟨⟩ - -
  exact ⟨hp, hin⟩

def sampleMore : Report := ⟨.needMoreData, 0, [], [], none, none, []⟩

def sampleBudgeted : Budgeted :=
  ⟨sampleStart, ⟨⟨none, none, none, []⟩, ⟨0, 0, 0⟩, [], ⟨0, 0, 0⟩, 0⟩⟩

/-- The cost limit is raised before `create_case` answers and lowered while the
first `get_spend` runs; the second round ends the run by it. -/
theorem budget_law_sampleOverrides :
    ∃ x y, budgeted.run sampleBudgeted
        [.signal (.adjustBudget ⟨none, some 8, none, []⟩), .reply (.case sampleCase),
          .reply (.plan .null), .signal (.adjustBudget ⟨none, some 2, some 60, []⟩),
          .reply (.spend 6), .reply (.evidence []), .reply (.report sampleMore), .reply .done,
          .reply (.plan .null)] = some x ∧
      budgeted.step x (.reply (.spend 6)) = some y ∧
      y.run.wf.pc = .toNeedsHuman .costBudget ∧ BudgetLaw x (.reply (.spend 6)) y := by
  have h0 : budgeted.ReachVia Timely sampleBudgeted := .init ⟨⟨sampleInput, rfl⟩, rfl⟩
  have h1 : budgeted.ReachVia Timely _ :=
    .step h0 (timely_adjustBudget (b := ⟨none, some 8, none, []⟩) nofun (.inr (.inl ⟨rfl, rfl⟩)))
      rfl
  have h2 : budgeted.ReachVia Timely _ :=
    .step h1 (e := .reply (.case sampleCase)) ⟨nofun, nofun⟩ rfl
  have h3 : budgeted.ReachVia Timely _ := .step h2 (e := .reply (.plan .null)) ⟨nofun, by
    rintro w ⟨⟩
    decide⟩ rfl
  have h4 : budgeted.ReachVia Timely _ :=
    .step h3 (timely_adjustBudget (b := ⟨none, some 2, some 60, []⟩) nofun
      (.inr (.inr ⟨rfl, .inl rfl⟩))) rfl
  have h5 : budgeted.ReachVia Timely _ := .step h4 (e := .reply (.spend 6)) ⟨nofun, by
    rintro w ⟨⟩
    decide⟩ rfl
  have h6 : budgeted.ReachVia Timely _ := .step h5 (e := .reply (.evidence [])) ⟨nofun, nofun⟩ rfl
  have h7 : budgeted.ReachVia Timely _ :=
    .step h6 (e := .reply (.report sampleMore)) ⟨nofun, nofun⟩ rfl
  have h8 : budgeted.ReachVia Timely _ := .step h7 (e := .reply .done) ⟨nofun, nofun⟩ rfl
  have h9 : budgeted.ReachVia Timely _ := .step h8 (e := .reply (.plan .null)) ⟨nofun, nofun⟩ rfl
  exact ⟨_, _, rfl, rfl, rfl, budget_law _ _ _ h9 ⟨nofun, nofun⟩ rfl⟩

/-- The number of rounds is raised while `get_spend` runs, and the run ends as
`round_budget` all the same: the range was evaluated when the loop was entered. -/
theorem raised_rounds_ignored :
    ∃ x y, budgeted.run sampleBudgeted
        [.reply (.case { sampleCase with budget := ⟨some 1, some 5, some 600, []⟩ }),
          .reply (.plan .null), .signal (.adjustBudget ⟨some 9, none, none, []⟩),
          .reply (.spend 0), .reply (.evidence []), .reply (.report sampleMore),
          .reply .done] = some x ∧
      budgeted.step x (.reply (.plan .null)) = some y ∧
      y.run.wf.pc = .toNeedsHuman .roundBudget ∧
      topOf x.run.wf (.reply (.plan .null)) = some 2 ∧ y.book.top.rounds = 9 ∧
      ¬ BudgetLaw x (.reply (.plan .null)) y := by
  refine ⟨_, _, rfl, rfl, rfl, rfl, by decide, ?_⟩
  intro h
  obtain ⟨n, hn, hlt⟩ := h.round_budget rfl nofun
  cases hn
  revert hlt
  decide

end DbAgent.WorkflowRuns
