import Mathlib.Data.List.Count
import Mathlib.Data.List.Nodup
import Mathlib.Data.Nat.Notation
import Mathlib.Algebra.Order.Ring.Int
import DbAgent.TransitionSystem

/-! The maturity counters of one playbook, which the transactions of
`execute_playbook` and `verify_fix` read and write back as a whole. -/
namespace DbAgent.PlaybookMaturity

open Transition List

/-- `playbooks.maturity`; a counter that is absent or null is `none`. -/
structure Maturity where
  approvedRuns : Option ℤ
  success : Option ℤ
  rollbacks : Option ℤ
  deriving DecidableEq, Repr

/-- `pb.maturity or default`: NULL and the empty object are false. -/
def maturityOr (m : Option Maturity) (default : Maturity) : Maturity :=
  match m with
  | none => default
  | some mat => if mat = ⟨none, none, none⟩ then default else mat

def approvedRuns (m : Option Maturity) : ℤ := (m.bind (fun mat => mat.approvedRuns)).getD 0

def success (m : Option Maturity) : ℤ := (m.bind (fun mat => mat.success)).getD 0

/-- The maturity that `execute_playbook` writes back. -/
def executeMaturity (m : Option Maturity) : Maturity :=
  let mat := maturityOr m ⟨some 0, some 0, some 0⟩
  { mat with approvedRuns := some (mat.approvedRuns.getD 0+1) }

/-- The maturity that `verify_fix` writes back for a fix that holds. -/
def verifyMaturity (m : Option Maturity) : Maturity :=
  let mat := maturityOr m ⟨none, none, none⟩
  { mat with success := some (mat.success.getD 0+1) }

inductive Txn where
  | execute | verify
  deriving DecidableEq, Repr

def Txn.maturity (t : Txn) (m : Option Maturity) : Maturity :=
  match t with
  | .execute => executeMaturity m
  | .verify => verifyMaturity m

inductive ExecutionStatus where
  | running | succeeded | failed
  deriving DecidableEq, Repr

structure Execution where
  executionId : ℕ
  status : ExecutionStatus
  deriving DecidableEq, Repr

def setStatus (i : ℕ) (s : ExecutionStatus) (rows : List Execution) : List Execution :=
  rows.map (fun r => if r.executionId = i then { r with status := s } else r)

def succeeded (rows : List Execution) : ℕ :=
  rows.countP (fun r => r.status = .succeeded)

/-- Where one execution of the playbook stands. A transaction has `selected` the
row and computed what it will write, and holds the lock of the row once it has
`updated` it; both keep the version that was read. -/
inductive Pc where
  | waiting
  | selected (t : Txn) (version : ℕ) (mat : Maturity)
  | updated (t : Txn) (version : ℕ) (mat : Maturity)
  | executing
  | executed
  | ended
  deriving DecidableEq, Repr

/-- The committed row with the maturities it had before, the newest in front, the
lock on it, the executions inserted so far, and the commits that have replaced
another version than the one they had read. -/
structure World where
  maturity : Option Maturity
  history : List (Option Maturity)
  lock : Option ℕ
  executions : List Execution
  jobs : ℕ → Pc
  overwrites : ℕ

open World

inductive Event where
  | select (i : ℕ)
  | update (i : ℕ)
  | commit (i : ℕ)
  | rollback (i : ℕ)
  | finish (i : ℕ) (ok : Bool)
  | refute (i : ℕ)
  deriving DecidableEq, Repr

def World.setPc (w : World) (i : ℕ) (pc : Pc) : World :=
  { w with jobs := Function.update w.jobs i pc }

/-- `session.get(Playbook, …)` reads the committed row without a lock. -/
def World.read (w : World) (i : ℕ) (t : Txn) : World :=
  w.setPc i (.selected t w.history.length (t.maturity w.maturity))

def World.publish (w : World) (i : ℕ) (t : Txn) (version : ℕ) (mat : Maturity) : World where
  maturity := some mat
  history := w.maturity :: w.history
  lock := none
  executions := match t with
    | .execute => w.executions ++ [⟨i, .running⟩]
    | .verify => setStatus i .succeeded w.executions
  jobs := Function.update w.jobs i (match t with
    | .execute => .executing
    | .verify => .ended)
  overwrites := if version = w.history.length then w.overwrites else w.overwrites+1

def World.step (w : World) : Event → Option World
  | .select i =>
    match w.jobs i with
    | .waiting => some (w.read i .execute)
    | .executed => some (w.read i .verify)
    | _ => none
  | .update i =>
    match w.jobs i, w.lock with
    | .selected t version mat, none => some { w.setPc i (.updated t version mat) with
        lock := some i }
    | _, _ => none
  | .commit i =>
    match w.jobs i with
    | .updated t version mat => some (w.publish i t version mat)
    | _ => none
  | .rollback i =>
    match w.jobs i with
    | .selected _ _ _ => some (w.setPc i .ended)
    | .updated _ _ _ => some { w.setPc i .ended with lock := none }
    | _ => none
  -- the steps of the playbook: `_finish_execution` records a failed one
  | .finish i ok =>
    match w.jobs i with
    | .executing =>
      if ok then some (w.setPc i .executed)
      else some { w.setPc i .ended with executions := setStatus i .failed w.executions }
    | _ => none
  -- `verify_fix` for a fix that does not hold leaves the playbook alone
  | .refute i =>
    match w.jobs i with
    | .executed => some { w.setPc i .ended with executions := setStatus i .failed w.executions }
    | _ => none

/-- A catalog row with the maturity `m₀`, and any number of executions ahead. -/
def catalog (m₀ : Option Maturity) : System World Event where
  init w := w.maturity = m₀ ∧ w.history = [] ∧ w.lock = none ∧ w.executions = [] ∧
    (∀ i, w.jobs i = .waiting) ∧ w.overwrites = 0
  step := step

def total (m : Option Maturity) : ℤ := approvedRuns m+success m

theorem approvedRuns_maturityOr (m : Option Maturity) (d : Maturity)
    (hd : d.approvedRuns.getD 0 = 0) :
    (maturityOr m d).approvedRuns.getD 0 = approvedRuns m := by
  unfold maturityOr approvedRuns
  grind

theorem success_maturityOr (m : Option Maturity) (d : Maturity)
    (hd : d.success.getD 0 = 0) : (maturityOr m d).success.getD 0 = success m := by
  unfold maturityOr success
  grind

theorem approvedRuns_maturity (t : Txn) (m : Option Maturity) :
    approvedRuns (some (t.maturity m)) = approvedRuns m+if t = .execute then 1 else 0 := by
  cases t with
  | execute => exact congrArg (· + 1) (approvedRuns_maturityOr m ⟨some 0, some 0, some 0⟩ rfl)
  | verify => exact (approvedRuns_maturityOr m ⟨none, none, none⟩ rfl).trans (add_zero _).symm

theorem success_maturity (t : Txn) (m : Option Maturity) :
    success (some (t.maturity m)) = success m+if t = .verify then 1 else 0 := by
  cases t with
  | execute => exact (success_maturityOr m ⟨some 0, some 0, some 0⟩ rfl).trans (add_zero _).symm
  | verify => exact congrArg (· + 1) (success_maturityOr m ⟨none, none, none⟩ rfl)

theorem total_maturity (t : Txn) (m : Option Maturity) :
    total (some (t.maturity m)) = total m+1 := by
  unfold total
  rw [approvedRuns_maturity, success_maturity]
  cases t with
  | execute => grind
  | verify => grind

theorem succeeded_le (rows : List Execution) : succeeded rows ≤ rows.length :=
  countP_le_length

theorem ids_setStatus (i : ℕ) (s : ExecutionStatus) (rows : List Execution) :
    (setStatus i s rows).map (fun r => r.executionId) = rows.map (fun r => r.executionId) := by
  unfold setStatus
  rw [map_map]
  apply map_congr_left
  grind

variable {i : ℕ}

theorem setStatus_of_not_mem (s : ExecutionStatus) (rows : List Execution)
    (h : i ∉ rows.map (fun r => r.executionId)) : setStatus i s rows = rows := by
  unfold setStatus
  conv_rhs => rw [← map_id rows]
  apply map_congr_left
  grind

theorem succeeded_setStatus (s : ExecutionStatus) (rows : List Execution)
    (hn : (rows.map (fun r => r.executionId)).Nodup) (hr : ⟨i, .running⟩ ∈ rows) :
    succeeded (setStatus i s rows) = succeeded rows+if s = .succeeded then 1 else 0 := by
  induction rows with
  | nil => cases hr
  | cons r rows ih =>
    rw [map_cons, nodup_cons] at hn
    obtain ⟨hnew, hn⟩ := hn
    rcases mem_cons.mp hr with rfl | hr
    · -- this is the row, and no other has its id
      grind [setStatus, setStatus_of_not_mem, succeeded]
    · grind [setStatus, succeeded]

theorem mem_setStatus_of_ne {j : ℕ} (s : ExecutionStatus) {rows : List Execution} (hne : j ≠ i)
    (h : ⟨j, .running⟩ ∈ rows) : ⟨j, .running⟩ ∈ setStatus i s rows := by
  unfold setStatus
  grind

/-- What a transaction is about to write: it counts at most one run more than
there were commits at the version it has read, and if that is still the version
of the row, it counts one more than the row. -/
structure Pending (m₀ : Option Maturity) (w : World) (t : Txn) (version : ℕ) (mat : Maturity) :
    Prop where
  version_le : version ≤ w.history.length
  total_le : total (some mat) ≤ total m₀+version+1
  current : version = w.history.length → mat = t.maturity w.maturity

def Pc.pending : Pc → Option (Txn × ℕ × Maturity)
  | .selected t version mat => some (t, version, mat)
  | .updated t version mat => some (t, version, mat)
  | _ => none

def Pc.hasRow : Pc → Option Bool
  | .waiting => some false
  | .selected t _ _ => some (t == .verify)
  | .updated t _ _ => some (t == .verify)
  | .executing => some true
  | .executed => some true
  | .ended => none

structure Invariant (m₀ : Option Maturity) (w : World) : Prop where
  initial : m₀ ∈ w.maturity :: w.history
  commits : w.history.length = w.executions.length+succeeded w.executions
  total_le : total w.maturity ≤ total m₀+w.history.length
  short : w.overwrites ≠ 0 → total w.maturity < total m₀+w.history.length
  approved : w.overwrites = 0 → approvedRuns w.maturity = approvedRuns m₀+w.executions.length
  succeeded : w.overwrites = 0 → success w.maturity = success m₀+succeeded w.executions
  ordered : w.overwrites = 0 → ∀ m ∈ w.history,
    success m-success m₀ ≤ approvedRuns m-approvedRuns m₀
  pending : ∀ i t version mat, (w.jobs i).pending = some (t, version, mat) →
    Pending m₀ w t version mat
  nodup : (w.executions.map (fun r => r.executionId)).Nodup
  fresh : ∀ i, (w.jobs i).hasRow = some false → i ∉ w.executions.map (fun r => r.executionId)
  running : ∀ i, (w.jobs i).hasRow = some true → ⟨i, .running⟩ ∈ w.executions

variable {m₀ : Option Maturity} {w : World}

theorem invariant_setPc (pc : Pc) (lock : Option ℕ) (hw : Invariant m₀ w)
    (hpend : ∀ t version mat, pc.pending = some (t, version, mat) → Pending m₀ w t version mat)
    (hrow : ∀ b, pc.hasRow = some b → (w.jobs i).hasRow = some b) :
    Invariant m₀ { w.setPc i pc with lock := lock } where
  initial := hw.initial
  commits := hw.commits
  total_le := hw.total_le
  short := hw.short
  approved := hw.approved
  succeeded := hw.succeeded
  ordered := hw.ordered
  pending j t version mat h := by
    simp only [setPc] at h
    have hp : Pending m₀ w t version mat := by
      by_cases he : j = i
      · grind
      · rw [Function.update_of_ne he] at h
        exact hw.pending j t version mat h
    exact ⟨hp.version_le, hp.total_le, hp.current⟩
  nodup := hw.nodup
  fresh j h := by
    apply hw.fresh j
    simp only [setPc] at h
    grind
  running j h := by
    apply hw.running j
    simp only [setPc] at h
    grind

theorem invariant_fail (hw : Invariant m₀ w) (hrow : (w.jobs i).hasRow = some true) :
    Invariant m₀ { w.setPc i .ended with
      executions := setStatus i .failed w.executions } := by
  have hrunning := hw.running i hrow
  have hlen : (setStatus i .failed w.executions).length = w.executions.length :=
    length_map _
  have hsucc : succeeded (setStatus i .failed w.executions) = succeeded w.executions :=
    (succeeded_setStatus .failed w.executions hw.nodup hrunning).trans (add_zero _)
  have hended := invariant_setPc (i := i) .ended w.lock hw nofun nofun
  refine ⟨hw.initial, ?_, hw.total_le, hw.short, ?_, ?_, hw.ordered, ?_, ?_, ?_, ?_⟩
  · rw [hlen, hsucc]
    exact hw.commits
  · rw [hlen]
    exact hw.approved
  · rw [hsucc]
    exact hw.succeeded
  · intro j t version mat h
    have hp := hended.pending j t version mat h
    exact ⟨hp.version_le, hp.total_le, hp.current⟩
  · rw [ids_setStatus]
    exact hw.nodup
  · intro j h
    rw [ids_setStatus]
    exact hended.fresh j h
  · intro j h
    have hne : j ≠ i := by
      rintro rfl
      simp [setPc, Pc.hasRow] at h
    exact mem_setStatus_of_ne .failed hne (hended.running j h)

variable {version : ℕ} {mat : Maturity}

theorem publish_executions (t : Txn) (hw : Invariant m₀ w)
    (hpc : w.jobs i = .updated t version mat) :
    (w.publish i t version mat).executions.length =
        w.executions.length+(if t = .execute then 1 else 0) ∧
      succeeded (w.publish i t version mat).executions =
        succeeded w.executions+(if t = .verify then 1 else 0) := by
  cases t with
  | execute => simp [publish, succeeded, countP_append]
  | verify =>
    have hrunning := hw.running i (by rw [hpc]; rfl)
    refine ⟨length_map _, ?_⟩
    exact succeeded_setStatus .succeeded w.executions hw.nodup hrunning

theorem publish_rows (t : Txn) (hw : Invariant m₀ w) (hpc : w.jobs i = .updated t version mat) :
    ((w.publish i t version mat).executions.map (fun r => r.executionId)).Nodup ∧
      (∀ j, j ≠ i → (w.jobs j).hasRow = some false →
        j ∉ (w.publish i t version mat).executions.map (fun r => r.executionId)) ∧
      ∀ j, j ≠ i → (w.jobs j).hasRow = some true →
        ⟨j, .running⟩ ∈ (w.publish i t version mat).executions := by
  cases t with
  | execute =>
    have hfresh := hw.fresh i (by rw [hpc]; rfl)
    have hmap : (w.publish i .execute version mat).executions.map (fun r => r.executionId) =
        w.executions.map (fun r => r.executionId) ++ [i] := by
      simp [publish]
    rw [hmap]
    refine ⟨?_, ?_, ?_⟩
    · rw [nodup_append]
      refine ⟨hw.nodup, nodup_singleton i, ?_⟩
      grind
    · intro j hne hj hmem
      rcases mem_append.mp hmem with hmem | hmem
      · exact hw.fresh j hj hmem
      · exact hne (mem_singleton.mp hmem)
    · intro j _ hj
      exact mem_append_left _ (hw.running j hj)
  | verify =>
    have hmap : (w.publish i .verify version mat).executions.map (fun r => r.executionId) =
        w.executions.map (fun r => r.executionId) := ids_setStatus i .succeeded w.executions
    rw [hmap]
    refine ⟨hw.nodup, fun j _ hj => hw.fresh j hj, ?_⟩
    intro j hne hj
    exact mem_setStatus_of_ne .succeeded hne (hw.running j hj)

theorem publish_counts {t : Txn} (hw : Invariant m₀ w) (hp : Pending m₀ w t version mat) :
    total (some mat) ≤ total m₀+(w.history.length+1 : ℕ) ∧
      (version ≠ w.history.length ∨ w.overwrites ≠ 0 →
        total (some mat) < total m₀+(w.history.length+1 : ℕ)) := by
  have hle := hp.version_le
  have htotal := hp.total_le
  push_cast
  refine ⟨by omega, ?_⟩
  intro h
  by_cases hv : version = w.history.length
  · have hshort := hw.short (h.resolve_left (fun hne => hne hv))
    rw [hp.current hv, total_maturity]
    omega
  · omega

theorem publish_exact {t : Txn} (hp : Pending m₀ w t version mat)
    (h : (w.publish i t version mat).overwrites = 0) :
    w.overwrites = 0 ∧ mat = t.maturity w.maturity := by
  simp only [publish] at h
  split_ifs at h with hv
  exact ⟨h, hp.current hv⟩

theorem publish_jobs (w : World) (i : ℕ) (t : Txn) (version : ℕ) (mat : Maturity) :
    ((w.publish i t version mat).jobs i).pending = none ∧
      ((w.publish i t version mat).jobs i).hasRow = (if t = .execute then some true else none) ∧
      ∀ j, j ≠ i → (w.publish i t version mat).jobs j = w.jobs j := by
  refine ⟨?_, ?_, fun j hne => Function.update_of_ne hne _ _⟩
  · cases t <;> simp [publish, Pc.pending]
  · cases t <;> simp [publish, Pc.hasRow]

theorem publish_pending (t : Txn) (hw : Invariant m₀ w) (j : ℕ) (t' : Txn) (version' : ℕ)
    (mat' : Maturity)
    (h : ((w.publish i t version mat).jobs j).pending = some (t', version', mat')) :
    Pending m₀ (w.publish i t version mat) t' version' mat' := by
  obtain ⟨hnone, -, hother⟩ := publish_jobs w i t version mat
  have hne : j ≠ i := by
    intro he
    rw [he, hnone] at h
    cases h
  rw [hother j hne] at h
  have hpj := hw.pending j t' version' mat' h
  have hle := hpj.version_le
  refine ⟨Nat.le_succ_of_le hle, hpj.total_le, ?_⟩
  intro hv
  change version' = w.history.length+1 at hv
  omega

theorem publish_counters (t : Txn) (hw : Invariant m₀ w) (hpc : w.jobs i = .updated t version mat)
    (hp : Pending m₀ w t version mat) (h : (w.publish i t version mat).overwrites = 0) :
    approvedRuns (some mat) =
        approvedRuns m₀+(w.publish i t version mat).executions.length ∧
      success (some mat) = success m₀+succeeded (w.publish i t version mat).executions := by
  obtain ⟨hlen, hsucc⟩ := publish_executions t hw hpc
  obtain ⟨h0, rfl⟩ := publish_exact hp h
  have happroved := hw.approved h0
  have hsucceeded := hw.succeeded h0
  grind [approvedRuns_maturity, success_maturity]

theorem invariant_publish (i : ℕ) (t : Txn) (version : ℕ) (mat : Maturity) (hw : Invariant m₀ w)
    (hpc : w.jobs i = .updated t version mat) :
    Invariant m₀ (w.publish i t version mat) := by
  have hp : Pending m₀ w t version mat := hw.pending i t version mat (by rw [hpc]; rfl)
  obtain ⟨hlen, hsucc⟩ := publish_executions t hw hpc
  obtain ⟨hnodup, hfresh, hrunning⟩ := publish_rows t hw hpc
  obtain ⟨htotal, hshort⟩ := publish_counts hw hp
  obtain ⟨-, hrow, hother⟩ := publish_jobs w i t version mat
  have hcounters := publish_counters t hw hpc hp
  refine ⟨mem_cons_of_mem _ hw.initial, ?_, htotal, ?_, fun h => (hcounters h).1,
    fun h => (hcounters h).2, ?_, publish_pending t hw, hnodup, ?_, ?_⟩
  · have hcommits := hw.commits
    rw [hlen, hsucc]
    change w.history.length+1 = _
    cases t with
    | execute => grind
    | verify => grind
  · intro h
    apply hshort
    simp only [publish] at h
    grind
  · intro h m hm
    obtain ⟨h0, -⟩ := publish_exact hp h
    rcases mem_cons.mp hm with rfl | hm
    · have happroved := hw.approved h0
      have hsucceeded := hw.succeeded h0
      have hle := succeeded_le w.executions
      omega
    · exact hw.ordered h0 m hm
  · grind
  · intro j h
    by_cases he : j = i
    · subst he
      rw [hrow] at h
      split_ifs at h with ht
      subst ht
      exact mem_append_right _ (mem_singleton_self _)
    · grind

theorem pending_read (t : Txn) (hw : Invariant m₀ w) :
    Pending m₀ w t w.history.length (t.maturity w.maturity) where
  version_le := le_rfl
  total_le := by
    have htotal := hw.total_le
    rw [total_maturity]
    omega
  current _ := rfl

theorem invariant_read (t : Txn) (hw : Invariant m₀ w)
    (hrow : (w.jobs i).hasRow = some (t == .verify)) : Invariant m₀ (w.read i t) := by
  apply invariant_setPc _ w.lock hw
  · rintro t' version mat ⟨⟩
    exact pending_read t hw
  · rintro b ⟨⟩
    exact hrow

theorem invariant_step {w w' : World} (e : Event) (hw : Invariant m₀ w) (hs : w.step e = some w') :
    Invariant m₀ w' := by
  have hleave (i : ℕ) (lock : Option ℕ) :
      Invariant m₀ { w.setPc i .ended with lock := lock } :=
    invariant_setPc .ended lock hw nofun nofun
  cases e with
  | select i =>
    simp only [step] at hs
    split at hs
    · rename_i hpc
      cases hs
      exact invariant_read .execute hw (by rw [hpc]; rfl)
    · rename_i hpc
      cases hs
      exact invariant_read .verify hw (by rw [hpc]; rfl)
    · cases hs
  | update i =>
    simp only [step] at hs
    split at hs
    · rename_i t version mat hpc _
      cases hs
      apply invariant_setPc _ (some i) hw
      · intro t' version' mat' h
        exact hw.pending i t' version' mat' (by rw [hpc]; exact h)
      · intro b h
        rw [hpc]
        exact h
    · cases hs
  | commit i => grind [step, invariant_publish]
  | rollback i =>
    simp only [step] at hs
    split at hs
    · cases hs
      exact hleave i w.lock
    · cases hs
      exact hleave i none
    · cases hs
  | finish i ok =>
    simp only [step] at hs
    split at hs
    · rename_i hpc
      split_ifs at hs
      · cases hs
        apply invariant_setPc _ w.lock hw
        · intro t version mat h
          cases h
        · intro b h
          rw [hpc]
          exact h
      · cases hs
        exact invariant_fail hw (by rw [hpc]; rfl)
    · cases hs
  | refute i =>
    simp only [step] at hs
    split at hs
    · rename_i hpc
      cases hs
      exact invariant_fail hw (by rw [hpc]; rfl)
    · cases hs

theorem invariant_reachable (m₀ : Option Maturity) (w : World) (h : (catalog m₀).Reachable w) :
    Invariant m₀ w := by
  apply reachable_invariant (catalog m₀) (Invariant m₀) _ _ w h
  · rintro w ⟨hm, hhistory, -, hexec, hjobs, hover⟩
    refine ⟨?_, ?_, ?_, fun hne => absurd hover hne, ?_, ?_, ?_, ?_, ?_, ?_, ?_⟩
    · rw [hm]
      exact mem_cons_self
    · rw [hhistory, hexec]
      rfl
    · grind
    · grind
    · intro _
      rw [hm, hexec]
      exact (add_zero _).symm
    · grind
    · intro i t version mat hp
      rw [hjobs i] at hp
      cases hp
    · rw [hexec]
      exact nodup_nil
    · grind
    · intro i hr
      rw [hjobs i] at hr
      cases hr
  · intro w e w' hw hs
    exact invariant_step e hw hs

/-- The counters of the row count every run, and in no committed row have more
runs succeeded than were approved. -/
structure Law (m₀ : Option Maturity) (w : World) : Prop where
  approved : approvedRuns w.maturity = approvedRuns m₀+w.executions.length
  succeeded : success w.maturity = success m₀+succeeded w.executions
  ordered : ∀ m ∈ w.maturity :: w.history, success m ≤ approvedRuns m

/-- Under every interleaving of the transactions, the counters are right exactly
if no commit has replaced another version of the row than the one it had read. -/
theorem maturity_counts_runs (m₀ : Option Maturity) (w : World)
    (hw : (catalog m₀).Reachable w) :
    Law m₀ w ↔ success m₀ ≤ approvedRuns m₀ ∧ w.overwrites = 0 := by
  have hinv := invariant_reachable m₀ w hw
  constructor
  · intro hlaw
    refine ⟨hlaw.ordered m₀ hinv.initial, ?_⟩
    by_contra hover
    have hshort := hinv.short hover
    have happroved := hlaw.approved
    have hsucceeded := hlaw.succeeded
    have hcommits := hinv.commits
    unfold total at hshort
    omega
  · rintro ⟨hstart, hover⟩
    have happroved := hinv.approved hover
    have hsucceeded := hinv.succeeded hover
    refine ⟨happroved, hsucceeded, ?_⟩
    intro m hm
    rcases mem_cons.mp hm with rfl | hm
    · have hle := succeeded_le w.executions
      omega
    · have hordered := hinv.ordered hover m hm
      omega

section Sample

def seeded : Option Maturity := some ⟨some 0, some 0, some 0⟩

def sampleStart : World := ⟨seeded, [], none, [], fun _ => .waiting, 0⟩

def sampleSequence : List Event :=
  [.select 0, .update 0, .commit 0, .finish 0 true, .select 0, .update 0, .commit 0,
    .select 1, .update 1, .commit 1]

theorem maturity_counts_runs_sampleSequence :
    ∃ w, (catalog seeded).run sampleStart sampleSequence = some w ∧
      w.maturity = some ⟨some 2, some 1, some 0⟩ ∧ Law seeded w := by
  have hreach := run_reachable (catalog seeded) sampleSequence sampleStart _
    (.init ⟨rfl, rfl, rfl, rfl, fun _ => rfl, rfl⟩) rfl
  refine ⟨_, rfl, rfl, ?_⟩
  exact (maturity_counts_runs seeded _ hreach).mpr ⟨by decide, rfl⟩

/-- Two executions that read the same row: the second commit takes the run of
the first one away. -/
theorem maturity_update_lost :
    ∃ w, (catalog seeded).Reachable w ∧ w.executions.length = 2 ∧
      w.maturity = some ⟨some 1, some 0, some 0⟩ ∧ ¬ Law seeded w := by
  have hreach := run_reachable (catalog seeded)
    [.select 0, .select 1, .update 0, .commit 0, .update 1, .commit 1] sampleStart _
    (.init ⟨rfl, rfl, rfl, rfl, fun _ => rfl, rfl⟩) rfl
  refine ⟨_, hreach, rfl, rfl, ?_⟩
  intro hlaw
  exact absurd hlaw.approved (by decide)

end Sample

end DbAgent.PlaybookMaturity
