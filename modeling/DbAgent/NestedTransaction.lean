import Mathlib.Data.List.Basic

/-! A transaction with nested savepoints: what it has written so far, level by
level. -/
namespace DbAgent.Nested

variable {ρ : Type*}

/-- The rows of the outer transaction, and those of the open savepoints, the
innermost first. -/
structure Txn (ρ : Type*) where
  outer : List ρ
  savepoints : List (List ρ)

def Txn.start : Txn ρ := ⟨[], []⟩

def Txn.rows (t : Txn ρ) : List ρ := t.outer ++ t.savepoints.reverse.flatten

def Txn.beginNested (t : Txn ρ) : Txn ρ := { t with savepoints := [] :: t.savepoints }

def Txn.write (t : Txn ρ) (rs : List ρ) : Txn ρ :=
  match t.savepoints with
  | [] => { t with outer := t.outer ++ rs }
  | s :: ss => { t with savepoints := (s ++ rs) :: ss }

def Txn.release (t : Txn ρ) : Txn ρ :=
  match t.savepoints with
  | [] => t
  | s :: ss => Txn.write { t with savepoints := ss } s

def Txn.rollbackNested (t : Txn ρ) : Txn ρ := { t with savepoints := t.savepoints.tail }

@[simp]
theorem rows_beginNested (t : Txn ρ) : t.beginNested.rows = t.rows := by
  simp [Txn.rows, Txn.beginNested]

theorem release_beginNested (t : Txn ρ) (rs : List ρ) :
    (t.beginNested.write rs).release = t.write rs := by
  simp [Txn.beginNested, Txn.write, Txn.release]

theorem rows_write (t : Txn ρ) (rs : List ρ) : (t.write rs).rows = t.rows ++ rs := by
  grind [Txn.write, Txn.rows]

end DbAgent.Nested
