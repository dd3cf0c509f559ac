import Mathlib.Data.List.Forall2
import Mathlib.Data.Rat.Floor
import Mathlib.Data.String.Basic
import DbAgent.Trimming

/-! The parts of Python's `str`, `int` and `datetime` that the modelled code
relies on. -/
namespace DbAgent.Py

/-- `str.isspace` of one character. -/
def isSpace (c : Char) : Bool :=
  let n := c.toNat
  (0x09 ≤ n && n ≤ 0x0D) || (0x1C ≤ n && n ≤ 0x20) || n == 0x85 || n == 0xA0 || n == 0x1680 ||
    (0x2000 ≤ n && n ≤ 0x200A) || n == 0x2028 || n == 0x2029 || n == 0x202F || n == 0x205F ||
    n == 0x3000

def strip (s : List Char) : List Char := Trimming.trim isSpace s

/-- `int(x)` of a number: truncation towards zero. -/
def truncate (q : ℚ) : ℤ := q.num.tdiv q.den

/-- `datetime.min` and `datetime.max` in UTC, in microseconds since the epoch. -/
def minInstant : ℤ := -62135596800000000
def maxInstant : ℤ := 253402300799999999

/-- `t + timedelta(seconds=s)`; `none` is an OverflowError, of the `timedelta`
or of the sum. -/
def addSeconds (t s : ℤ) : Option ℤ :=
  let u := t + s*1000000
  if minInstant ≤ u ∧ u ≤ maxInstant then some u else none

theorem addSeconds_eq {t s u : ℤ} (h : addSeconds t s = some u) : u = t + s*1000000 := by
  simp only [addSeconds] at h
  split at h
  · exact (Option.some.inj h).symm
  · cases h

/-- The most whole seconds that a `timedelta` holds: one more is an
OverflowError. -/
def maxTimedeltaSeconds : ℤ := 86399999999999

section Raising

variable {ε α β : Type}

theorem ok_bind (a : α) (f : α → Except ε β) : (Except.ok a >>= f) = f a := rfl

theorem bind_ok {x : Except ε α} {f : α → Except ε β} {b : β} (h : x >>= f = .ok b) :
    ∃ a, x = .ok a ∧ f a = .ok b := by
  cases x with
  | error e => cases h
  | ok a => exact ⟨a, rfl, h⟩

theorem mapM_ok {f : α → Except ε β} {xs : List α} {ys : List β} (h : xs.mapM f = .ok ys) :
    List.Forall₂ (fun x y => f x = .ok y) xs ys := by
  induction xs generalizing ys with
  | nil =>
    cases h
    exact .nil
  | cons x xs ih =>
    rw [List.mapM_cons] at h
    obtain ⟨y, hy, h⟩ := bind_ok h
    obtain ⟨zs, hzs, h⟩ := bind_ok h
    cases h
    exact .cons hy (ih hzs)

end Raising

end DbAgent.Py
