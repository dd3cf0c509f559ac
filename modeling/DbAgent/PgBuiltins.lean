import Mathlib.Algebra.GroupWithZero.Nat
import Mathlib.Data.List.MinMax
import Mathlib.Data.String.Basic

/-! The parts of PostgreSQL that the statements of the repository rely on: the
numbers of JSONB, integers as text, and `ORDER BY … DESC LIMIT 1`. -/
namespace DbAgent.Pg

open List

/-- A `numeric` as JSONB keeps it: a coefficient and the number of its digits
behind the point. -/
structure Numeric where
  coeff : ℤ
  scale : ℕ
  deriving DecidableEq, Repr

def digits (n : ℕ) : List Char := Nat.toDigits 10 n

/-- `numeric_out`. All digits are written out, and no exponent is used. -/
def Numeric.text (n : Numeric) : List Char :=
  let ds := digits n.coeff.natAbs
  let padded := List.replicate (n.scale+1-ds.length) '0' ++ ds
  let body :=
    if n.scale = 0 then ds
    else padded.take (padded.length-n.scale) ++ '.' :: padded.drop (padded.length-n.scale)
  if n.coeff < 0 then '-' :: body else body

/-- `lower` of an ASCII text. -/
def lower (s : List Char) : List Char := s.map Char.toLower

/-- The regular expression `^[0-9]+$`. -/
def isUnsigned (s : List Char) : Bool := !s.isEmpty && s.all Char.isDigit

/-- The regular expression `^-?[0-9]+$`. -/
def isInteger : List Char → Bool
  | '-' :: ds => isUnsigned ds
  | ds => isUnsigned ds

/-- `octet_length` in UTF-8. -/
def octetLength (s : List Char) : ℕ := (s.map Char.utf8Size).sum

/-- `::bigint` of a text that `isInteger` admits and that is in range. -/
def bigint : List Char → ℤ
  | '-' :: ds => -(Nat.ofDigitChars 10 ds 0 : ℤ)
  | ds => (Nat.ofDigitChars 10 ds 0 : ℤ)

def minInteger : ℤ := -2147483648
def maxInteger : ℤ := 2147483647

/-- `integer`; `none` is out of range. -/
def toInteger (z : ℤ) : Option ℤ := if minInteger ≤ z ∧ z ≤ maxInteger then some z else none

theorem digits_isDigit (n : ℕ) (c : Char) (h : c ∈ digits n) : c.isDigit = true :=
  Nat.isDigit_of_mem_toDigits (by omega) le_rfl h

theorem isInteger_no_point (s : List Char) (h : '.' ∈ s) : isInteger s = false := by
  have hpoint : ∀ t : List Char, '.' ∈ t → isUnsigned t = false := by
    intro t ht
    by_contra hne
    simp only [Bool.not_eq_false, isUnsigned, Bool.and_eq_true, all_eq_true] at hne
    exact absurd (hne.2 '.' ht) (by decide)
  unfold isInteger
  grind

theorem scale_zero_of_isInteger (n : Numeric) (h : isInteger n.text = true) : n.scale = 0 := by
  by_contra hs
  have hpoint : '.' ∈ n.text := by
    unfold Numeric.text
    simp only [hs, if_false]
    split <;> simp
  rw [isInteger_no_point _ hpoint] at h
  cases h

theorem bigint_text (n : Numeric) (hs : n.scale = 0) : bigint n.text = n.coeff := by
  have hval : Nat.ofDigitChars 10 (digits n.coeff.natAbs) 0 = n.coeff.natAbs :=
    Nat.ofDigitChars_toDigits (by omega) le_rfl
  unfold Numeric.text
  simp only [hs, if_true]
  split
  · next hneg =>
    rw [bigint, hval]
    omega
  · next hpos =>
    have hhead : ∀ ds, digits n.coeff.natAbs ≠ '-' :: ds := by
      intro ds hd
      have hdash := digits_isDigit n.coeff.natAbs '-' (by rw [hd]; exact mem_cons_self)
      exact absurd hdash (by decide)
    unfold bigint
    grind

section OrderBy

variable {ρ κ : Type*} [LinearOrder κ]

/-- `ORDER BY key DESC LIMIT 1`. Rows with equal keys come in any order; `tie`
says which of them the server happens to return. -/
def newest (key : ρ → κ) (tie : ℕ) (rows : List ρ) : Option ρ :=
  let top := rows.filter (fun r => rows.all (fun r' => key r' ≤ key r))
  top[tie%top.length]?

theorem newest_some (key : ρ → κ) (tie : ℕ) (rows : List ρ) (r : ρ)
    (h : newest key tie rows = some r) : r ∈ rows ∧ ∀ r' ∈ rows, key r' ≤ key r := by
  have hmem := mem_of_getElem? h
  grind

theorem newest_isSome (key : ρ → κ) (tie : ℕ) (rows : List ρ) (hne : rows ≠ []) :
    ∃ r, newest key tie rows = some r := by
  obtain ⟨m, hm⟩ : ∃ m, rows.argmax key = some m := by
    cases harg : rows.argmax key with
    | none => simp_all
    | some m => exact ⟨m, rfl⟩
  have htop : m ∈ rows.filter (fun r => rows.all (fun r' => key r' ≤ key r)) := by
    apply mem_filter.mpr
    refine ⟨argmax_mem hm, all_eq_true.mpr ?_⟩
    intro r' hr'
    simpa using le_of_mem_argmax hr' hm
  have hpos : 0 < (rows.filter (fun r => rows.all (fun r' => key r' ≤ key r))).length :=
    length_pos_of_mem htop
  exact ⟨_, List.getElem?_eq_getElem (Nat.mod_lt tie hpos)⟩

theorem newest_none (key : ρ → κ) (tie : ℕ) (rows : List ρ)
    (h : newest key tie rows = none) : rows = [] := by
  by_contra hne
  obtain ⟨r, hr⟩ := newest_isSome key tie rows hne
  rw [h] at hr
  cases hr

end OrderBy

end DbAgent.Pg
