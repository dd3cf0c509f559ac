import Mathlib.Data.List.Infix
import DbAgent.JsonValue
import DbAgent.PgBuiltins
import DbAgent.PyBuiltins

/-! JSONB values as Python sees them, and `int`, `in`, `[]` and truth of them. -/
namespace DbAgent.Py

open JsonText Pg

inductive Error where
  | valueError | typeError | overflowError | keyError
  deriving DecidableEq, Repr

/-- A number of a decoded document; a float is `none` when it is infinite. -/
inductive Number where
  | int (z : ℤ)
  | float (q : Option ℚ)
  deriving DecidableEq, Repr

/-- What the interpreter fixes: which documents its decoder can read, how it
rounds to floats, and the values of the characters of category Nd. -/
structure Interpreter where
  decodes : Object Numeric → Bool
  float : Numeric → Option ℚ
  decimal : Char → Option ℕ
  decimal_digit : ∀ c, c.isDigit = true → decimal c = some (c.toNat - '0'.toNat)

variable (I : Interpreter)

/-- A number without a point is decoded as an `int`. -/
def Interpreter.number (n : Numeric) : Json Number :=
  .num (if n.scale = 0 then .int n.coeff else .float (I.float n))

theorem canonical_number (n : Numeric) : (I.number n).Canonical := by
  simp [Interpreter.number, Json.Canonical]

/-- `json.loads` of a JSONB object. -/
def loads (o : Object Numeric) : Except Error (Object Number) :=
  if I.decodes o then .ok (o.bindNum I.number (canonical_number I)) else .error .valueError

/-- `str.lower` of an ASCII text. -/
def lower (s : List Char) : List Char := s.map Char.toLower

def literalDigits : List Char → Option (List ℕ)
  | [] => none
  | [c] => (I.decimal c).map ([·])
  | c :: '_' :: cs => do return (← I.decimal c) :: (← literalDigits cs)
  | c :: c' :: cs => do return (← I.decimal c) :: (← literalDigits (c' :: cs))

def maxStrDigits : ℕ := 4300

def unsignedOfText (s : List Char) : Option ℕ :=
  match literalDigits I s with
  | none => none
  | some ds => if ds.length ≤ maxStrDigits then some (ds.foldl (fun n d => 10*n+d) 0) else none

/-- The blanks `int` skips. A text in ASCII is not translated first, so the
separators U+001C to U+001F are no blanks in it. -/
def literalSpace (s : List Char) (c : Char) : Bool :=
  if s.all (fun c => c.toNat < 128) then (0x09 ≤ c.toNat && c.toNat ≤ 0x0D) || c == ' '
  else isSpace c

/-- `int(s)` of a string. -/
def intOfText (s : List Char) : Option ℤ :=
  match Trimming.trim (literalSpace s) s with
  | '-' :: ds => (unsignedOfText I ds).map (fun n : ℕ => -(n : ℤ))
  | '+' :: ds => (unsignedOfText I ds).map (fun n : ℕ => (n : ℤ))
  | ds => (unsignedOfText I ds).map (fun n : ℕ => (n : ℤ))

def int : Json Number → Except Error ℤ
  | .num (.int z) => .ok z
  | .num (.float (some q)) => .ok (truncate q)
  | .num (.float none) => .error .overflowError
  | .str s => (intOfText I s.toList).elim (.error .valueError) .ok
  | .bool b => .ok (if b then 1 else 0)
  | .null => .error .typeError
  | .arr _ => .error .typeError
  | .obj _ => .error .typeError

def truthy : Json Number → Bool
  | .null => false
  | .bool b => b
  | .num (.int z) => z ≠ 0
  | .num (.float q) => q ≠ some 0
  | .str s => s ≠ ""
  | .arr xs => !xs.isEmpty
  | .obj kvs => !kvs.isEmpty

def isText (k : String) : Json Number → Bool
  | .str s => s = k
  | _ => false

def contains (k : String) : Json Number → Except Error Bool
  | .obj kvs => .ok (lookup k kvs).isSome
  | .arr xs => .ok (xs.any (isText k))
  | .str s => .ok (decide (k.toList <:+: s.toList))
  | _ => .error .typeError

/-- `x[k]` with a string `k`. -/
def getItem (k : String) : Json Number → Except Error (Json Number)
  | .obj kvs => (lookup k kvs).elim (.error .keyError) .ok
  | _ => .error .typeError

theorem lookup_bindNumMembers {ν μ : Type} (f : ν → Json μ) (k : String)
    (kvs : List (String × Json ν)) :
    lookup k (Json.bindNumMembers f kvs) = (lookup k kvs).map (Json.bindNum f) := by
  induction kvs with
  | nil => simp [Json.bindNumMembers, lookup]
  | cons kv kvs ih => grind [Json.bindNumMembers, lookup]

section Literals

theorem isDigit_bounds (c : Char) (h : c.isDigit = true) : 48 ≤ c.toNat ∧ c.toNat ≤ 57 := by
  simp only [Char.isDigit, Bool.and_eq_true, decide_eq_true_eq] at h
  have h1 : (48 : UInt32) ≤ c.val := h.1
  have h2 : c.val ≤ (57 : UInt32) := h.2
  exact ⟨UInt32.le_iff_toNat_le.mp h1, UInt32.le_iff_toNat_le.mp h2⟩

theorem literalSpace_digit (s : List Char) (c : Char) (h : c.isDigit = true) :
    literalSpace s c = false := by
  obtain ⟨h1, h2⟩ := isDigit_bounds c h
  have hspace : c ≠ ' ' := by
    intro hc
    rw [hc] at h1
    exact absurd h1 (by decide)
  unfold literalSpace isSpace
  split
  · grind
  · grind

theorem literalDigits_digits (ds : List Char) (hne : ds ≠ [])
    (h : ∀ c ∈ ds, c.isDigit = true) :
    literalDigits I ds = some (ds.map (fun c => c.toNat - '0'.toNat)) := by
  induction ds with
  | nil => exact absurd rfl hne
  | cons c cs ih =>
    have hc := I.decimal_digit c (h c List.mem_cons_self)
    cases cs with
    | nil => simp [literalDigits, hc]
    | cons c' cs =>
      have hc' : c' ≠ '_' := by
        intro he
        have hd := h c' (by simp)
        rw [he] at hd
        exact absurd hd (by decide)
      grind [List.mem_cons_of_mem, literalDigits]

theorem unsignedOfText_digits (ds : List Char) (hne : ds ≠ []) (hlen : ds.length ≤ maxStrDigits)
    (h : ∀ c ∈ ds, c.isDigit = true) :
    unsignedOfText I ds = some (Nat.ofDigitChars 10 ds 0) := by
  unfold unsignedOfText
  rw [literalDigits_digits I ds hne h]
  simp only [List.length_map, hlen, if_true, List.foldl_map, Nat.ofDigitChars]

/-- A text that the SQL regular expression admits is the literal of the same
integer in Python. -/
theorem intOfText_of_isInteger (s : List Char) (h : Pg.isInteger s = true)
    (hlen : s.length ≤ maxStrDigits) : intOfText I s = some (Pg.bigint s) := by
  have hunsigned : ∀ ds, Pg.isUnsigned ds = true → ds ≠ [] ∧ ∀ c ∈ ds, c.isDigit = true := by
    intro ds hds
    simpa [Pg.isUnsigned, List.isEmpty_iff] using hds
  have hlast : ∀ ds, Pg.isUnsigned ds = true → ∀ c ∈ ds.getLast?, c.isDigit = true :=
    fun ds hds c hc => (hunsigned ds hds).2 c (List.mem_of_mem_getLast? hc)
  cases s with
  | nil => exact absurd h (by decide)
  | cons c cs =>
    by_cases hc : c = '-'
    · subst hc
      have hds : Pg.isUnsigned cs = true := h
      obtain ⟨hne, hall⟩ := hunsigned cs hds
      have htrimmed : Trimming.Trimmed (literalSpace ('-' :: cs)) ('-' :: cs) := by
        constructor
        · intro c hc
          obtain rfl : '-' = c := by simpa using hc
          unfold literalSpace
          split <;> decide
        · grind [List.getLast?_cons_of_ne_nil, literalSpace_digit]
      have hval := unsignedOfText_digits I cs hne (Nat.le_of_succ_le hlen) hall
      simp only [intOfText, htrimmed.eq_self, hval, Option.map_some]
      rfl
    · have hds : Pg.isUnsigned (c :: cs) = true := by
        unfold Pg.isInteger at h
        split at h
        · grind
        · exact h
      obtain ⟨hne, hall⟩ := hunsigned (c :: cs) hds
      have hcd := hall c List.mem_cons_self
      have hplus : c ≠ '+' := by
        intro he
        rw [he] at hcd
        exact absurd hcd (by decide)
      have htrimmed : Trimming.Trimmed (literalSpace (c :: cs)) (c :: cs) :=
        ⟨by grind [literalSpace_digit], fun c' hc' => literalSpace_digit _ c' (hlast _ hds c' hc')⟩
      have hval := unsignedOfText_digits I (c :: cs) hne hlen hall
      simp only [intOfText, htrimmed.eq_self]
      -- the signs are no digits, so the last alternative of both is taken
      split
      · next heq => exact absurd (List.cons.inj heq).1 hc
      · next heq => exact absurd (List.cons.inj heq).1 hplus
      · rw [hval, Option.map_some]
        unfold Pg.bigint
        split
        · next heq => exact absurd (List.cons.inj heq).1 hc
        · rfl

end Literals

end DbAgent.Py
