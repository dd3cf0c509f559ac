import Mathlib.Data.Finset.Basic
import Mathlib.Data.Fintype.Sets
import Mathlib.Tactic
import DbAgent.TextRedaction

/-! `Value` and `Map` of the redaction filter, on the values that a tool returns: the rules
for secret keys, for the strings in them and for the arguments after a secret flag. -/
namespace DbAgent.Redact

open Scan List

/-- The type of a slice or of a map with string keys: `[]any`, `map[string]any` or another. -/
inductive Container where
  | any
  | other (name : String)

/-- A Go value behind an interface. A leaf is what the filter does not look into: a number, a
boolean, a struct, a map with other keys. -/
inductive GoValue (ν : Type) where
  | nil
  | string (s : List Symbol)
  | leaf (x : ν)
  | slice (type : Container) (n : ℕ) (elems : Fin n → GoValue ν)
  | map (type : Container) (keys : Finset (List Symbol)) (vals : {k // k ∈ keys} → GoValue ν)

open GoValue

variable {ν : Type}

def GoValue.placeholder : GoValue ν := .string goString.mark

def GoValue.isPlaceholder : GoValue ν → Bool
  | .string s => s = goString.mark
  | _ => false

section Flags

/-- `[\w-]` -/
def isFlagChar (c : Char) : Bool := c.isAlphanum || c ∈ ['_', '-']

def optional (p : Char → Bool) : Regex Char := .alt (.one p) (.many fun _ => false)

def flagTokenPattern : Regex Char :=
  .seq (.one (· == '-')) <| .seq (optional (· == '-')) <| .seq (.one Char.isAlpha) <|
    .seq (.many isFlagChar) (optional (· == '='))

def isFlagToken (token : List Symbol) : Bool := flagTokenPattern.fullMatch (token.map Symbol.rune)

def argvShortSecretFlags : List (List Char) := [['p']]

/-- The name of a flag without its dashes and the last `=`. -/
def bareFlag (token : List Symbol) : List Symbol :=
  let name := token.dropWhile (· = .char '-')
  if name.getLast? = some (.char '=') then name.dropLast else name

variable (U : Unicode)

def flagNameLooksSecret (token : List Symbol) : Bool :=
  if !isFlagToken token then false
  else if bareFlag token = [] then false
  else if keyMatchesPattern U goString (bareFlag token) then true
  else argvShortSecretFlags.contains (toLower U goString (bareFlag token))

end Flags

section Program

variable (U : Unicode)

def isArgvPair : GoValue ν → GoValue ν → Bool
  | .string flag, .string value => flagNameLooksSecret U flag && !isFlagToken value
  | _, _ => false

def argvStep {n : ℕ} (elems : Fin n → GoValue ν) (acc : (Fin n → GoValue ν) × Bool) (i : ℕ) :
    (Fin n → GoValue ν) × Bool :=
  if h : i + 1 < n then
    if isArgvPair U (elems ⟨i, Nat.lt_of_succ_lt h⟩) (elems ⟨i + 1, h⟩) then
      if (acc.1 ⟨i + 1, h⟩).isPlaceholder then acc
      else (Function.update acc.1 ⟨i + 1, h⟩ .placeholder, true)
    else acc
  else acc

def redactArgvAdjacentPairs {n : ℕ} (elems out : Fin n → GoValue ν) : (Fin n → GoValue ν) × Bool :=
  (List.range n).foldl (argvStep U elems) (out, false)

/-- `Map`, given what becomes of the values. -/
def redactMap (keys : Finset (List Symbol)) (values : {k // k ∈ keys} → GoValue ν × Bool) :
    GoValue ν × Bool :=
  (.map .any keys fun k =>
      if keyMatchesPattern U goString k.1 then .placeholder else (values k).1,
    decide (∃ k, keyMatchesPattern U goString k.1 = true ∨ (values k).2 = true))

def value : GoValue ν → GoValue ν × Bool
  | .nil => (.nil, false)
  | .string s => (.string (string U goString s).1, (string U goString s).2)
  | .map .any keys vals => redactMap U keys fun k => value (vals k)
  | .slice _ n elems =>
    let argv := redactArgvAdjacentPairs U elems fun i => (value (elems i)).1
    (.slice .any n argv.1, decide (∃ i, (value (elems i)).2 = true) || argv.2)
  | .map (.other _) keys vals => redactMap U keys fun k => value (vals k)
  | .leaf x => (.leaf x, false)

end Program

section Argv

variable {U : Unicode} {n : ℕ} (elems : Fin n → GoValue ν)

def Follows (U : Unicode) (elems : Fin n → GoValue ν) (j : Fin n) : Prop :=
  ∃ (i : ℕ) (h : i + 1 < n), j = ⟨i + 1, h⟩ ∧
    isArgvPair U (elems ⟨i, Nat.lt_of_succ_lt h⟩) (elems ⟨i + 1, h⟩) = true

theorem isPlaceholder_iff (v : GoValue ν) : v.isPlaceholder = true ↔ v = .placeholder := by
  cases v with
  | string s => simp [isPlaceholder, placeholder]
  | nil => simp [isPlaceholder, placeholder]
  | leaf x => simp [isPlaceholder, placeholder]
  | slice t m f => simp [isPlaceholder, placeholder]
  | map t ks f => simp [isPlaceholder, placeholder]

structure ArgvAfter (U : Unicode) (elems out : Fin n → GoValue ν) (m : ℕ)
    (acc : (Fin n → GoValue ν) × Bool) : Prop where
  written : ∀ j : Fin n, Follows U elems j → j.1 ≤ m → acc.1 j = .placeholder
  kept : ∀ j : Fin n, ¬(Follows U elems j ∧ j.1 ≤ m) → acc.1 j = out j
  changed : acc.2 = true ↔ ∃ j : Fin n, Follows U elems j ∧ j.1 ≤ m ∧ out j ≠ .placeholder

theorem argvAfter_zero (out : Fin n → GoValue ν) : ArgvAfter U elems out 0 (out, false) where
  written := by
    rintro j ⟨i, h, rfl, -⟩ hle
    simp at hle
  kept := fun _ _ => rfl
  changed := by
    constructor
    · intro h
      cases h
    · rintro ⟨j, ⟨i, h, rfl, -⟩, hle, -⟩
      simp at hle

theorem ArgvAfter.skip {out : Fin n → GoValue ν} {m : ℕ} {acc : (Fin n → GoValue ν) × Bool}
    (h : ArgvAfter U elems out m acc)
    (hnone : ∀ j : Fin n, Follows U elems j → j.1 = m + 1 → acc.1 j = .placeholder) :
    ArgvAfter U elems out (m + 1) acc := by grind [ArgvAfter]

theorem argvAfter_step {out : Fin n → GoValue ν} {m : ℕ} {acc : (Fin n → GoValue ν) × Bool}
    (h : ArgvAfter U elems out m acc) :
    ArgvAfter U elems out (m + 1) (argvStep U elems acc m) := by
  by_cases hlt : m + 1 < n
  case neg =>
    rw [argvStep, dif_neg hlt]
    apply h.skip
    omega
  case pos =>
    by_cases hpair :
        isArgvPair U (elems ⟨m, Nat.lt_of_succ_lt hlt⟩) (elems ⟨m + 1, hlt⟩) = true
    case neg =>
      rw [argvStep, dif_pos hlt, if_neg hpair]
      apply h.skip
      rintro j ⟨i, hi, rfl, hij⟩ hj
      grind
    case pos =>
      by_cases hhidden : (acc.1 ⟨m + 1, hlt⟩).isPlaceholder = true
      case pos =>
        rw [argvStep, dif_pos hlt, if_pos hpair, if_pos hhidden]
        apply h.skip
        grind [isPlaceholder_iff]
      case neg =>
        rw [argvStep, dif_pos hlt, if_pos hpair, if_neg hhidden]
        have hfollows : Follows U elems ⟨m + 1, hlt⟩ := ⟨m, hlt, rfl, hpair⟩
        have hout : out ⟨m + 1, hlt⟩ ≠ .placeholder := by
          rw [← h.kept ⟨m + 1, hlt⟩ fun hle => by simp at hle]
          rwa [ne_eq, ← isPlaceholder_iff]
        refine ⟨?_, ?_, ?_⟩
        · intro j hf hle
          change Function.update acc.1 ⟨m + 1, hlt⟩ .placeholder j = .placeholder
          by_cases hj : j = ⟨m + 1, hlt⟩
          · grind
          · have hjm : j.1 ≠ m + 1 := fun heq => hj (Fin.ext heq)
            rw [Function.update_of_ne hj]
            exact h.written j hf (by omega)
        · intro j hj
          have hne : j ≠ ⟨m + 1, hlt⟩ := by
            rintro rfl
            exact hj ⟨hfollows, le_refl _⟩
          change Function.update acc.1 ⟨m + 1, hlt⟩ .placeholder j = out j
          rw [Function.update_of_ne hne]
          apply h.kept
          grind
        · grind

theorem argvAfter_run (out : Fin n → GoValue ν) (m : ℕ) :
    ArgvAfter U elems out m ((List.range m).foldl (argvStep U elems) (out, false)) := by
  induction m with
  | zero => exact argvAfter_zero elems out
  | succ m ih =>
    rw [range_succ, foldl_concat]
    exact argvAfter_step elems ih

theorem redactArgv_spec (out : Fin n → GoValue ν) :
    (∀ j, Follows U elems j → (redactArgvAdjacentPairs U elems out).1 j = .placeholder) ∧
    (∀ j, ¬Follows U elems j → (redactArgvAdjacentPairs U elems out).1 j = out j) ∧
    ((redactArgvAdjacentPairs U elems out).2 = true ↔
      ∃ j, Follows U elems j ∧ out j ≠ .placeholder) := by
  have h := argvAfter_run (U := U) elems out n
  refine ⟨?_, ?_, ?_⟩
  · intro j hf
    exact h.written j hf j.2.le
  · intro j hf
    exact h.kept j fun hle => hf hle.1
  · have hchanged := h.changed
    constructor
    · intro hc
      obtain ⟨j, hf, -, hne⟩ := hchanged.mp hc
      exact ⟨j, hf, hne⟩
    · rintro ⟨j, hf, hne⟩
      exact hchanged.mpr ⟨j, hf, j.2.le, hne⟩

end Argv

section Keys

def SecretKey (key : List Symbol) : Prop :=
  ∃ w ∈ triggers, w <:+: key.map fun c => c.rune.toLower

def Ascii (t : List Symbol) : Prop := ∀ c ∈ t, c.rune.toNat < 128

theorem folds_toLower {c : Char} (hc : c.toNat < 128) : folds c.toLower c = true := by
  have hall : (List.range 128).all (fun n => folds (Char.ofNat n).toLower (Char.ofNat n)) =
      true := by
    decide
  grind [Char.ofNat_toNat]

theorem containsText_iff (t w : List Char) : Config.containsText t w = true ↔ w <:+: t := by
  rw [Config.containsText, any_eq_true]
  constructor
  · rintro ⟨u, hu, hw⟩
    have hfront := isPrefixOf_iff_prefix.mp hw
    exact hfront.isInfix.trans ((mem_tails _ _).mp hu).isInfix
  · rintro ⟨a, b, rfl⟩
    refine ⟨w ++ b, (mem_tails _ _).mpr ⟨a, by simp⟩, ?_⟩
    simp

theorem literal_of_lower {l : List Char} (hl : ∀ c ∈ l, c.toNat < 128) :
    (literal (l.map Char.toLower)).Matches l := by
  rw [literal_matches]
  induction l with
  | nil => simp_all
  | cons c l ih =>
    obtain ⟨hc, hl⟩ := forall_mem_cons.mp hl
    exact List.Forall₂.cons (folds_toLower hc) (ih hl)

theorem keyPattern_of_trigger {w l : List Char} (hw : w ∈ triggers) (h : (literal w).Matches l) :
    KeyPattern.Matches l := by
  simp only [triggers, mem_cons, not_mem_nil, or_false] at hw
  rcases hw with rfl | rfl | rfl | rfl | rfl
  · exact Or.inl h
  · exact Or.inr (Or.inl h)
  · exact Or.inr (Or.inr (Or.inl h))
  · exact Or.inr (Or.inr (Or.inr (Or.inl h)))
  · exact Or.inr (Or.inr (Or.inr (Or.inr ⟨[], l, rfl, forall_mem_nil _, h⟩)))

theorem keyMatchesPattern_iff {U : Unicode} {key : List Symbol} (hkey : Ascii key) :
    keyMatchesPattern U goString key = true ↔ SecretKey key := by
  have hlower : toLower U goString key = key.map fun c => c.rune.toLower := by
    apply map_congr_left
    intro c hc
    exact U.lower_ascii _ (hkey c hc)
  have htrigger : hasTrigger U goString key = true ↔ SecretKey key := by
    rw [hasTrigger, any_eq_true, hlower]
    simp only [containsText_iff]
    rfl
  rw [keyMatchesPattern, Bool.and_eq_true, htrigger]
  refine and_iff_left_of_imp ?_
  rintro ⟨w, hw, a, b, hab⟩
  -- the place of the trigger in the key itself
  have hmap : key.map (fun c => c.rune.toLower) = (key.map Symbol.rune).map Char.toLower := by
    rw [map_map]
    rfl
  rw [hmap, append_assoc] at hab
  obtain ⟨a', r, hkey_eq, -, hr⟩ := map_eq_append_iff.mp hab.symm
  obtain ⟨w', b', rfl, rfl, -⟩ := map_eq_append_iff.mp hr
  change KeyPattern.isMatch (key.map Symbol.rune) = true
  rw [Regex.isMatch_iff]
  refine ⟨a', w', b', by grind, keyPattern_of_trigger hw ?_⟩
  apply literal_of_lower
  intro c hc
  have hmem : c ∈ key.map Symbol.rune := by
    rw [hkey_eq]
    simp [hc]
  obtain ⟨d, hd, rfl⟩ := mem_map.mp hmem
  exact hkey d hd

end Keys

section Paths

inductive Step where
  | key (k : List Symbol)
  | index (i : ℕ)

namespace GoValue

def child : GoValue ν → Step → Option (GoValue ν)
  | .slice _ n elems, .index i => if h : i < n then some (elems ⟨i, h⟩) else none
  | .map _ keys vals, .key k => if h : k ∈ keys then some (vals ⟨k, h⟩) else none
  | _, _ => none

def at? : GoValue ν → List Step → Option (GoValue ν)
  | v, [] => some v
  | v, s :: p => (v.child s).bind fun x => x.at? p

def json : GoValue ν → GoValue ν
  | .nil => .nil
  | .string s => .string s
  | .leaf x => .leaf x
  | .slice _ n elems => .slice .any n fun i => (elems i).json
  | .map _ keys vals => .map .any keys fun k => (vals k).json

def AsciiKeys : GoValue ν → Prop
  | .slice _ _ elems => ∀ i, (elems i).AsciiKeys
  | .map _ keys vals => (∀ k ∈ keys, Ascii k) ∧ ∀ k, (vals k).AsciiKeys
  | _ => True

def HasSecretKey (v : GoValue ν) : Prop :=
  ∃ p k x, v.at? (p ++ [.key k]) = some x ∧ SecretKey k

theorem at?_cons (v : GoValue ν) (s : Step) (p : List Step) :
    v.at? (s :: p) = (v.child s).bind fun x => x.at? p := by
  cases v with
  | nil => rfl
  | string _ => rfl
  | leaf _ => rfl
  | slice _ _ _ => rfl
  | map _ _ _ => rfl

theorem at?_append (v : GoValue ν) (p q : List Step) :
    v.at? (p ++ q) = (v.at? p).bind fun x => x.at? q := by
  induction p generalizing v with
  | nil => simp [at?]
  | cons s p ih =>
    rw [cons_append, at?_cons, at?_cons]
    cases v.child s with
    | none => rfl
    | some x => exact ih x

end GoValue

def Open (p : List Step) : Prop := ∀ k, .key k ∈ p → ¬SecretKey k

def BehindFlag (U : Unicode) (v : GoValue ν) (p : List Step) (s : List Symbol) : Prop :=
  ∃ q i flag, p = q ++ [.index (i + 1)] ∧ v.at? (q ++ [.index i]) = some (.string flag) ∧
    flagNameLooksSecret U flag = true ∧ isFlagToken s = false

/-- What the filter promises: the values of secret keys and the strings behind secret flags
are the placeholder, every other string is scanned, everything else stays, and it is said
whether there was something to hide. -/
structure Redaction (U : Unicode) (v out : GoValue ν) (wasRedacted : Bool) : Prop where
  secretKeys : ∀ q k x, Open q → v.at? (q ++ [.key k]) = some x → SecretKey k →
    out.at? (q ++ [.key k]) = some .placeholder
  flagValues : ∀ p s, Open p → v.at? p = some (.string s) → BehindFlag U v p s →
    out.at? p = some .placeholder
  strings : ∀ p s, Open p → v.at? p = some (.string s) → ¬BehindFlag U v p s →
    out.at? p = some (.string (string U goString s).1)
  nils : ∀ p, Open p → v.at? p = some .nil → out.at? p = some .nil
  leaves : ∀ p x, Open p → v.at? p = some (.leaf x) → out.at? p = some (.leaf x)
  slices : ∀ p type n elems, Open p → v.at? p = some (.slice type n elems) →
    ∃ elems', out.at? p = some (.slice .any n elems')
  maps : ∀ p type keys vals, Open p → v.at? p = some (.map type keys vals) →
    ∃ vals', out.at? p = some (.map .any keys vals')
  flag : wasRedacted = true ↔ out.json ≠ v.json ∨ v.HasSecretKey

end Paths

section Value

variable {U : Unicode}

theorem value_map (type : Container) (keys : Finset (List Symbol))
    (vals : {k // k ∈ keys} → GoValue ν) :
    value U (.map type keys vals) = redactMap U keys fun k => value U (vals k) := by
  cases type with
  | any => rfl
  | other name => rfl

theorem isArgvPair_iff (x y : GoValue ν) : isArgvPair U x y = true ↔
    ∃ flag s, x = .string flag ∧ y = .string s ∧ flagNameLooksSecret U flag = true ∧
      isFlagToken s = false := by
  constructor
  · intro h
    cases x with
    | string flag =>
      cases y with
      | string s =>
        rw [isArgvPair, Bool.and_eq_true, Bool.not_eq_true'] at h
        grind
      | nil => cases h
      | leaf _ => cases h
      | slice _ _ _ => cases h
      | map _ _ _ => cases h
    | nil => cases h
    | leaf _ => cases h
    | slice _ _ _ => cases h
    | map _ _ _ => cases h
  · rintro ⟨flag, s, rfl, rfl, hflag, hs⟩
    rw [isArgvPair, hflag, hs]
    rfl

variable {v x : GoValue ν}

theorem child_secretKey (hv : v.AsciiKeys) {k : List Symbol} (h : v.child (.key k) = some x)
    (hk : SecretKey k) :
    (value U v).1.child (.key k) = some .placeholder := by
  cases v with
  | map type keys vals =>
    by_cases hmem : k ∈ keys
    · have hmatch := (keyMatchesPattern_iff (U := U) (hv.1 k hmem)).mpr hk
      rw [value_map]
      simp [redactMap, child, hmem, hmatch]
    · simp [child, hmem] at h
  | nil => cases h
  | string _ => cases h
  | leaf _ => cases h
  | slice _ _ _ => cases h

theorem child_value (hv : v.AsciiKeys) {s : Step} (h : v.child s = some x)
    (hkey : ∀ k, s = .key k → ¬SecretKey k)
    (hindex : ∀ i flag t, s = .index (i + 1) → v.child (.index i) = some (.string flag) →
      x = .string t → flagNameLooksSecret U flag = true → isFlagToken t = true) :
    (value U v).1.child s = some (value U x).1 := by
  cases v with
  | map type keys vals =>
    cases s with
    | index i => cases h
    | key k =>
      by_cases hmem : k ∈ keys
      · have hmatch : keyMatchesPattern U goString k = false := by
          rw [← Bool.not_eq_true, keyMatchesPattern_iff (hv.1 k hmem)]
          exact hkey k rfl
        rw [child, dif_pos hmem] at h
        rw [value_map, ← Option.some.inj h]
        simp [redactMap, child, hmem, hmatch]
      · simp [child, hmem] at h
  | slice type n elems =>
    cases s with
    | key k => cases h
    | index j =>
      by_cases hj : j < n
      · rw [child, dif_pos hj] at h
        have hx := Option.some.inj h
        have hnot : ¬Follows U elems ⟨j, hj⟩ := by
          rintro ⟨i, hi, heq, hpair⟩
          obtain rfl : j = i + 1 := Fin.mk.inj heq
          obtain ⟨flag, t, hflag, ht, hsecret, htoken⟩ := (isArgvPair_iff _ _).mp hpair
          have hprev : (slice type n elems).child (.index i) = some (.string flag) := by
            rw [child, dif_pos (Nat.lt_of_succ_lt hi), hflag]
          rw [hindex i flag t rfl hprev (hx ▸ ht) hsecret] at htoken
          cases htoken
        have hspec := (redactArgv_spec elems fun i => (value U (elems i)).1).2.1 _ hnot
        simp only [value, child, hj, dif_pos]
        rw [hspec, ← hx]
      · simp [child, hj] at h
  | nil => cases h
  | string _ => cases h
  | leaf _ => cases h

theorem child_flagValue {v : GoValue ν} {i : ℕ} {flag s : List Symbol}
    (hflag : v.child (.index i) = some (.string flag))
    (h : v.child (.index (i + 1)) = some (.string s)) (hsecret : flagNameLooksSecret U flag = true)
    (hs : isFlagToken s = false) : (value U v).1.child (.index (i + 1)) = some .placeholder := by
  cases v with
  | slice type n elems =>
    by_cases hi : i + 1 < n
    · rw [child, dif_pos hi] at h
      rw [child, dif_pos (Nat.lt_of_succ_lt hi)] at hflag
      have hpair : isArgvPair U (elems ⟨i, Nat.lt_of_succ_lt hi⟩) (elems ⟨i + 1, hi⟩) = true :=
        (isArgvPair_iff _ _).mpr ⟨flag, s, Option.some.inj hflag, Option.some.inj h, hsecret, hs⟩
      have hspec := (redactArgv_spec elems fun i => (value U (elems i)).1).1 _ ⟨i, hi, rfl, hpair⟩
      simp only [value, child, hi, dif_pos]
      rw [hspec]
    · simp [child, hi] at h
  | nil => cases h
  | string _ => cases h
  | leaf _ => cases h
  | map _ _ _ => cases h

theorem asciiKeys_child (hv : v.AsciiKeys) {s : Step} (h : v.child s = some x) :
    x.AsciiKeys := by
  cases v with
  | slice type n elems =>
    cases s with
    | key k => cases h
    | index i =>
      by_cases hi : i < n
      · rw [child, dif_pos hi] at h
        rw [← Option.some.inj h]
        exact hv _
      · simp [child, hi] at h
  | map type keys vals =>
    cases s with
    | index i => cases h
    | key k =>
      by_cases hk : k ∈ keys
      · rw [child, dif_pos hk] at h
        rw [← Option.some.inj h]
        exact hv.2 _
      · simp [child, hk] at h
  | nil => cases h
  | string _ => cases h
  | leaf _ => cases h

theorem asciiKeys_at? (hv : v.AsciiKeys) {p : List Step} (h : v.at? p = some x) : x.AsciiKeys := by
  induction p generalizing v with
  | nil =>
    rw [GoValue.at?, Option.some.injEq] at h
    exact h ▸ hv
  | cons s p ih => grind [GoValue.at?_cons, Option.bind_eq_some_iff, asciiKeys_child]

theorem at?_value (hv : v.AsciiKeys) {p : List Step} (hopen : Open p) (h : v.at? p = some x)
    (hnot : ∀ s, x = .string s → ¬BehindFlag U v p s) :
    (value U v).1.at? p = some (value U x).1 := by
  induction p generalizing v with
  | nil =>
    rw [GoValue.at?, Option.some.injEq] at h
    rw [GoValue.at?, h]
  | cons s p ih =>
    rw [GoValue.at?_cons] at h ⊢
    obtain ⟨y, hy, hx⟩ := Option.bind_eq_some_iff.mp h
    have hkey : ∀ k, s = .key k → ¬SecretKey k := fun k hs => hopen k (by rw [hs]; simp)
    have hindex : ∀ i flag t, s = .index (i + 1) → v.child (.index i) = some (.string flag) →
        y = .string t → flagNameLooksSecret U flag = true → isFlagToken t = true := by
      rintro i flag t rfl hflag rfl hsecret
      by_contra htoken
      -- a string has no parts, so the path ends here
      cases p with
      | cons s' p =>
        rw [GoValue.at?_cons] at hx
        cases hx
      | nil =>
        rw [GoValue.at?, Option.some.injEq] at hx
        apply hnot t hx.symm
        refine ⟨[], i, flag, rfl, ?_, hsecret, Bool.eq_false_iff.mpr htoken⟩
        rw [nil_append, GoValue.at?_cons, hflag]
        rfl
    rw [child_value hv hy hkey hindex, Option.bind_some]
    apply ih (asciiKeys_child hv hy) (fun k hk => hopen k (mem_cons_of_mem _ hk)) hx
    rintro t ht ⟨q, i, flag, hp, hflag, hsecret, htoken⟩
    refine hnot t ht ⟨s :: q, i, flag, by rw [hp]; rfl, ?_, hsecret, htoken⟩
    rw [cons_append, GoValue.at?_cons, hy]
    exact hflag

theorem at?_parent (hv : v.AsciiKeys) {q : List Step} {s : Step} (hopen : Open q)
    (h : v.at? (q ++ [s]) = some x) :
    ∃ y, v.at? q = some y ∧ y.AsciiKeys ∧ y.child s = some x ∧
      (value U v).1.at? (q ++ [s]) = (value U y).1.child s := by
  rw [GoValue.at?_append] at h
  obtain ⟨y, hy, hx⟩ := Option.bind_eq_some_iff.mp h
  have hone (w : GoValue ν) : w.at? [s] = w.child s := by
    rw [GoValue.at?_cons]
    cases w.child s with
    | none => rfl
    | some x => rfl
  rw [hone] at hx
  have hstring : ∀ t, y = .string t → ¬BehindFlag U v q t := by
    rintro t rfl
    cases hx
  refine ⟨y, hy, asciiKeys_at? hv hy, hx, ?_⟩
  rw [GoValue.at?_append, at?_value hv hopen hy hstring, Option.bind_some, hone]

end Value

section Changed

variable {U : Unicode}

theorem string_mark (U : Unicode) : string U goString goString.mark = (goString.mark, false) := by
  have hascii : goString.mark.all (fun c => decide (c.rune.toNat < 128)) = true := by decide
  have hlower : toLower U goString goString.mark = goString.mark.map fun c => c.rune.toLower := by
    apply map_congr_left
    intro c hc
    exact U.lower_ascii _ (of_decide_eq_true (all_eq_true.mp hascii c hc))
  have hurl : hasURL U goString goString.mark = false := by
    rw [hasURL, hlower]
    decide
  have htrigger : hasTrigger U goString goString.mark = false := by
    rw [hasTrigger, hlower]
    decide
  rw [string, hurl, htrigger]
  rfl

theorem hasSecretKey_child {v x : GoValue ν} {s : Step} (h : v.child s = some x)
    (hx : x.HasSecretKey) : v.HasSecretKey := by
  obtain ⟨p, k, y, hy, hk⟩ := hx
  refine ⟨s :: p, k, y, ?_, hk⟩
  rw [cons_append, GoValue.at?_cons, h]
  exact hy

theorem hasSecretKey_iff (v : GoValue ν) : v.HasSecretKey ↔
    ∃ s x, v.child s = some x ∧ ((∃ k, s = .key k ∧ SecretKey k) ∨ x.HasSecretKey) := by
  constructor
  · rintro ⟨p, k, x, hx, hk⟩
    cases p with
    | nil => grind [GoValue.at?_cons, Option.bind_eq_some_iff]
    | cons s p =>
      rw [cons_append, GoValue.at?_cons] at hx
      obtain ⟨y, hy, hx⟩ := Option.bind_eq_some_iff.mp hx
      exact ⟨s, y, hy, Or.inr ⟨p, k, x, hx, hk⟩⟩
  · rintro ⟨s, x, hx, ⟨k, rfl, hk⟩ | hsecret⟩
    · refine ⟨[], k, x, ?_, hk⟩
      rw [nil_append, GoValue.at?_cons, hx]
      rfl
    · exact hasSecretKey_child hx hsecret

theorem hasSecretKey_slice (type : Container) {n : ℕ} (elems : Fin n → GoValue ν) :
    (slice type n elems).HasSecretKey ↔ ∃ i, (elems i).HasSecretKey := by
  rw [hasSecretKey_iff]
  constructor
  · rintro ⟨s, x, hx, h⟩
    cases s with
    | key k => cases hx
    | index i =>
      by_cases hi : i < n
      · rw [child, dif_pos hi] at hx
        grind
      · simp [child, hi] at hx
  · rintro ⟨i, hi⟩
    refine ⟨.index i, elems i, ?_, Or.inr hi⟩
    rw [child, dif_pos i.2]

theorem hasSecretKey_map (type : Container) {keys : Finset (List Symbol)}
    (vals : {k // k ∈ keys} → GoValue ν) : (GoValue.map type keys vals).HasSecretKey ↔
      ∃ k : {k // k ∈ keys}, SecretKey k.1 ∨ (vals k).HasSecretKey := by
  rw [hasSecretKey_iff]
  constructor
  · rintro ⟨s, x, hx, h⟩
    cases s with
    | index i => cases hx
    | key k =>
      by_cases hk : k ∈ keys
      · rw [child, dif_pos hk] at hx
        rcases h with ⟨k', hk', hsecret⟩ | h
        · obtain rfl := Step.key.inj hk'
          exact ⟨⟨k, hk⟩, Or.inl hsecret⟩
        · grind
      · simp [child, hk] at hx
  · rintro ⟨k, hk⟩
    refine ⟨.key k.1, vals k, by rw [child, dif_pos k.2], ?_⟩
    grind

theorem flagValue_unchanged (s : List Symbol) : (string U goString s).2 = false ∧
    (.string (string U goString s).1 : GoValue ν) = .placeholder ↔ s = goString.mark := by
  constructor
  · rintro ⟨hsame, hmark⟩
    have hs := string_unchanged hsame
    rw [hs] at hmark
    exact string.inj hmark
  · rintro rfl
    rw [string_mark]
    exact ⟨rfl, rfl⟩

theorem unchanged_iff (v : GoValue ν) (hv : v.AsciiKeys) :
    (value U v).2 = false ↔ (value U v).1.json = v.json ∧ ¬v.HasSecretKey := by
  induction v with
  | nil =>
    refine iff_of_true rfl ⟨rfl, ?_⟩
    rw [hasSecretKey_iff]
    rintro ⟨s, x, hx, -⟩
    cases hx
  | leaf y =>
    refine iff_of_true rfl ⟨rfl, ?_⟩
    rw [hasSecretKey_iff]
    rintro ⟨s, x, hx, -⟩
    cases hx
  | string t =>
    have hnone : ¬(GoValue.string t : GoValue ν).HasSecretKey := by
      rw [hasSecretKey_iff]
      rintro ⟨s, x, hx, -⟩
      cases hx
    simp only [value, GoValue.json, GoValue.string.injEq, hnone, not_false_eq_true, and_true]
    constructor
    · exact string_unchanged
    · intro h
      rw [string] at h ⊢
      grind
  | slice type n elems ih =>
    rw [hasSecretKey_slice, not_exists]
    obtain ⟨hhidden, hkept, hchanged⟩ :=
      redactArgv_spec (U := U) elems fun i => (value U (elems i)).1
    have hflag : (value U (.slice type n elems)).2 = false ↔
        ∀ i, (value U (elems i)).2 = false ∧
          (Follows U elems i → (value U (elems i)).1 = .placeholder) := by
      simp only [value, Bool.or_eq_false_iff, decide_eq_false_iff_not, not_exists,
        Bool.not_eq_true]
      rw [← Bool.not_eq_true, hchanged, not_exists]
      simp only [not_and, not_not]
      exact forall_and.symm
    have hjson : (value U (.slice type n elems)).1.json = (GoValue.slice type n elems).json ↔
        ∀ i, ((redactArgvAdjacentPairs U elems fun i => (value U (elems i)).1).1 i).json =
          (elems i).json := by
      simp only [value, GoValue.json, GoValue.slice.injEq, heq_eq_eq, true_and]
      exact funext_iff
    rw [hflag, hjson, ← forall_and]
    apply forall_congr'
    intro i
    by_cases hf : Follows U elems i
    · rw [hhidden i hf]
      obtain ⟨j, hj, rfl, hpair⟩ := hf
      obtain ⟨flag, s, -, hs, -, -⟩ := (isArgvPair_iff _ _).mp hpair
      have hnone : ¬(elems ⟨j + 1, hj⟩).HasSecretKey := by
        rw [hs, hasSecretKey_iff]
        rintro ⟨s, x, hx, -⟩
        cases hx
      have hfollows : Follows U elems ⟨j + 1, hj⟩ := ⟨j, hj, rfl, hpair⟩
      simp only [hfollows, true_imp_iff, hnone, not_false_eq_true, and_true]
      rw [hs]
      simp only [value]
      rw [flagValue_unchanged]
      simp only [GoValue.json, GoValue.placeholder, GoValue.string.injEq]
      exact eq_comm
    · rw [hkept i hf, ← ih i (hv i)]
      grind
  | map type keys vals ih =>
    rw [hasSecretKey_map, not_exists, value_map]
    have hmatch (k : {k // k ∈ keys}) : keyMatchesPattern U goString k.1 = true ↔ SecretKey k.1 :=
      keyMatchesPattern_iff (hv.1 k.1 k.2)
    have hflag : (redactMap U keys fun k => value U (vals k)).2 = false ↔
        ∀ k : {k // k ∈ keys}, ¬SecretKey k.1 ∧ (value U (vals k)).2 = false := by
      simp only [redactMap, decide_eq_false_iff_not, not_exists, not_or, hmatch, Bool.not_eq_true]
    have hjson : (redactMap U keys fun k => value U (vals k)).1.json =
        (GoValue.map type keys vals).json ↔ ∀ k : {k // k ∈ keys},
          (if keyMatchesPattern U goString k.1 then GoValue.placeholder
            else (value U (vals k)).1).json = (vals k).json := by
      simp only [redactMap, GoValue.json, GoValue.map.injEq, heq_eq_eq, true_and]
      exact funext_iff
    rw [hflag, hjson, ← forall_and]
    apply forall_congr'
    intro k
    by_cases hk : SecretKey k.1
    · simp [hk]
    · have hfalse : keyMatchesPattern U goString k.1 = false := by
        rw [← Bool.not_eq_true, hmatch]
        exact hk
      simp only [hk, not_false_eq_true, true_and, hfalse, false_or]
      exact ih k (hv.2 k)

end Changed

section Results

/-- `Value` on every value whose keys are ASCII. -/
theorem value_redaction (U : Unicode) (v : GoValue ν) (hv : v.AsciiKeys) :
    Redaction U v (value U v).1 (value U v).2 where
  secretKeys := by
    intro q k x hopen hx hk
    obtain ⟨y, -, hy, hchild, hout⟩ := at?_parent (U := U) hv hopen hx
    rw [hout]
    exact child_secretKey hy hchild hk
  flagValues := by
    rintro p s hopen hs ⟨q, i, flag, rfl, hflag, hsecret, htoken⟩
    have hopen' : Open q := fun k hk => hopen k (mem_append_left _ hk)
    obtain ⟨y, hy, -, hchild, hout⟩ := at?_parent (U := U) hv hopen' hs
    obtain ⟨y', hy', -, hchild', -⟩ := at?_parent (U := U) hv hopen' hflag
    grind [child_flagValue]
  strings := by
    intro p s hopen hs hnot
    rw [at?_value hv hopen hs]
    · rfl
    · grind
  nils := by
    intro p hopen h
    exact at?_value hv hopen h nofun
  leaves := by
    intro p x hopen h
    exact at?_value hv hopen h nofun
  slices := by
    intro p type n elems hopen h
    exact ⟨_, at?_value hv hopen h fun s hs => by cases hs⟩
  maps := by
    intro p type keys vals hopen h
    have hout := at?_value (U := U) hv hopen h nofun
    rw [value_map] at hout
    exact ⟨_, hout⟩
  flag := by
    have h := unchanged_iff (U := U) v hv
    grind

def argsKey : List Symbol := "args".toList.map .char

def containerArgs : GoValue ℕ :=
  .map .any {argsKey} fun _ =>
    .slice (.other "[]string") 2 ![.string ("--password".toList.map .char),
      .string ("hunter2".toList.map .char)]

theorem value_redaction_args : containerArgs.AsciiKeys ∧
    (value sampleUnicode containerArgs).1.at? [.key argsKey, .index 1] = some .placeholder := by
  have hascii : containerArgs.AsciiKeys := by
    refine ⟨?_, fun k => ?_⟩
    · intro k hk
      rw [Finset.mem_singleton.mp hk]
      unfold Ascii
      decide
    · intro i
      fin_cases i
      · exact trivial
      · exact trivial
  refine ⟨hascii, ?_⟩
  have hnot : ¬SecretKey argsKey := by
    unfold SecretKey
    decide
  have hopen : Open [.key argsKey, .index 1] := by
    intro k hk
    have hkey : k = argsKey := by simpa using hk
    rw [hkey]
    exact hnot
  apply (value_redaction sampleUnicode containerArgs hascii).flagValues _
    ("hunter2".toList.map .char) hopen
  · simp [containerArgs, GoValue.at?, child]
  · refine ⟨[.key argsKey], 0, "--password".toList.map .char, rfl, ?_, by decide +kernel,
      by decide +kernel⟩
    simp [containerArgs, GoValue.at?, child]

end Results

end DbAgent.Redact
