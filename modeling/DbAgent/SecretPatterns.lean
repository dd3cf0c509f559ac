import Mathlib.Data.List.Forall2
import DbAgent.RegexScan

/-! The patterns of the redaction filter, with the characters that `(?i)` adds, and what
their matches look like. The symbols of a text are seen through the function `look`. -/
namespace DbAgent.Redact

open Scan List Pattern Regex

section Classes

/-- `[a-z]` under `(?i)`, which adds the long s and the Kelvin sign. -/
def isLetter (c : Char) : Bool := c.isAlpha || c == 'ſ' || c == '\u212a'

def isSchemeChar (c : Char) : Bool := isLetter c || c.isDigit || c ∈ ['+', '.', '-']

/-- `[\w.-]` -/
def isKeyChar (c : Char) : Bool := isLetter c || c.isDigit || c ∈ ['_', '.', '-']

/-- `\s` -/
def blanks : List Char := ['\t', '\n', '\x0c', '\r', ' ']

def isBlank (c : Char) : Bool := c ∈ blanks

/-- `[^\s/@:]` -/
def isUserChar (c : Char) : Bool := c ∉ blanks ++ ['/', '@', ':']

/-- `[^\s/@]` -/
def isPasswordChar (c : Char) : Bool := c ∉ blanks ++ ['/', '@']

/-- `[^;,&\s]` -/
def isValueChar (c : Char) : Bool := c ∉ [';', ',', '&'] ++ blanks

/-- A letter of a pattern under `(?i)`. -/
def folds (x c : Char) : Bool :=
  c == x || c == x.toUpper || (x == 's' && c == 'ſ') || (x == 'k' && c == '\u212a')

end Classes

section Patterns

def literal : List Char → Regex Char
  | [] => .many fun _ => false
  | x :: xs => .seq (.one (folds x)) (literal xs)

def triggers : List (List Char) :=
  ["password".toList, "secret".toList, "token".toList, "credential".toList, "-key".toList]

def KeyPattern : Regex Char :=
  .alt (literal "password".toList) <| .alt (literal "secret".toList) <|
    .alt (literal "token".toList) <| .alt (literal "credential".toList) <|
    .seq (.many (· ≠ '\n')) (literal "-key".toList)

def urlUserinfoPattern : Pattern Char where
  first := .seq (.one isLetter) <| .seq (.many isSchemeChar) <| .seq (literal [':', '/', '/']) <|
    .seq (.plus isUserChar) (.one (· == ':'))
  second := .plus isPasswordChar
  third := .one (· == '@')

def anyTrigger : Regex Char :=
  .alt (literal "password".toList) <| .alt (literal "secret".toList) <|
    .alt (literal "token".toList) <| .alt (literal "credential".toList) (literal "-key".toList)

def embeddedKVPattern : Pattern Char where
  first := .seq (.many isKeyChar) <| .seq anyTrigger (.many isKeyChar)
  second := .seq (.many isBlank) <| .seq (.one (· == '=')) (.many isBlank)
  third := .plus isValueChar

end Patterns

section Facts

variable {c : Char}

theorem isSchemeChar_of_isLetter (h : isLetter c = true) : isSchemeChar c = true := by
  rw [isSchemeChar, h]
  rfl

theorem notMem_of_class {p : Char → Bool} {l : List Char} (h : l.all (fun d => !p d) = true)
    (hc : p c = true) : c ∉ l := by grind

theorem not_class {p : Char → Bool} {c d : Char} (hc : p c = true) (h : c = d) (hd : p d = false) :
    False := by
  rw [h, hd] at hc
  cases hc

theorem isUserChar_of_isSchemeChar (h : isSchemeChar c = true) :
    isUserChar c = true :=
  decide_eq_true (notMem_of_class (by decide) h)

theorem isPasswordChar_of_isUserChar (h : isUserChar c = true) :
    isPasswordChar c = true :=
  decide_eq_true (notMem_of_class (by decide) h)

theorem isValueChar_of_isKeyChar (h : isKeyChar c = true) : isValueChar c = true :=
  decide_eq_true (notMem_of_class (by decide) h)

theorem not_isBlank_of_isValueChar (h : isValueChar c = true) : isBlank c = false :=
  decide_eq_false (notMem_of_class (by decide) h)

theorem not_isBlank_of_isPasswordChar (h : isPasswordChar c = true) :
    isBlank c = false :=
  decide_eq_false (notMem_of_class (by decide) h)

theorem isKeyChar_of_folds {w : List Char} (hw : w ∈ triggers) {x c : Char} (hx : x ∈ w)
    (h : folds x c = true) : isKeyChar c = true := by
  have hall : triggers.all (fun w => w.all fun x => isKeyChar x && isKeyChar x.toUpper) = true := by
    decide
  have hone := all_eq_true.mp (all_eq_true.mp hall w hw) x hx
  obtain ⟨h1, h2⟩ := Bool.and_eq_true_iff.mp hone
  simp only [folds, Bool.or_eq_true, Bool.and_eq_true, beq_iff_eq] at h
  rcases h with ((rfl | rfl) | ⟨-, rfl⟩) | ⟨-, rfl⟩
  · exact h1
  · exact h2
  · decide
  · decide

theorem literal_matches (w l : List Char) :
    (literal w).Matches l ↔ List.Forall₂ (fun x c => folds x c = true) w l := by
  induction w generalizing l with
  | nil =>
    rw [forall₂_nil_left_iff, literal, Regex.Matches]
    simp [eq_nil_iff_forall_not_mem]
  | cons x w ih =>
    rw [forall₂_cons_left_iff]
    constructor
    · rintro ⟨a, b, rfl, ⟨c, hc, rfl⟩, hb⟩
      simp_all
    · rintro ⟨c, b, hc, hb, rfl⟩
      exact ⟨[c], b, rfl, ⟨c, hc, rfl⟩, (ih b).mpr hb⟩

theorem anyTrigger_matches (l : List Char) :
    anyTrigger.Matches l ↔ ∃ w ∈ triggers, (literal w).Matches l := by
  simp [anyTrigger, triggers, Regex.Matches]

theorem isKeyChar_of_anyTrigger {l : List Char} (h : anyTrigger.Matches l) :
    ∀ c ∈ l, isKeyChar c = true := by
  obtain ⟨w, hw, hl⟩ := (anyTrigger_matches l).mp h
  rw [literal_matches] at hl
  have hall (v : List Char) (hv : ∀ x ∈ v, x ∈ w) (l : List Char)
      (h : List.Forall₂ (fun x c => folds x c = true) v l) : ∀ c ∈ l, isKeyChar c = true := by
    induction h with
    | nil => exact forall_mem_nil _
    | cons hxc _ ih =>
      obtain ⟨hx, hv⟩ := forall_mem_cons.mp hv
      exact forall_mem_cons.mpr ⟨isKeyChar_of_folds hw hx hxc, ih hv⟩
  grind

theorem folds_colon (h : folds ':' c = true) : c = ':' := by
  simpa [folds] using h

theorem folds_slash (h : folds '/' c = true) : c = '/' := by
  simpa [folds] using h

end Facts

variable {α : Type} (look : α → Char)

def url : Pattern α := urlUserinfoPattern.comap look

def kv : Pattern α := embeddedKVPattern.comap look

/-- The parts of a match of `urlUserinfoPattern`. -/
@[ext]
structure Url (α : Type) where
  scheme : List α
  colon : α
  slash₁ : α
  slash₂ : α
  user : List α
  colon₂ : α
  password : List α
  sign : α

/-- The parts of a match of `embeddedKVPattern`. -/
@[ext]
structure Pair (α : Type) where
  key : List α
  blank₁ : List α
  sign : α
  blank₂ : List α
  value : List α

open Pair

def Url.hit (u : Url α) : Hit α :=
  ⟨u.scheme ++ u.colon :: u.slash₁ :: u.slash₂ :: (u.user ++ [u.colon₂]), u.password, [u.sign]⟩

def Pair.hit (p : Pair α) : Hit α := ⟨p.key, p.blank₁ ++ p.sign :: p.blank₂, p.value⟩

structure Url.Ok (u : Url α) : Prop where
  letter : ∃ c l, u.scheme = c :: l ∧ isLetter (look c) = true
  scheme : ∀ c ∈ u.scheme, isSchemeChar (look c) = true
  colon : look u.colon = ':'
  slash₁ : look u.slash₁ = '/'
  slash₂ : look u.slash₂ = '/'
  user_ne : u.user ≠ []
  user : ∀ c ∈ u.user, isUserChar (look c) = true
  colon₂ : look u.colon₂ = ':'
  password_ne : u.password ≠ []
  password : ∀ c ∈ u.password, isPasswordChar (look c) = true
  sign : look u.sign = '@'

structure Pair.Ok (p : Pair α) : Prop where
  key : ∀ c ∈ p.key, isKeyChar (look c) = true
  trigger : ∃ a b c, p.key = a ++ (b ++ c) ∧ anyTrigger.Matches (b.map look)
  blank₁ : ∀ c ∈ p.blank₁, isBlank (look c) = true
  sign : look p.sign = '='
  blank₂ : ∀ c ∈ p.blank₂, isBlank (look c) = true
  value_ne : p.value ≠ []
  value : ∀ c ∈ p.value, isValueChar (look c) = true

section Urls

variable {look} {u : Url α} {rest : List α}

theorem Url.text_append (u : Url α) (rest : List α) :
    u.hit.text ++ rest = u.scheme ++ u.colon :: u.slash₁ :: u.slash₂ ::
      (u.user ++ u.colon₂ :: (u.password ++ u.sign :: rest)) := by
  simp [Url.hit, Hit.text]

theorem url_matches {h : Hit α} : (url look).Matches h ↔ ∃ u : Url α, u.Ok look ∧ h = u.hit := by
  constructor
  · intro hm
    obtain ⟨first, second, third⟩ := h
    obtain ⟨_, _, rfl, ⟨c, hc, rfl⟩, scheme, _, rfl, hscheme, _, _, rfl, hlit, user, _, rfl, huser,
      d, hd, rfl⟩ := hm.first
    obtain ⟨_, _, rfl, ⟨x, hx, rfl⟩, _, _, rfl, ⟨y, hy, rfl⟩, _, _, rfl, ⟨z, hz, rfl⟩, hnil⟩ := hlit
    obtain ⟨e, he, rfl⟩ := hm.third
    have hempty : ∀ l : List α, ((many fun _ => false).comap look).Matches l → l = [] := by
      intro l hl
      exact eq_nil_iff_forall_not_mem.mpr fun c hc => (by cases hl c hc)
    obtain rfl := hempty _ hnil
    have huser' := matches_plus.mp huser
    have hpass := matches_plus.mp hm.second
    refine ⟨⟨c :: scheme, x, y, z, user, d, second, e⟩, ?_, ?_⟩
    · exact {
        letter := ⟨c, scheme, rfl, hc⟩
        scheme := forall_mem_cons.mpr ⟨isSchemeChar_of_isLetter hc, hscheme⟩
        colon := folds_colon hx
        slash₁ := folds_slash hy
        slash₂ := folds_slash hz
        user_ne := huser'.1
        user := huser'.2
        colon₂ := by simpa using hd
        password_ne := hpass.1
        password := hpass.2
        sign := by simpa using he }
    · simp [Url.hit]
  · rintro ⟨u, hu, rfl⟩
    obtain ⟨c, l, hcl, hc⟩ := hu.letter
    have hl : ∀ d ∈ l, isSchemeChar (look d) = true := by
      intro d hd
      exact hu.scheme d (by grind)
    have hcolon : folds ':' (look u.colon) = true := by rw [hu.colon]; decide
    have hslash₁ : folds '/' (look u.slash₁) = true := by rw [hu.slash₁]; decide
    have hslash₂ : folds '/' (look u.slash₂) = true := by rw [hu.slash₂]; decide
    refine ⟨⟨[c], _, ?_, ⟨c, hc, rfl⟩, l, _, rfl, hl, [u.colon, u.slash₁, u.slash₂], _, rfl,
      ⟨[_], _, rfl, ⟨_, hcolon, rfl⟩, [_], _, rfl, ⟨_, hslash₁, rfl⟩, [_], [], rfl,
        ⟨_, hslash₂, rfl⟩, forall_mem_nil _⟩,
      u.user, [u.colon₂], rfl, matches_plus.mpr ⟨hu.user_ne, hu.user⟩, u.colon₂, ?_, rfl⟩,
      matches_plus.mpr ⟨hu.password_ne, hu.password⟩, ⟨u.sign, ?_, rfl⟩⟩
    · simp [Url.hit, hcl]
    · simp [hu.colon₂]
    · simp [hu.sign]

theorem Url.unique {u u' : Url α} (hu : u.Ok look) (hu' : u'.Ok look) {rest rest' : List α}
    (h : u.hit.text ++ rest = u'.hit.text ++ rest') : u = u' ∧ rest = rest' := by
  have hcolon {c : α} (hc : look c = ':') : isSchemeChar (look c) = false := by rw [hc]; decide
  have hcolon₂ {c : α} (hc : look c = ':') : isUserChar (look c) = false := by rw [hc]; decide
  have hsign {c : α} (hc : look c = '@') : isPasswordChar (look c) = false := by rw [hc]; decide
  rw [Url.text_append, Url.text_append] at h
  obtain ⟨hs, hc, hafter⟩ := run_unique (p := isSchemeChar ∘ look) h hu.scheme hu'.scheme
    (hcolon hu.colon) (hcolon hu'.colon)
  obtain ⟨hs₁, htail⟩ := List.cons.inj hafter
  obtain ⟨hs₂, huser⟩ := List.cons.inj htail
  obtain ⟨hname, hc₂, hpass⟩ := run_unique (p := isUserChar ∘ look) huser hu.user hu'.user
    (hcolon₂ hu.colon₂) (hcolon₂ hu'.colon₂)
  obtain ⟨hpw, hat, hrest⟩ := run_unique (p := isPasswordChar ∘ look) hpass hu.password
    hu'.password (hsign hu.sign) (hsign hu'.sign)
  exact ⟨Url.ext hs hc hs₁ hs₂ hname hc₂ hpw hat, hrest⟩

theorem url_matchAt (hu : u.Ok look) : (url look).matchAt (u.hit.text ++ rest) =
    some (u.hit, rest) := by
  cases hm : (url look).matchAt (u.hit.text ++ rest) with
  | none => exact absurd hm (matchAt_isSome rfl (url_matches.mpr ⟨u, hu, rfl⟩))
  | some x =>
    obtain ⟨g, t⟩ := x
    obtain ⟨u', hu', rfl⟩ := url_matches.mp (matchAt_matches hm)
    obtain ⟨rfl, rfl⟩ := Url.unique hu hu' (matchAt_eq hm)
    rfl

variable {c : α}

theorem Url.letter_head (hu : u.Ok look) {l : List α} (h : u.scheme = c :: l) :
    isSchemeChar (look c) = true ∧ ∀ d ∈ l, isSchemeChar (look d) = true := by
  have hall := hu.scheme
  grind

theorem Url.not_in_user (hu : u.Ok look) {c d : α} {l z t : List α} (h : u.scheme = c :: l)
    (hz : ∀ e ∈ z, isUserChar (look e) = true) {colon : α} (hcolon : look colon = ':')
    (hd : isPasswordChar (look d) = true) {v : List α}
    (heq : l ++ u.colon :: u.slash₁ :: v = z ++ colon :: d :: t) : False := by
  have hnot {e : α} (he : look e = ':') : isUserChar (look e) = false := by rw [he]; decide
  have hl : ∀ e ∈ l, isUserChar (look e) = true := fun e he =>
    isUserChar_of_isSchemeChar ((Url.letter_head hu h).2 e he)
  obtain ⟨-, -, htail⟩ := run_unique (p := isUserChar ∘ look) heq hl hz (hnot hu.colon)
    (hnot hcolon)
  obtain ⟨rfl, -⟩ := List.cons.inj htail
  rw [hu.slash₁] at hd
  revert hd
  decide

theorem Url.not_in_password (hu : u.Ok look) {l z t : List α} (h : u.scheme = c :: l)
    (hz : ∀ e ∈ z, isPasswordChar (look e) = true) {sign : α} (hsign : look sign = '@') {v : List α}
    (heq : l ++ u.colon :: u.slash₁ :: v = z ++ sign :: t) : False := by
  have hl : ∀ e ∈ l ++ [u.colon], isPasswordChar (look e) = true := by
    rw [forall_mem_append, forall_mem_singleton, hu.colon]
    refine ⟨fun e he => ?_, by decide⟩
    exact isPasswordChar_of_isUserChar (isUserChar_of_isSchemeChar ((Url.letter_head hu h).2 e he))
  have hassoc : l ++ u.colon :: u.slash₁ :: v = (l ++ [u.colon]) ++ u.slash₁ :: v := by simp
  rw [hassoc] at heq
  obtain ⟨-, hc, -⟩ := run_unique (p := isPasswordChar ∘ look) heq hl hz
    (by rw [Function.comp_apply, hu.slash₁]; decide) (by rw [Function.comp_apply, hsign]; decide)
  have hlook := congrArg look hc
  rw [hsign, hu.slash₁] at hlook
  revert hlook
  decide

theorem url_nonempty : (url look).Nonempty := by
  intro h hm
  obtain ⟨u, hu, rfl⟩ := url_matches.mp hm
  simp [Url.hit, Hit.text]

variable (look) in
theorem url_induction {motive : List α → Prop} (nil : motive [])
    (skip : ∀ c cs, (url look).matchAt (c :: cs) = none → motive cs → motive (c :: cs))
    (hit : ∀ (u : Url α) (rest : List α), u.Ok look → motive rest → motive (u.hit.text ++ rest))
    (t : List α) : motive t := by
  induction t using scan_induction (P := url look) url_nonempty with
  | nil => exact nil
  | skip c cs hm ih => exact skip c cs hm ih
  | hit h rest hm ih =>
    obtain ⟨u, hu, rfl⟩ := url_matches.mp (matchAt_matches hm)
    exact hit u rest hu ih

theorem url_of_mem {t : List α} {h : Hit α} (hh : h ∈ (url look).findAll t) :
    ∃ u : Url α, u.Ok look ∧ h = u.hit ∧ ∃ a rest, t = a ++ (u.hit.text ++ rest) := by
  obtain ⟨a, rest, ht, hm⟩ := findAll_at url_nonempty hh
  obtain ⟨u, hu, rfl⟩ := url_matches.mp (matchAt_matches hm)
  grind

theorem Url.place (hu : u.Ok look) (hc : isSchemeChar (look c) = true) {y z : List α}
    (h : u.hit.text = y ++ c :: z) :
    (∃ z', u.scheme = y ++ c :: z' ∧ z = z' ++ u.colon :: u.slash₁ :: u.slash₂ ::
      (u.user ++ u.colon₂ :: (u.password ++ [u.sign]))) ∨
    (∃ y' z', u.user = y' ++ c :: z' ∧ z = z' ++ u.colon₂ :: (u.password ++ [u.sign])) ∨
    ∃ y' z', u.password = y' ++ c :: z' ∧ z = z' ++ [u.sign] := by
  have hother {d : α} {e : Char} (hd : look d = e) (he : isSchemeChar e = false) : c ≠ d := by
    rintro rfl
    rw [hd, he] at hc
    cases hc
  have htext := Url.text_append u []
  rw [append_nil, h] at htext
  rcases split_append htext with hscheme | ⟨y₁, -, hafter⟩
  · exact Or.inl hscheme
  have hthree : [u.colon, u.slash₁, u.slash₂] ++ (u.user ++ u.colon₂ :: (u.password ++ [u.sign])) =
      y₁ ++ c :: z := hafter
  rcases split_append hthree.symm with ⟨z', hmem, -⟩ | ⟨y₂, -, huser⟩
  · have hc' : c ∈ [u.colon, u.slash₁, u.slash₂] := by rw [hmem]; simp
    simp only [mem_cons, not_mem_nil, or_false] at hc'
    rcases hc' with heq | heq | heq
    · exact absurd heq (hother hu.colon (by decide))
    · exact absurd heq (hother hu.slash₁ (by decide))
    · exact absurd heq (hother hu.slash₂ (by decide))
  rcases split_append huser.symm with ⟨z', hname⟩ | ⟨y₃, -, hpass⟩
  · grind
  have hcolon : [u.colon₂] ++ (u.password ++ [u.sign]) = y₃ ++ c :: z := hpass
  rcases split_append hcolon.symm with ⟨z', hmem, -⟩ | ⟨y₄, -, hpw⟩
  · have hc' : c ∈ [u.colon₂] := by rw [hmem]; simp
    exact absurd (mem_singleton.mp hc') (hother hu.colon₂ (by decide))
  rcases split_append hpw.symm with ⟨z', hname⟩ | ⟨y₅, -, hlast⟩
  · grind
  · have hc' : c ∈ [u.sign] := by rw [hlast]; simp
    exact absurd (mem_singleton.mp hc') (hother hu.sign (by decide))

theorem Url.place_scheme {n : Url α} (hu : u.Ok look) (hn : n.Ok look) {l y z v : List α}
    (h : u.scheme = c :: l) (hin : n.hit.text = y ++ c :: z)
    (heq : l ++ u.colon :: u.slash₁ :: v = z ++ rest) :
    ∃ z', n.scheme = y ++ c :: z' ∧ z = z' ++ n.colon :: n.slash₁ :: n.slash₂ ::
      (n.user ++ n.colon₂ :: (n.password ++ [n.sign])) := by
  obtain ⟨hc, -⟩ := Url.letter_head hu h
  rcases Url.place hn hc hin with hscheme | ⟨y', z', hname, rfl⟩ | ⟨y', z', hname, rfl⟩
  · exact hscheme
  · obtain ⟨d, t, hdt⟩ := exists_cons_of_ne_nil hn.password_ne
    have hz' : ∀ e ∈ z', isUserChar (look e) = true := fun e he =>
      hn.user e (by grind)
    have hd : isPasswordChar (look d) = true :=
      hn.password d (by grind)
    rw [hdt, append_assoc] at heq
    exact (Url.not_in_user hu h hz' hn.colon₂ hd heq).elim
  · have hz' : ∀ e ∈ z', isPasswordChar (look e) = true := fun e he =>
      hn.password e (by grind)
    rw [append_assoc] at heq
    exact (Url.not_in_password hu h hz' hn.sign heq).elim

theorem url_covered (hu : u.Ok look) (a b : List α) :
    ∃ h ∈ (url look).findAll (a ++ (u.hit.text ++ b)), h.second = u.password := by
  obtain ⟨c, l, hcl, hletter⟩ := hu.letter
  have hmatch : (url look).matchAt (u.hit.text ++ b) = some (u.hit, b) := url_matchAt hu
  have htext := Url.text_append u b
  rw [hcl, cons_append] at htext
  rw [htext] at hmatch ⊢
  rcases locate url_nonempty a c _ with hnone | ⟨h, hh, x, y, z, rest, hin, -, hb, hat⟩
  · rw [hnone] at hmatch
    cases hmatch
  obtain ⟨n, hn, rfl⟩ := url_matches.mp (matchAt_matches hat)
  refine ⟨n.hit, hh, ?_⟩
  -- from the place in the scheme on the two matches are the same
  obtain ⟨z', hscheme, rfl⟩ := Url.place_scheme hu hn hcl hin hb
  have hn' : ({ n with scheme := c :: z' } : Url α).Ok look :=
    { hn with
      letter := ⟨c, z', rfl, hletter⟩
      scheme := fun d hd => hn.scheme d (by grind) }
  have heq : u.hit.text ++ b = ({ n with scheme := c :: z' } : Url α).hit.text ++ rest := by
    rw [htext, hb, Url.text_append]
    simp
  obtain ⟨rfl, -⟩ := Url.unique hu hn' heq
  rfl

end Urls

section Pairs

variable {look} {p : Pair α} {rest : List α}

theorem Pair.text_append (p : Pair α) (rest : List α) :
    p.hit.text ++ rest = p.key ++ (p.blank₁ ++ p.sign :: (p.blank₂ ++ (p.value ++ rest))) := by
  simp [hit, Hit.text]

theorem Pair.key_ne (hp : p.Ok look) : p.key ≠ [] := by
  obtain ⟨a, b, c, hkey, hb⟩ := hp.trigger
  obtain ⟨w, hw, hl⟩ := (anyTrigger_matches _).mp hb
  have hne : ∀ w ∈ triggers, w ≠ [] := by decide
  grind [append_eq_nil_iff, literal_matches, forall₂_nil_right_iff]

variable {h : Hit α}

theorem kv_matches : (kv look).Matches h ↔ ∃ p : Pair α, p.Ok look ∧ h = p.hit := by
  constructor
  · intro hm
    obtain ⟨first, second, third⟩ := h
    obtain ⟨a, _, rfl, ha, b, c, rfl, hb, hc⟩ := hm.first
    obtain ⟨blank₁, _, rfl, hblank₁, _, blank₂, rfl, ⟨sign, hsign, rfl⟩, hblank₂⟩ := hm.second
    have hvalue := matches_plus.mp hm.third
    rw [matches_comap] at hb
    refine ⟨⟨a ++ (b ++ c), blank₁, sign, blank₂, third⟩, ?_, rfl⟩
    have hbkey : ∀ d ∈ b, isKeyChar (look d) = true :=
      forall_mem_map.mp (isKeyChar_of_anyTrigger hb)
    exact {
      key := forall_mem_append.mpr ⟨ha, forall_mem_append.mpr ⟨hbkey, hc⟩⟩
      trigger := ⟨a, b, c, rfl, hb⟩
      blank₁ := hblank₁
      sign := by simpa using hsign
      blank₂ := hblank₂
      value_ne := hvalue.1
      value := hvalue.2 }
  · rintro ⟨p, hp, rfl⟩
    obtain ⟨a, b, c, hkey, hb⟩ := hp.trigger
    have hall := hp.key
    rw [hkey, forall_mem_append, forall_mem_append] at hall
    refine ⟨⟨a, b ++ c, hkey, hall.1, b, c, rfl, (matches_comap look _ _).mpr hb, hall.2.2⟩,
      ⟨p.blank₁, p.sign :: p.blank₂, rfl, hp.blank₁, [p.sign], p.blank₂, rfl,
        ⟨p.sign, ?_, rfl⟩, hp.blank₂⟩, matches_plus.mpr ⟨hp.value_ne, hp.value⟩⟩
    simp [hp.sign]

theorem Pair.after_key (hp : p.Ok look) (t : List α) :
    ∀ c ∈ (p.blank₁ ++ p.sign :: t).head?, isKeyChar (look c) = false := by
  have hall : (blanks ++ ['=']).all (fun d => !isKeyChar d) = true := by decide
  have hnot (d : Char) (hd : d ∈ blanks ++ ['=']) : isKeyChar d = false := by
    simpa using all_eq_true.mp hall d hd
  intro c hc
  cases hblank : p.blank₁ with
  | nil =>
    rw [hblank] at hc
    obtain rfl := Option.some.inj hc
    exact hnot _ (by rw [hp.sign]; decide)
  | cons d l =>
    rw [hblank] at hc
    obtain rfl := Option.some.inj hc
    have hd := hp.blank₁ d (by grind)
    exact hnot _ (mem_append_left _ (of_decide_eq_true hd))

theorem Pair.value_head (hp : p.Ok look) (t : List α) :
    ∀ c ∈ (p.value ++ t).head?, isBlank (look c) = false := by
  intro c hc
  obtain ⟨d, l, hvalue⟩ := exists_cons_of_ne_nil hp.value_ne
  rw [hvalue] at hc
  obtain rfl := Option.some.inj hc
  exact not_isBlank_of_isValueChar (hp.value d (by grind))

theorem Pair.unique {p p' : Pair α} (hp : p.Ok look) (hp' : p'.Ok look) {k k' rest rest' : List α}
    (hk : ∀ c ∈ k, isKeyChar (look c) = true) (hk' : ∀ c ∈ k', isKeyChar (look c) = true)
    (h : k ++ (p.blank₁ ++ p.sign :: (p.blank₂ ++ (p.value ++ rest))) =
      k' ++ (p'.blank₁ ++ p'.sign :: (p'.blank₂ ++ (p'.value ++ rest')))) :
    k = k' ∧ p.blank₁ = p'.blank₁ ∧ p.sign = p'.sign ∧ p.blank₂ = p'.blank₂ ∧
      p.value ++ rest = p'.value ++ rest' := by
  have hsign {c : α} (hc : look c = '=') : isBlank (look c) = false := by rw [hc]; decide
  obtain ⟨hkey, hafter⟩ := run_eq (p := isKeyChar ∘ look) h hk hk'
    (after_key hp _) (after_key hp' _)
  obtain ⟨hb₁, hs, htail⟩ := run_unique (p := isBlank ∘ look) hafter hp.blank₁ hp'.blank₁
    (hsign hp.sign) (hsign hp'.sign)
  obtain ⟨hb₂, hvalue⟩ := run_eq (p := isBlank ∘ look) htail hp.blank₂ hp'.blank₂
    (value_head hp _) (value_head hp' _)
  grind

theorem kv_matchAt_rest {t : List α} (hm : (kv look).matchAt t = some (h, rest)) :
    ∀ c ∈ rest.head?, isValueChar (look c) = false := by
  have hthird := matchAt_third hm
  have hrun : (h.third, rest) = _ := head_plus (p := isValueChar ∘ look) hthird
  grind [head_dropWhile]

theorem kv_matchAt (hp : p.Ok look) (hrest : ∀ c ∈ rest.head?, isValueChar (look c) = false) :
    (kv look).matchAt (p.hit.text ++ rest) = some (p.hit, rest) := by
  cases hm : (kv look).matchAt (p.hit.text ++ rest) with
  | none => exact absurd hm (matchAt_isSome rfl (kv_matches.mpr ⟨p, hp, rfl⟩))
  | some x =>
    obtain ⟨g, t⟩ := x
    obtain ⟨p', hp', rfl⟩ := kv_matches.mp (matchAt_matches hm)
    have heq := matchAt_eq hm
    have hrest' := kv_matchAt_rest hm
    rw [Pair.text_append, Pair.text_append] at heq
    obtain ⟨hkey, hb₁, hs, hb₂, hv⟩ := Pair.unique hp hp' hp.key hp'.key heq
    obtain ⟨hvalue, hr⟩ := run_eq (p := isValueChar ∘ look) hv hp.value hp'.value hrest hrest'
    obtain rfl : p = p' := Pair.ext hkey hb₁ hs hb₂ hvalue
    rw [hr]

theorem kv_nonempty : (kv look).Nonempty := by
  intro h hm
  obtain ⟨p, hp, rfl⟩ := kv_matches.mp hm
  simp [hit, Hit.text]

variable (look) in
theorem kv_induction {motive : List α → Prop} (nil : motive [])
    (skip : ∀ c cs, (kv look).matchAt (c :: cs) = none → motive cs → motive (c :: cs))
    (hit : ∀ (p : Pair α) (rest : List α), p.Ok look →
      (kv look).matchAt (p.hit.text ++ rest) = some (p.hit, rest) → motive rest →
        motive (p.hit.text ++ rest)) (t : List α) : motive t := by
  induction t using scan_induction (P := kv look) kv_nonempty with
  | nil => exact nil
  | skip c cs hm ih => exact skip c cs hm ih
  | hit h rest hm ih =>
    obtain ⟨p, hp, rfl⟩ := kv_matches.mp (matchAt_matches hm)
    exact hit p rest hp hm ih

theorem kv_of_mem {t : List α} (hh : h ∈ (kv look).findAll t) :
    ∃ p : Pair α, p.Ok look ∧ h = p.hit ∧ ∃ a rest, t = a ++ (p.hit.text ++ rest) ∧
      ∀ c ∈ rest.head?, isValueChar (look c) = false := by
  obtain ⟨a, rest, ht, hm⟩ := findAll_at kv_nonempty hh
  obtain ⟨p, hp, rfl⟩ := kv_matches.mp (matchAt_matches hm)
  exact ⟨p, hp, rfl, a, rest, ht, kv_matchAt_rest hm⟩

variable {c : α}

theorem Pair.place (hp : p.Ok look) (hc : isKeyChar (look c) = true) {y z : List α}
    (h : p.hit.text = y ++ c :: z) :
    (∃ z', p.key = y ++ c :: z' ∧
      z = z' ++ (p.blank₁ ++ p.sign :: (p.blank₂ ++ (p.value ++ [])))) ∨
    ∃ y', p.value = y' ++ c :: z := by
  have hother {d : α} (hd : look d ∈ blanks ++ ['=']) : c ≠ d := by
    rintro rfl
    exact notMem_of_class (by decide) hc hd
  have hblank {l : List α} (hl : ∀ d ∈ l, isBlank (look d) = true) : c ∉ l := by
    intro hmem
    exact hother (mem_append_left _ (of_decide_eq_true (hl c hmem))) rfl
  have htext := text_append p []
  rw [append_nil, h] at htext
  rcases split_append htext with hkey | ⟨y₁, -, hafter⟩
  · exact Or.inl hkey
  rcases split_append hafter.symm with ⟨z', hmem, -⟩ | ⟨y₂, -, hsign⟩
  · exact absurd (by rw [hmem]; simp) (hblank hp.blank₁)
  have hone : [p.sign] ++ (p.blank₂ ++ (p.value ++ [])) = y₂ ++ c :: z := hsign
  rcases split_append hone.symm with ⟨z', hmem, -⟩ | ⟨y₃, -, hblanks⟩
  · have hc' : c ∈ [p.sign] := by rw [hmem]; simp
    refine absurd (mem_singleton.mp hc') (hother ?_)
    rw [hp.sign]
    decide
  rcases split_append hblanks.symm with ⟨z', hmem, -⟩ | ⟨y₄, -, hvalue⟩
  · exact absurd (by rw [hmem]; simp) (hblank hp.blank₂)
  · grind

theorem subset_of_run {x y z t : List α} (h : x ++ y = z ++ t)
    (hz : ∀ c ∈ z, isValueChar (look c) = true) (hy : ∀ c ∈ y.head?, isValueChar (look c) = false) :
    z ⊆ x := by
  intro c hc
  rcases append_eq_append_iff.mp h with ⟨a, rfl, hya⟩ | ⟨a, rfl, -⟩
  · cases a with
    | nil => simpa using hc
    | cons d a => simp_all
  · grind

/-- Wherever a match stands, its value is taken by a match that is found; or its key is, and
there are blanks around its sign. -/
theorem kv_covered (hp : p.Ok look) (a b : List α)
    (hb : ∀ c ∈ b.head?, isValueChar (look c) = false) :
    ∃ h ∈ (kv look).findAll (a ++ (p.hit.text ++ b)),
      p.value ⊆ h.third ∨ (p.key ⊆ h.third ∧ (p.blank₁ ≠ [] ∨ p.blank₂ ≠ [])) := by
  obtain ⟨c, l, hcl⟩ := exists_cons_of_ne_nil (key_ne hp)
  have hkey := hp.key
  rw [hcl, forall_mem_cons] at hkey
  have hmatch := kv_matchAt hp hb
  have htext := text_append p b
  rw [hcl, cons_append] at htext
  rw [htext] at hmatch ⊢
  rcases locate kv_nonempty a c _ with hnone | ⟨h, hh, x, y, z, rest, hin, -, heq, hat⟩
  · rw [hnone] at hmatch
    cases hmatch
  obtain ⟨n, hn, rfl⟩ := kv_matches.mp (matchAt_matches hat)
  have hrest := kv_matchAt_rest hat
  refine ⟨n.hit, hh, ?_⟩
  rcases place hn hkey.1 hin with ⟨z', hname, rfl⟩ | ⟨y', hvalue⟩
  · -- the keys end at the same place
    left
    have hz' : ∀ d ∈ z', isKeyChar (look d) = true := fun d hd =>
      hn.key d (by grind)
    have hsame : l ++ (p.blank₁ ++ p.sign :: (p.blank₂ ++ (p.value ++ b))) =
        z' ++ (n.blank₁ ++ n.sign :: (n.blank₂ ++ (n.value ++ rest))) := by
      rw [heq]
      simp
    obtain ⟨-, -, -, -, hv⟩ := unique hp hn hkey.2 hz' hsame
    obtain ⟨hvalue, -⟩ := run_eq (p := isValueChar ∘ look) hv hp.value hn.value hb hrest
    rw [hvalue]
    exact List.Subset.refl _
  · have hz : ∀ d ∈ z, isValueChar (look d) = true := fun d hd =>
      hn.value d (by grind)
    have hin_value : c :: z ⊆ n.value := by
      rw [hvalue]
      exact subset_append_right _ _
    have hl : ∀ d ∈ l, isValueChar (look d) = true := fun d hd =>
      isValueChar_of_isKeyChar (hkey.2 d hd)
    by_cases hblank : p.blank₁ = [] ∧ p.blank₂ = []
    · -- without blanks the run goes on through the value
      left
      have hrun : ∀ d ∈ l ++ p.sign :: p.value, isValueChar (look d) = true := by
        rw [forall_mem_append, forall_mem_cons, hp.sign]
        exact ⟨hl, by decide, hp.value⟩
      have hsame : z ++ rest = (l ++ p.sign :: p.value) ++ b := by
        rw [← heq, hblank.1, hblank.2]
        simp
      intro d hd
      apply hin_value
      exact mem_cons_of_mem _ (subset_of_run hsame hrun hrest (by simp [hd]))
    · right
      refine ⟨?_, by rwa [← not_and_or]⟩
      intro d hd
      apply hin_value
      rw [hcl] at hd
      rcases mem_cons.mp hd with rfl | hd
      · exact mem_cons_self
      · exact mem_cons_of_mem _ (subset_of_run heq.symm hl hrest hd)

theorem kv_covered_run (hp : p.Ok look) {t a s : List α}
    (ht : t = a ++ (p.key ++ (p.blank₁ ++ p.sign :: (p.blank₂ ++ c :: s))))
    (hc : isValueChar (look c) = true) :
    ∃ h ∈ (kv look).findAll t, (c :: s).takeWhile (isValueChar ∘ look) ⊆ h.third ∨
      (p.key ⊆ h.third ∧ (p.blank₁ ≠ [] ∨ p.blank₂ ≠ [])) := by
  let run := (c :: s).takeWhile (isValueChar ∘ look)
  let rest := (c :: s).dropWhile (isValueChar ∘ look)
  have hrun : run ++ rest = c :: s := takeWhile_append_dropWhile
  have hp' : ({ p with value := run } : Pair α).Ok look :=
    { hp with
      value_ne := by
        simp only [run]
        simp_all
      value := fun d hd => mem_takeWhile_imp (p := isValueChar ∘ look) hd }
  have hrest : ∀ d ∈ rest.head?, isValueChar (look d) = false :=
    head_dropWhile (isValueChar ∘ look) (c :: s)
  have ht' : t = a ++ (({ p with value := run } : Pair α).hit.text ++ rest) := by
    rw [ht, text_append, hrun]
  obtain ⟨h, hh, hcover⟩ := kv_covered hp' a rest hrest
  grind

def Pair.lead (p : Pair α) : List α := p.key ++ (p.blank₁ ++ p.sign :: p.blank₂)

theorem Pair.text_lead (p : Pair α) (rest : List α) :
    p.hit.text ++ rest = p.lead ++ (p.value ++ rest) := by
  simp [text_append, lead]

theorem Pair.mem_lead (hp : p.Ok look) (hc : c ∈ p.lead) :
    isKeyChar (look c) = true ∨ isBlank (look c) = true ∨ look c = '=' := by
  rw [lead, mem_append, mem_append, mem_cons] at hc
  rcases hc with hc | hc | rfl | hc
  · exact Or.inl (hp.key c hc)
  · exact Or.inr (Or.inl (hp.blank₁ c hc))
  · exact Or.inr (Or.inr hp.sign)
  · exact Or.inr (Or.inl (hp.blank₂ c hc))

theorem Pair.notMem_lead (hp : p.Ok look) {d : Char} (hc : look c = d)
    (hd : (isKeyChar d || isBlank d || d == '=') = false) : c ∉ p.lead := by
  intro hmem
  rw [Bool.or_eq_false_iff, Bool.or_eq_false_iff, beq_eq_false_iff_ne] at hd
  rcases mem_lead hp hmem with h | h | h
  · grind
  · grind
  · grind

theorem kv_matchAt_lead (hp : p.Ok look) (hc : isValueChar (look c) = true) (s : List α) :
    (kv look).matchAt (p.lead ++ c :: s) ≠ none := by
  have hp' : ({ p with value := [c] } : Pair α).Ok look :=
    { hp with
      value_ne := cons_ne_nil _ _
      value := forall_mem_singleton.mpr hc }
  have htext : p.lead ++ c :: s = ({ p with value := [c] } : Pair α).hit.text ++ s :=
    (text_lead { p with value := [c] } s).symm
  exact matchAt_isSome htext (kv_matches.mpr ⟨_, hp', rfl⟩)

theorem Pair.lead_le_of_notMem {x s v : List α} {d : α} (h : x ++ d :: s = p.lead ++ v)
    (hd : d ∉ p.lead) : p.lead.length ≤ x.length := by
  by_contra hlong
  rw [not_le] at hlong
  apply hd
  have hget : (x ++ d :: s)[x.length]? = some d := by simp
  grind

theorem Pair.lead_le_of_sign (hp : p.Ok look) {x s v : List α} {d e : α}
    (h : x ++ d :: s = p.lead ++ v) (hd : isValueChar (look d) = true) (he : e ∈ x)
    (hsign : look e = '=') : p.lead.length ≤ x.length := by
  rcases append_eq_append_iff.mp h with ⟨y, hy, htail⟩ | ⟨y, hy, -⟩
  · cases y with
    | nil => rw [hy, append_nil]
    | cons d' y =>
      obtain ⟨rfl, -⟩ := List.cons.inj htail
      obtain ⟨x₁, x₂, rfl⟩ := append_of_mem he
      have hlead : x₁ ++ e :: (x₂ ++ d :: y) = (p.key ++ p.blank₁) ++ p.sign :: p.blank₂ := by
        rw [lead] at hy
        simpa using hy.symm
      -- the sign is the only one in a lead, and blanks follow it
      exfalso
      rcases split_append hlead with ⟨z, hin, -⟩ | ⟨z, -, hin⟩
      · have hmem : e ∈ p.key ++ p.blank₁ := by rw [hin]; simp
        rcases mem_append.mp hmem with hk | hb
        · exact not_class (hp.key e hk) hsign (by decide)
        · exact not_class (hp.blank₁ e hb) hsign (by decide)
      · cases z with
        | nil =>
          have hblank := hp.blank₂ d (by grind)
          rw [not_isBlank_of_isValueChar hd] at hblank
          cases hblank
        | cons f z =>
          have hb : e ∈ p.blank₂ := by rw [(List.cons.inj hin).2]; simp
          exact not_class (hp.blank₂ e hb) hsign (by decide)
  · grind

/-- Whether something is found at the beginning of a text does not depend on what stands behind
the symbol with which a value begins. -/
theorem kv_matchAt_shared (hp : p.Ok look) {x s y : List α}
    (h : x ++ s = p.lead ++ (p.value ++ rest)) (hlead : p.lead.length ≤ x.length)
    (hc : isValueChar (look c) = true) : (kv look).matchAt (x ++ c :: y) ≠ none := by
  obtain ⟨v, rfl⟩ : p.lead <+: x :=
    prefix_of_prefix_length_le (h ▸ prefix_append _ _) (prefix_append x s) hlead
  cases v with
  | nil =>
    rw [append_nil]
    exact kv_matchAt_lead hp hc y
  | cons e v =>
    obtain ⟨f, l, hvalue⟩ := exists_cons_of_ne_nil hp.value_ne
    rw [append_assoc, append_right_inj, hvalue] at h
    obtain ⟨rfl, -⟩ := List.cons.inj h
    rw [append_assoc, cons_append]
    exact kv_matchAt_lead hp (hp.value e (by grind)) _

/-- What is taken for a value is so whatever follows: the run of value characters from there on
is taken. -/
theorem kv_taken {x s : List α} (h : (kv look).Taken x s) :
    (∃ c s', s = c :: s' ∧ isValueChar (look c) = true) ∧ ∃ e ∈ x, look e = '=' := by
  induction h with
  | here g a b c rest hm hthird =>
    obtain ⟨p, hp, rfl⟩ := kv_matches.mp (matchAt_matches hm)
    have hvalue : p.value = a ++ c :: b := hthird
    refine ⟨⟨c, _, rfl, hp.value c (by rw [hvalue]; simp)⟩, p.sign, ?_, hp.sign⟩
    simp [hit]
  | skip c x s _ _ ih => grind
  | hit g x s _ _ ih => grind

theorem kv_taken_run {x s : List α} (h : (kv look).Taken x s) {y : List α}
    (hc : isValueChar (look c) = true) : ∃ g ∈ (kv look).findAll (x ++ c :: y),
      (c :: y).takeWhile (isValueChar ∘ look) ⊆ g.third := by
  induction h with
  | here g a b d rest hm hthird =>
    obtain ⟨p, hp, rfl⟩ := kv_matches.mp (matchAt_matches hm)
    have hvalue : p.value = a ++ d :: b := hthird
    let run := (c :: y).takeWhile (isValueChar ∘ look)
    have ha : ∀ e ∈ a, isValueChar (look e) = true := fun e he =>
      hp.value e (by grind)
    have hrun : ∀ e ∈ run, isValueChar (look e) = true := fun e he =>
      mem_takeWhile_imp (p := isValueChar ∘ look) he
    have hne : a ++ run ≠ [] := by
      simp only [run]
      rw [takeWhile_cons_of_pos (by simpa using hc)]
      simp
    let q : Pair α := { p with value := a ++ run }
    have hq : q.Ok look :=
      { hp with
        value_ne := hne
        value := forall_mem_append.mpr ⟨ha, hrun⟩ }
    have htext : p.hit.first ++ (p.hit.second ++ a) ++ c :: y =
        q.hit.text ++ (c :: y).dropWhile (isValueChar ∘ look) := by
      have hsplit := takeWhile_append_dropWhile (p := isValueChar ∘ look) (l := c :: y)
      rw [text_lead]
      change _ = p.lead ++ (a ++ run ++ _)
      rw [append_assoc a, hsplit]
      simp [lead, hit]
    have hfound := kv_matchAt hq (head_dropWhile (isValueChar ∘ look) (c :: y))
    rw [htext, findAll_hit kv_nonempty hfound]
    exact ⟨q.hit, mem_cons_self, subset_append_right _ _⟩
  | skip d x s hm hx ih =>
    obtain ⟨⟨e, s', rfl, he⟩, f, hf, hsign⟩ := kv_taken hx
    obtain ⟨g, hg, hsub⟩ := ih
    have hnone : (kv look).matchAt (d :: (x ++ c :: y)) = none := by
      cases hfound : (kv look).matchAt (d :: (x ++ c :: y)) with
      | none => rfl
      | some m =>
        obtain ⟨m, rest⟩ := m
        obtain ⟨p, hp, rfl⟩ := kv_matches.mp (matchAt_matches hfound)
        have htext : (d :: x) ++ c :: y = p.lead ++ (p.value ++ rest) := by
          rw [← text_lead]
          exact matchAt_eq hfound
        grind [lead_le_of_sign, kv_matchAt_shared]
    rw [cons_append, findAll_skip hnone]
    exact ⟨g, hg, hsub⟩
  | hit m x s hm hx ih =>
    obtain ⟨-, f, hf, -⟩ := kv_taken hx
    obtain ⟨g, hg, hsub⟩ := ih
    obtain ⟨p, hp, rfl⟩ := kv_matches.mp (matchAt_matches hm)
    have hrest : ∀ e ∈ (x ++ c :: y).head?, isValueChar (look e) = false := by
      intro e he
      apply kv_matchAt_rest hm
      rw [List.head?_append_of_ne_nil x (ne_nil_of_mem hf)] at he ⊢
      exact he
    rw [append_assoc, findAll_hit kv_nonempty (kv_matchAt hp hrest)]
    grind

end Pairs

end DbAgent.Redact
