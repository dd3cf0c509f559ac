import Mathlib.Data.List.Count
import DbAgent.Trimming

/-! Splitting a text into words: at the symbols of a class, or as a shell does it, with
quotes and escapes. Over arbitrary symbols. -/
namespace DbAgent.Shell

open List Trimming

variable {α : Type}

section Words

def flush (token : List α) : List (List α) := if token.isEmpty then [] else [token]

/-- The words of a text whose first one has begun with `token`. -/
def wordsFrom (p : α → Bool) : List α → List α → List (List α)
  | token, [] => flush token
  | token, c :: cs =>
    if p c then flush token ++ wordsFrom p [] cs else wordsFrom p (token ++ [c]) cs

def words (p : α → Bool) (t : List α) : List (List α) := wordsFrom p [] t

theorem flatten_flush (token : List α) : (flush token).flatten = token := by
  cases token with
  | nil => rfl
  | cons c token => simp [flush]

theorem flatten_wordsFrom (p : α → Bool) (token t : List α) :
    (wordsFrom p token t).flatten = token ++ t.filter fun c => !p c := by
  induction t generalizing token with
  | nil => simp [wordsFrom, flatten_flush]
  | cons c t ih =>
    rw [wordsFrom]
    by_cases hc : p c = true
    · rw [if_pos hc, flatten_append, flatten_flush, ih, filter_cons_of_neg (by simp [hc])]
      rfl
    · grind

theorem flatten_words (p : α → Bool) (t : List α) :
    (words p t).flatten = t.filter fun c => !p c :=
  flatten_wordsFrom p [] t

theorem wordsFrom_congr {p q : α → Bool} {t : List α} (h : ∀ c ∈ t, p c = q c) (token : List α) :
    wordsFrom p token t = wordsFrom q token t := by
  induction t generalizing token with
  | nil => rfl
  | cons c t ih =>
    obtain ⟨hc, ht⟩ := forall_mem_cons.mp h
    rw [wordsFrom, wordsFrom, hc, ih ht, ih ht]

theorem words_append_left {p : α → Bool} {l : List α} (hl : ∀ c ∈ l, p c = true) (t : List α) :
    words p (l ++ t) = words p t := by
  induction l with
  | nil => rfl
  | cons c l ih =>
    obtain ⟨hc, hl⟩ := forall_mem_cons.mp hl
    rw [words, cons_append, wordsFrom, if_pos hc]
    exact ih hl

theorem wordsFrom_append_right {p : α → Bool} {r : List α} (hr : ∀ c ∈ r, p c = true)
    (token t : List α) : wordsFrom p token (t ++ r) = wordsFrom p token t := by
  induction t generalizing token with
  | nil =>
    have hblank : wordsFrom p [] r = [] := by
      have hnone := words_append_left hr []
      rwa [append_nil] at hnone
    rw [nil_append]
    cases r with
    | nil => rfl
    | cons c r =>
      obtain ⟨hc, hr'⟩ := forall_mem_cons.mp hr
      rw [wordsFrom, if_pos hc] at hblank
      rw [wordsFrom, wordsFrom, if_pos hc, (append_eq_nil_iff.mp hblank).2, append_nil]
  | cons c t ih =>
    rw [cons_append, wordsFrom, wordsFrom, ih, ih]

theorem words_trim (p : α → Bool) (t : List α) : words p (trim p t) = words p t := by
  obtain ⟨x, y, ht, hx, hy⟩ := exists_around p t
  calc words p (trim p t) = words p (trim p t ++ y) := (wordsFrom_append_right hy [] _).symm
    _ = words p (x ++ (trim p t ++ y)) := (words_append_left hx _).symm
    _ = words p t := by rw [← append_assoc, ← ht]

end Words

/-- The roles of the symbols: separators, quotes, escapes, and the quotes in which an escape
still is one. -/
structure Lexicon (α : Type) where
  space : α → Bool
  quote : α → Bool
  escape : α → Bool
  escaping : α → Bool

inductive LexError where
  | noClosingQuotation
  | noEscapedCharacter

/-- Where the lexer is. After an escape it goes back to the quotes or to the word. -/
inductive LexState (α : Type) where
  | blank
  | word
  | quoted (q : α)
  | escaped (e : α) (back : Option α)

structure Lexer (α : Type) where
  state : LexState α
  token : List α
  quoted : Bool
  out : List (List α)

open Lexer

variable (L : Lexicon α)

section Lexing

def Lexer.emit (s : Lexer α) : Lexer α :=
  if !s.token.isEmpty || s.quoted then ⟨s.state, [], false, s.out ++ [s.token]⟩ else s

variable [DecidableEq α]

def lexStep (s : Lexer α) (c : α) : Lexer α :=
  match s.state with
  | .blank =>
    if L.space c then s.emit
    else if L.escape c then { s with state := .escaped c none }
    else if L.quote c then { s with state := .quoted c }
    else { s with token := [c], state := .word }
  | .quoted q =>
    if c = q then { s with quoted := true, state := .word }
    else if L.escape c && L.escaping q then { s with quoted := true, state := .escaped c (some q) }
    else { s with quoted := true, token := s.token ++ [c] }
  | .escaped _ none => { s with token := s.token ++ [c], state := .word }
  | .escaped e (some q) =>
    { s with token := if c ≠ e ∧ c ≠ q then s.token ++ [e, c] else s.token ++ [c]
             state := .quoted q }
  | .word =>
    if L.space c then { s.emit with state := .blank }
    else if L.quote c then { s with state := .quoted c }
    else if L.escape c then { s with state := .escaped c none }
    else { s with token := s.token ++ [c] }

def Lexer.finish (s : Lexer α) : Except LexError (List (List α)) :=
  match s.state with
  | .quoted _ => .error .noClosingQuotation
  | .escaped _ _ => .error .noEscapedCharacter
  | .blank => .ok s.emit.out
  | .word => .ok s.emit.out

def lexFrom (s : Lexer α) (t : List α) : Except LexError (List (List α)) :=
  (t.foldl (lexStep L) s).finish

def split (t : List α) : Except LexError (List (List α)) := lexFrom L ⟨.blank, [], false, []⟩ t

end Lexing

variable {ws : List (List α)}

section Facts

variable {L}

theorem Lexer.emit_kept (s : Lexer α) :
    s.emit.out.flatten ++ s.emit.token = s.out.flatten ++ s.token := by
  rw [emit]
  split
  · simp
  · rfl

theorem Lexer.emit_state (s : Lexer α) : s.emit.state = s.state := by
  rw [emit]
  split
  · rfl
  · rfl

theorem emit_out (s : Lexer α) (hq : s.quoted = false) :
    s.emit.out = s.out ++ flush s.token ∧ s.emit.token = [] ∧ s.emit.quoted = false := by
  rw [emit, flush, hq, Bool.or_false]
  grind

variable [DecidableEq α]

variable {t : List α}

theorem lexFrom_plain (h : ∀ c ∈ t, L.quote c = false ∧ L.escape c = false) (s : Lexer α)
    (hq : s.quoted = false) (hs : (s.state = .blank ∧ s.token = []) ∨ s.state = .word) :
    lexFrom L s t = .ok (s.out ++ wordsFrom L.space s.token t) := by
  induction t generalizing s with
  | nil =>
    have hout := (emit_out s hq).1
    rcases hs with ⟨hs, -⟩ | hs
    · simp [lexFrom, finish, hs, hout, wordsFrom]
    · simp [lexFrom, finish, hs, hout, wordsFrom]
  | cons c t ih =>
    obtain ⟨⟨hquote, hescape⟩, ht⟩ := forall_mem_cons.mp h
    obtain ⟨hout, htoken, hquoted⟩ := emit_out s hq
    rw [lexFrom, foldl_cons]
    change lexFrom L (lexStep L s c) t = _
    rw [wordsFrom]
    by_cases hc : L.space c = true
    · have hstep : (lexStep L s c).out = s.out ++ flush s.token ∧ (lexStep L s c).token = [] ∧
          (lexStep L s c).quoted = false ∧ (lexStep L s c).state = .blank := by
        rcases hs with ⟨hs, -⟩ | hs
        · simp only [lexStep, hs, hc, if_true]
          exact ⟨hout, htoken, hquoted, (emit_state s).trans hs⟩
        · simp only [lexStep, hs, hc, if_true]
          exact ⟨hout, htoken, hquoted, trivial⟩
      obtain ⟨h1, h2, h3, h4⟩ := hstep
      rw [ih ht _ h3 (Or.inl ⟨h4, h2⟩), h1, h2, if_pos hc, append_assoc]
    · have hstep : (lexStep L s c).out = s.out ∧ (lexStep L s c).token = s.token ++ [c] ∧
          (lexStep L s c).quoted = false ∧ (lexStep L s c).state = .word := by
        rcases hs with ⟨hs, htok⟩ | hs
        · simp [lexStep, hs, hc, hquote, hescape, htok, hq]
        · simp [lexStep, hs, hc, hquote, hescape, hq]
      obtain ⟨h1, h2, h3, h4⟩ := hstep
      rw [ih ht _ h3 (Or.inr h4), h1, h2, if_neg hc]

theorem split_plain (h : ∀ c ∈ t, L.quote c = false ∧ L.escape c = false) :
    split L t = .ok (words L.space t) :=
  lexFrom_plain h _ rfl (Or.inl ⟨rfl, rfl⟩)

/-- The symbols of a class that a lexer has kept, with the escape that it may still keep. -/
def Lexer.kept (g : α → Bool) (s : Lexer α) : ℕ :=
  (s.out.flatten ++ s.token).countP g +
    match s.state with
    | .escaped e _ => if g e then 1 else 0
    | _ => 0

omit [DecidableEq α] in
theorem finish_kept {g : α → Bool} {s : Lexer α} (h : s.finish = .ok ws) :
    ws.flatten.countP g ≤ s.kept g := by
  have hemit : s.emit.out.flatten.countP g ≤ (s.out.flatten ++ s.token).countP g := by
    rw [← emit_kept, countP_append]
    exact Nat.le_add_right _ _
  obtain ⟨state, token, quoted, out⟩ := s
  cases state with
  | quoted q => cases h
  | escaped e back => cases h
  | blank =>
    rw [← Except.ok.inj h]
    exact hemit
  | word =>
    rw [← Except.ok.inj h]
    exact hemit

theorem lexStep_kept (g : α → Bool) (s : Lexer α) (c : α) :
    (lexStep L s c).kept g ≤ s.kept g + [c].countP g := by
  have hemit := congrArg (List.countP g) (emit_kept s)
  have hone : [c].countP g = if g c then 1 else 0 := by simp
  obtain ⟨state, token, quoted, out⟩ := s
  cases state with
  | blank => grind [lexStep, kept, emit_state]
  | quoted q => grind [lexStep, kept]
  | escaped e back =>
    cases back with
    | none =>
      simp only [lexStep, kept, countP_append]
      omega
    | some q =>
      simp only [lexStep, kept]
      grind
  | word =>
    simp only [lexStep]
    split
    · simp only [kept, hemit]
      omega
    · split
      · simp only [kept]
        omega
      · split
        · simp only [kept, hone]
          omega
        · simp only [kept, countP_append]
          omega

theorem lexFrom_kept {g : α → Bool} {s : Lexer α} (h : lexFrom L s t = .ok ws) :
    ws.flatten.countP g ≤ s.kept g + t.countP g := by
  induction t generalizing s with
  | nil => exact finish_kept h
  | cons c t ih =>
    have hrest := ih h
    grind [lexStep_kept]

theorem lexFrom_special {g : α → Bool} (hg : ∀ c, (L.quote c || L.escape c) = true → g c = true)
    {s : Lexer α} (hs : s.state = .blank ∨ s.state = .word)
    (hspecial : ∃ c ∈ t, (L.quote c || L.escape c) = true ∧ L.space c = false)
    (h : lexFrom L s t = .ok ws) : ws.flatten.countP g < s.kept g + t.countP g := by
  induction t generalizing s with
  | nil =>
    obtain ⟨c, hc, -⟩ := hspecial
    cases hc
  | cons c t ih =>
    have hrun : lexFrom L (lexStep L s c) t = .ok ws := h
    have hcons : (c :: t).countP g = [c].countP g + t.countP g := by
      rw [← countP_append]
      rfl
    by_cases hc : (L.quote c || L.escape c) = true ∧ L.space c = false
    · have hgc : [c].countP g = 1 := by
        rw [countP_cons, countP_nil, hg c hc.1]
        rfl
      have hkept : (lexStep L s c).kept g ≤ s.kept g ∨
          ∃ e, lexStep L s c = { s with state := .escaped e none } ∧ g e = true := by
        rcases hs with hs | hs
        · grind [lexStep, kept]
        · grind [lexStep, kept]
      rcases hkept with hless | ⟨e, hstep, hge⟩
      · have hrest := lexFrom_kept (g := g) hrun
        omega
      · -- the escape itself goes when the next symbol comes
        rw [hstep] at hrun
        cases t with
        | nil => cases hrun
        | cons d t =>
          have hrun' : lexFrom L { s with token := s.token ++ [d], state := .word } t = .ok ws :=
            hrun
          have hrest := lexFrom_kept (g := g) hrun'
          grind [kept]
    · have hstate : (lexStep L s c).state = .blank ∨ (lexStep L s c).state = .word := by
        have hplain (hspace : L.space c = false) : L.quote c = false ∧ L.escape c = false := by
          simpa [hspace] using hc
        by_cases hspace : L.space c = true
        · rcases hs with hs | hs
          · left
            simp only [lexStep, hs, hspace, if_true]
            exact (emit_state s).trans hs
          · left
            simp only [lexStep, hs, hspace, if_true]
        · obtain ⟨hquote, hescape⟩ := hplain (Bool.eq_false_iff.mpr hspace)
          grind [lexStep]
      have hlater : ∃ d ∈ t, (L.quote d || L.escape d) = true ∧ L.space d = false := by
        obtain ⟨d, hd, hspec⟩ := hspecial
        rcases mem_cons.mp hd with rfl | hd
        · exact absurd hspec hc
        · exact ⟨d, hd, hspec⟩
      grind [lexStep_kept]

theorem plain_of_kept {g : α → Bool}
    (hg : ∀ c, (L.quote c || L.escape c) = true → g c = true ∧ L.space c = false)
    (h : split L t = .ok ws) (hkept : t.countP g ≤ ws.flatten.countP g) :
    ∀ c ∈ t, L.quote c = false ∧ L.escape c = false := by
  intro c hc
  by_contra hspec
  have hspecial : (L.quote c || L.escape c) = true := by
    simp only [not_and_or, Bool.not_eq_false] at hspec
    rcases hspec with hq | he
    · rw [hq]
      rfl
    · rw [he, Bool.or_true]
  have hless := lexFrom_special (fun d hd => (hg d hd).1) (Or.inl rfl)
    ⟨c, hc, hspecial, (hg c hspecial).2⟩ h
  have hzero : kept g (⟨.blank, [], false, []⟩ : Lexer α) = 0 := rfl
  omega

end Facts

end DbAgent.Shell
