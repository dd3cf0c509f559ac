import DbAgent.PropertiesFile
import DbAgent.SecretPatterns

/-! `String`, `redactLine` and `Text` of the redaction filter, over any kind of symbols that
the regexp engine sees as characters: the bytes and characters of a Go string, or those with
the place where they stand. -/
namespace DbAgent.Redact

open Scan List Pattern

def Placeholder : List Char := "***REDACTED***".toList

structure Alphabet (α : Type) where
  look : α → Char
  mark : List α
  mark_look : mark.map look = Placeholder

/-- `unicode.ToLower`, as far as it is known here: the long s has no other lower case. -/
structure Unicode where
  lower : Char → Char
  lower_ascii : ∀ c, c.toNat < 128 → lower c = c.toLower
  lower_kelvin : lower '\u212a' = 'k'
  lower_longS : lower 'ſ' = 'ſ'

def sampleUnicode : Unicode where
  lower c := if c = '\u212a' then 'k' else c.toLower
  lower_ascii c hc := by
    rw [if_neg]
    rintro rfl
    revert hc
    decide
  lower_kelvin := by decide
  lower_longS := by decide

section Program

variable (U : Unicode) {α : Type} (A : Alphabet α)

def toLower (t : List α) : List Char := t.map fun c => U.lower (A.look c)

/-- The test for one of `keyPatternTriggers`. -/
def hasTrigger (t : List α) : Bool := triggers.any fun w => Config.containsText (toLower U A t) w

def hasURL (t : List α) : Bool := Config.containsText (toLower U A t) "://".toList

def keyMatchesPattern (key : List α) : Bool :=
  hasTrigger U A key && KeyPattern.isMatch (key.map A.look)

/-- The replacement by `urlUserinfoPattern`. -/
def redactURLs (t : List α) : List α := (url A.look).blot A.mark t

/-- The replacement by `embeddedKVPattern`. -/
def redactPairs (t : List α) : List α :=
  (kv A.look).replaceAll (fun h => h.first ++ (h.second ++ A.mark)) t

variable [DecidableEq α]

def string (t : List α) : List α × Bool :=
  if !hasURL U A t && !hasTrigger U A t then (t, false)
  else
    let out := if hasURL U A t then redactURLs A t else t
    let out := if hasTrigger U A t then redactPairs A out else out
    (out, out ≠ t)

def isSep (c : Char) : Bool := c ∈ ['=', ':']

/-- The line up to its first `=` or `:`, that separator and the rest. -/
def splitLine (line : List α) : Option (List α × α × List α) :=
  match line.dropWhile fun c => !isSep (A.look c) with
  | [] => none
  | sep :: value => some (line.takeWhile fun c => !isSep (A.look c), sep, value)

def trimSpace (t : List α) : List α := Trimming.trim (fun c => Config.isSpace (A.look c)) t

def redactLine (line : List α) : List α × Bool :=
  match splitLine A line with
  | none => string U A line
  | some (key, sep, value) =>
    if keyMatchesPattern U A (trimSpace A key) then (key ++ sep :: A.mark, true)
    else if (string U A value).2 then (key ++ sep :: (string U A value).1, true)
    else (line, false)

end Program

section Lines

variable {U : Unicode} {α : Type} {A : Alphabet α}

theorem mark_class {p : Char → Bool} (hp : Placeholder.all p = true) :
    ∀ c ∈ A.mark, p (A.look c) = true := by
  intro c hc
  apply all_eq_true.mp hp
  rw [← A.mark_look]
  exact mem_map_of_mem hc

theorem containsText_append (a b sub : List Char) :
    Config.containsText (a ++ (sub ++ b)) sub = true := by
  rw [Config.containsText, any_eq_true]
  refine ⟨sub ++ b, (mem_tails _ _).mpr (suffix_append a _), ?_⟩
  simp

variable {t : List α}

theorem hasURL_of_hit {h : Hit α} (hh : h ∈ (url A.look).findAll t) :
    hasURL U A t = true := by
  obtain ⟨u, hu, -, a, rest, rfl⟩ := url_of_mem hh
  have hlower (c : α) (d : Char) (hd : d.toNat < 128) (hc : A.look c = d) :
      U.lower (A.look c) = d.toLower := by rw [hc, U.lower_ascii d hd]
  rw [hasURL, Url.text_append]
  have hmap : toLower U A (a ++ (u.scheme ++ u.colon :: u.slash₁ :: u.slash₂ ::
      (u.user ++ u.colon₂ :: (u.password ++ u.sign :: rest)))) =
      toLower U A (a ++ u.scheme) ++ ("://".toList ++
        toLower U A (u.user ++ u.colon₂ :: (u.password ++ u.sign :: rest))) := by
    simp [toLower, hlower _ _ (by decide) hu.colon, hlower _ _ (by decide) hu.slash₁,
      hlower _ _ (by decide) hu.slash₂]
  rw [hmap]
  exact containsText_append _ _ _

variable {line key value : List α}

theorem splitLine_some {sep : α} :
    splitLine A line = some (key, sep, value) ↔ line = key ++ sep :: value ∧
      (∀ c ∈ key, isSep (A.look c) = false) ∧ isSep (A.look sep) = true := by
  rw [splitLine]
  have htake := takeWhile_append_dropWhile (p := fun c => !isSep (A.look c)) (l := line)
  constructor
  · intro h
    cases hdrop : line.dropWhile fun c => !isSep (A.look c) with
    | nil =>
      rw [hdrop] at h
      cases h
    | cons d rest =>
      rw [hdrop] at h htake
      obtain ⟨rfl, heq⟩ := Prod.mk.inj (Option.some.inj h)
      obtain ⟨rfl, rfl⟩ := Prod.mk.inj heq
      refine ⟨htake.symm, ?_, ?_⟩
      · intro c hc
        simpa using mem_takeWhile_imp hc
      · have hhead := Regex.head_dropWhile (fun c => !isSep (A.look c)) line d
        grind
  · simp_all

theorem splitLine_none {line : List α} :
    splitLine A line = none ↔ ∀ c ∈ line, isSep (A.look c) = false := by
  grind [splitLine, dropWhile_eq_nil_iff]

theorem findAll_url_append {a t : List α} (h : (url A.look).findAll (a ++ t) = []) :
    (url A.look).findAll t = [] := by
  apply eq_nil_iff_forall_not_mem.mpr
  intro g hg
  obtain ⟨u, hu, -, b, rest, rfl⟩ := url_of_mem hg
  obtain ⟨g', hg', -⟩ := url_covered hu (a ++ b) rest
  rw [append_assoc, h] at hg'
  cases hg'

theorem findAll_kv_append {a t : List α} (h : (kv A.look).findAll (a ++ t) = []) :
    (kv A.look).findAll t = [] := by
  apply eq_nil_iff_forall_not_mem.mpr
  intro g hg
  obtain ⟨p, hp, -, b, rest, rfl, hrest⟩ := kv_of_mem hg
  obtain ⟨g', hg', -⟩ := kv_covered hp (a ++ b) rest hrest
  rw [append_assoc, h] at hg'
  cases hg'

variable {c : α}

theorem redactURLs_skip {cs : List α} (hm : (url A.look).matchAt (c :: cs) = none) :
    redactURLs A (c :: cs) = c :: redactURLs A cs :=
  replaceAll_skip _ hm

theorem redactURLs_hit {u : Url α} (hu : u.Ok A.look) (rest : List α) :
    redactURLs A (u.hit.text ++ rest) =
      u.hit.first ++ (A.mark ++ u.sign :: redactURLs A rest) := by
  rw [redactURLs, blot, replaceAll_hit url_nonempty _ (url_matchAt hu),
    append_assoc, append_assoc]
  rfl

theorem redactPairs_skip {cs : List α} (hm : (kv A.look).matchAt (c :: cs) = none) :
    redactPairs A (c :: cs) = c :: redactPairs A cs :=
  replaceAll_skip _ hm

theorem redactPairs_hit {p : Pair α} {rest : List α}
    (hm : (kv A.look).matchAt (p.hit.text ++ rest) = some (p.hit, rest)) :
    redactPairs A (p.hit.text ++ rest) = p.lead ++ (A.mark ++ redactPairs A rest) := by
  rw [redactPairs, replaceAll_hit kv_nonempty _ hm, ← append_assoc, append_assoc,
    Pair.lead]
  rfl

theorem mem_redactURLs (hc : c ∈ redactURLs A t) : c ∈ t ∨ c ∈ A.mark := by
  apply mem_replaceAll url_nonempty _ hc
  grind [Hit.text]

theorem mem_redactPairs (hc : c ∈ redactPairs A t) : c ∈ t ∨ c ∈ A.mark := by
  apply mem_replaceAll kv_nonempty _ hc
  grind [Hit.text]

variable [DecidableEq α]

theorem string_text (t : List α) : (string U A t).1 =
    if hasTrigger U A t then redactPairs A (redactURLs A t) else redactURLs A t := by
  have hnone (h : hasURL U A t = false) : redactURLs A t = t := by
    apply replaceAll_of_findAll url_nonempty
    apply eq_nil_iff_forall_not_mem.mpr
    intro g hg
    rw [hasURL_of_hit hg] at h
    cases h
  grind [string, hasTrigger]

theorem string_unchanged (h : (string U A t).2 = false) : (string U A t).1 = t := by
  rw [string] at h ⊢
  grind

theorem redactLine_value {sep : α} (h : splitLine A line = some (key, sep, value))
    (hkey : keyMatchesPattern U A (trimSpace A key) = false) :
    (redactLine U A line).1 = key ++ sep :: (string U A value).1 := by
  obtain ⟨hline, -, -⟩ := splitLine_some.mp h
  simp only [redactLine, h, hkey]
  cases hchanged : (string U A value).2 with
  | true => rfl
  | false =>
    rw [string_unchanged hchanged]
    exact hline

theorem redactLine_key {sep : α} (h : splitLine A line = some (key, sep, value))
    (hkey : keyMatchesPattern U A (trimSpace A key) = true) :
    (redactLine U A line).1 = key ++ sep :: A.mark := by
  simp only [redactLine, h, hkey]
  rfl

theorem mem_string (hc : c ∈ (string U A t).1) : c ∈ t ∨ c ∈ A.mark := by
  rw [string_text] at hc
  by_cases htrigger : hasTrigger U A t = true
  · rw [if_pos htrigger] at hc
    grind [mem_redactPairs, mem_redactURLs]
  · rw [if_neg htrigger] at hc
    exact mem_redactURLs hc

theorem mem_redactLine {line : List α} (hc : c ∈ (redactLine U A line).1) :
    c ∈ line ∨ c ∈ A.mark := by
  cases hsplit : splitLine A line with
  | none =>
    simp only [redactLine, hsplit] at hc
    exact mem_string hc
  | some x =>
    obtain ⟨key, sep, value⟩ := x
    obtain ⟨rfl, -, -⟩ := splitLine_some.mp hsplit
    have hvalue : c ∈ value ∨ c ∈ A.mark → c ∈ key ++ sep :: value ∨ c ∈ A.mark := by
      rintro (h | h)
      · grind
      · exact Or.inr h
    cases hkey : keyMatchesPattern U A (trimSpace A key) with
    | true =>
      rw [redactLine_key hsplit hkey, mem_append, mem_cons] at hc
      grind
    | false =>
      rw [redactLine_value hsplit hkey, mem_append, mem_cons] at hc
      grind [mem_cons_self, mem_string]

theorem string_of_findAll (hurl : (url A.look).findAll t = []) (hkv : (kv A.look).findAll t = []) :
    (string U A t).1 = t := by
  have hfirst : redactURLs A t = t := replaceAll_of_findAll url_nonempty _ hurl
  have hsecond : redactPairs A t = t := replaceAll_of_findAll kv_nonempty _ hkv
  rw [string_text, hfirst, hsecond, ite_self]

theorem redactLine_of_findAll {line : List α} (hurl : (url A.look).findAll line = [])
    (hkv : (kv A.look).findAll line = [])
    (hkey : ∀ key sep value, splitLine A line = some (key, sep, value) →
      keyMatchesPattern U A (trimSpace A key) = false) : (redactLine U A line).1 = line := by
  cases hsplit : splitLine A line with
  | none =>
    simp only [redactLine, hsplit]
    exact string_of_findAll hurl hkv
  | some x =>
    obtain ⟨key, sep, value⟩ := x
    obtain ⟨hline, -, -⟩ := splitLine_some.mp hsplit
    have hassoc : line = (key ++ [sep]) ++ value := by rw [hline]; simp
    rw [hassoc] at hurl hkv
    rw [redactLine_value hsplit (hkey _ _ _ hsplit),
      string_of_findAll (findAll_url_append hurl) (findAll_kv_append hkv), hline]

end Lines

section Seen

variable {U : Unicode} {α β : Type} {A : Alphabet α} {B : Alphabet β} (f : α → β)
  (hlook : ∀ c, B.look (f c) = A.look c) (hmark : A.mark.map f = B.mark)

include hlook

theorem comap_look (P : Pattern Char) : (P.comap B.look).comap f = P.comap A.look := by
  rw [comap_comap]
  congr 1
  exact funext hlook

theorem toLower_map (t : List α) : toLower U B (t.map f) = toLower U A t := by
  rw [toLower, toLower, map_map]
  simp_all

theorem hasTrigger_map (t : List α) : hasTrigger U B (t.map f) = hasTrigger U A t := by
  rw [hasTrigger, hasTrigger, toLower_map f hlook]

theorem keyMatchesPattern_map (t : List α) :
    keyMatchesPattern U B (t.map f) = keyMatchesPattern U A t := by
  have hmap : (t.map f).map B.look = t.map A.look := by
    rw [map_map]
    exact map_congr_left fun c _ => hlook c
  rw [keyMatchesPattern, keyMatchesPattern, hasTrigger_map f hlook, hmap]

theorem splitLine_map {line key value : List α} {sep : α}
    (h : splitLine A line = some (key, sep, value)) :
    splitLine B (line.map f) = some (key.map f, f sep, value.map f) := by
  obtain ⟨rfl, hkey, hsep⟩ := splitLine_some.mp h
  apply splitLine_some.mpr
  grind

theorem splitLine_map_none {line : List α} (h : splitLine A line = none) :
    splitLine B (line.map f) = none := by
  rw [splitLine_none] at h ⊢
  grind

theorem trimSpace_map (t : List α) : trimSpace B (t.map f) = (trimSpace A t).map f := by
  have hcomp : (fun c => Config.isSpace (B.look c)) ∘ f = fun c => Config.isSpace (A.look c) := by
    funext c
    rw [Function.comp_apply, hlook]
  rw [trimSpace, Trimming.trim_map, hcomp, trimSpace]

include hmark

theorem redactURLs_map (t : List α) : (redactURLs A t).map f = redactURLs B (t.map f) := by
  rw [redactURLs, redactURLs, blot, blot, url, url,
    ← comap_look f hlook urlUserinfoPattern]
  apply replaceAll_comap
  intro h
  simp [Hit.map, hmark]

theorem redactPairs_map (t : List α) : (redactPairs A t).map f = redactPairs B (t.map f) := by
  rw [redactPairs, redactPairs, kv, kv, ← comap_look f hlook embeddedKVPattern]
  apply replaceAll_comap
  intro h
  simp [Hit.map, hmark]

variable [DecidableEq α] [DecidableEq β]

theorem string_map (t : List α) : (string U A t).1.map f = (string U B (t.map f)).1 := by
  rw [string_text, string_text, hasTrigger_map f hlook]
  cases hasTrigger U A t with
  | true =>
    rw [if_pos rfl, if_pos rfl, redactPairs_map f hlook hmark, redactURLs_map f hlook hmark]
  | false => exact redactURLs_map f hlook hmark t

theorem redactLine_map (line : List α) :
    (redactLine U A line).1.map f = (redactLine U B (line.map f)).1 := by
  cases hsplit : splitLine A line with
  | none => grind [redactLine, splitLine_map_none, string_map]
  | some x =>
    obtain ⟨key, sep, value⟩ := x
    have hsplit' := splitLine_map f hlook hsplit
    have hsame : keyMatchesPattern U B (trimSpace B (key.map f)) =
        keyMatchesPattern U A (trimSpace A key) := by
      rw [trimSpace_map f hlook, keyMatchesPattern_map f hlook]
    cases hkey : keyMatchesPattern U A (trimSpace A key) with
    | true =>
      rw [redactLine_key hsplit hkey, redactLine_key hsplit' (hsame.trans hkey), map_append,
        map_cons, hmark]
    | false =>
      rw [redactLine_value hsplit hkey, redactLine_value hsplit' (hsame.trans hkey),
        map_append, map_cons, string_map f hlook hmark]

end Seen

section Strings

/-- A Go string, as it is decoded: its characters, and the bytes that belong to none. -/
inductive Symbol where
  | char (c : Char)
  | byte (b : UInt8)
  deriving DecidableEq

def Symbol.rune : Symbol → Char
  | .char c => c
  | .byte _ => '�'

def goString : Alphabet Symbol where
  look := Symbol.rune
  mark := Placeholder.map .char
  mark_look := by
    rw [map_map]
    exact map_id _

/-- `strings.Split(content, "\n")`. -/
def lines (content : List Symbol) : List (List Symbol) := content.splitOn (.char '\n')

/-- `strings.Join(lines, "\n")`. -/
def joinLines (ls : List (List Symbol)) : List Symbol := [.char '\n'].intercalate ls

def text (U : Unicode) (content : List Symbol) : List Symbol × Bool :=
  (joinLines ((lines content).map fun line => (redactLine U goString line).1),
    (lines content).any fun line => (redactLine U goString line).2)

theorem lines_text (U : Unicode) (content : List Symbol) : lines (text U content).1 =
    (lines content).map fun line => (redactLine U goString line).1 := by
  have hmark : Symbol.char '\n' ∉ goString.mark := by decide
  apply splitOn_intercalate
  · rw [forall_mem_map]
    intro line hline hmem
    have hnot := Lines.notMem_of_mem_splitOn (Symbol.char '\n') content line hline
    exact (mem_redactLine hmem).elim hnot hmark
  · rw [ne_eq, map_eq_nil_iff]
    exact splitOn_ne_nil _ _

end Strings

end DbAgent.Redact
