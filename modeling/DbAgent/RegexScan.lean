import Mathlib.Data.List.Basic
import Mathlib.Data.List.Count
import Mathlib.Data.List.TakeWhile
import Mathlib.Data.List.Infix

/-! Regular expressions with a leftmost-first choice, as a backtracking engine makes it, over
an arbitrary type of symbols, and scanning a text with a pattern of three groups: its
matches from left to right, and the text with a replacement for each of them. -/
namespace DbAgent.Scan

open List

variable {α β : Type}

inductive Regex (α : Type) where
  | one (p : α → Bool)
  | many (p : α → Bool)
  | seq (r s : Regex α)
  | alt (r s : Regex α)

namespace Regex

def oneParses (p : α → Bool) : List α → List (List α × List α)
  | [] => []
  | c :: cs => if p c then [([c], cs)] else []

def manyParses (p : α → Bool) : List α → List (List α × List α)
  | [] => [([], [])]
  | c :: cs =>
    (if p c then (manyParses p cs).map fun x => (c :: x.1, x.2) else []) ++ [([], c :: cs)]

/-- What can be taken from the start of a text, the preferred choice first, and what is
left then. -/
def parses : Regex α → List α → List (List α × List α)
  | .one p, t => oneParses p t
  | .many p, t => manyParses p t
  | .seq r s, t => (r.parses t).flatMap fun x => (s.parses x.2).map fun y => (x.1 ++ y.1, y.2)
  | .alt r s, t => r.parses t ++ s.parses t

/-- The texts that an expression stands for. -/
def Matches : Regex α → List α → Prop
  | .one p, l => ∃ c, p c = true ∧ l = [c]
  | .many p, l => ∀ c ∈ l, p c = true
  | .seq r s, l => ∃ a b, l = a ++ b ∧ r.Matches a ∧ s.Matches b
  | .alt r s, l => r.Matches l ∨ s.Matches l

/-- The same expression on symbols that are seen through a function. -/
def comap (f : α → β) : Regex β → Regex α
  | .one p => .one (p ∘ f)
  | .many p => .many (p ∘ f)
  | .seq r s => .seq (r.comap f) (s.comap f)
  | .alt r s => .alt (r.comap f) (s.comap f)

def plus (p : α → Bool) : Regex α := .seq (.one p) (.many p)

def isMatch (r : Regex α) (t : List α) : Bool := t.tails.any fun s => !(r.parses s).isEmpty

def fullMatch (r : Regex α) (t : List α) : Bool := (r.parses t).any fun x => x.2.isEmpty

theorem mem_oneParses (p : α → Bool) (t : List α) (x : List α × List α) :
    x ∈ oneParses p t ↔ t = x.1 ++ x.2 ∧ ∃ c, p c = true ∧ x.1 = [c] := by
  obtain ⟨a, b⟩ := x
  cases t with
  | nil =>
    constructor
    · intro h
      cases h
    · grind
  | cons c cs =>
    rw [oneParses]
    grind

theorem mem_manyParses (p : α → Bool) (t : List α) (x : List α × List α) :
    x ∈ manyParses p t ↔ t = x.1 ++ x.2 ∧ ∀ c ∈ x.1, p c = true := by
  induction t generalizing x with
  | nil =>
    rw [manyParses, mem_singleton]
    constructor
    · grind
    · grind [append_eq_nil_iff]
  | cons c cs ih =>
    obtain ⟨a, b⟩ := x
    rw [manyParses, mem_append, mem_singleton]
    constructor
    · grind
    · rintro ⟨heq, hall⟩
      cases a with
      | nil => grind
      | cons d a => simp_all

theorem mem_parses (r : Regex α) (t : List α) (x : List α × List α) :
    x ∈ r.parses t ↔ t = x.1 ++ x.2 ∧ r.Matches x.1 := by
  induction r generalizing t x with
  | one p => exact mem_oneParses p t x
  | many p => exact mem_manyParses p t x
  | seq r s ihr ihs =>
    simp only [parses, mem_flatMap, mem_map, Matches]
    constructor
    · grind
    · rintro ⟨ht, a, b, hab, hr, hs⟩
      refine ⟨(a, b ++ x.2), (ihr t _).mpr ⟨?_, hr⟩, (b, x.2), (ihs _ _).mpr ⟨rfl, hs⟩, ?_⟩
      · grind
      · rw [← hab]
  | alt r s ihr ihs =>
    rw [parses, mem_append, ihr, ihs, Matches, ← and_or_left]

theorem isMatch_iff (r : Regex α) (t : List α) :
    r.isMatch t = true ↔ ∃ a b c, t = a ++ b ++ c ∧ r.Matches b := by
  simp only [isMatch, any_eq_true, mem_tails, Bool.not_eq_true', isEmpty_eq_false_iff]
  constructor
  · rintro ⟨s, ⟨a, rfl⟩, hne⟩
    obtain ⟨x, hx⟩ := exists_mem_of_ne_nil _ hne
    obtain ⟨rfl, hm⟩ := (mem_parses r s x).mp hx
    exact ⟨a, x.1, x.2, by rw [append_assoc], hm⟩
  · rintro ⟨a, b, c, rfl, hm⟩
    refine ⟨b ++ c, ⟨a, by rw [append_assoc]⟩, ?_⟩
    exact ne_nil_of_mem ((mem_parses r (b ++ c) (b, c)).mpr ⟨rfl, hm⟩)

theorem head_manyParses (p : α → Bool) (t : List α) :
    (manyParses p t).head? = some (t.takeWhile p, t.dropWhile p) := by
  induction t with
  | nil => rfl
  | cons c cs ih =>
    rw [manyParses]
    by_cases hc : p c = true
    · simp_all
    · simp_all

theorem head_dropWhile (p : α → Bool) (t : List α) : ∀ c ∈ (t.dropWhile p).head?, p c = false := by
  induction t with
  | nil =>
    intro c hc
    cases hc
  | cons d t ih =>
    by_cases hd : p d = true
    · simp_all
    · simp_all

variable {p : α → Bool}

theorem takeWhile_run {a b : List α} (ha : ∀ d ∈ a, p d = true) (hb : ∀ c ∈ b.head?, p c = false) :
    (a ++ b).takeWhile p = a := by
  rw [takeWhile_append_of_pos ha]
  cases b with
  | nil => exact append_nil a
  | cons c b => simp_all

theorem run_eq {a a' b b' : List α} (h : a ++ b = a' ++ b') (ha : ∀ d ∈ a, p d = true)
    (ha' : ∀ d ∈ a', p d = true) (hb : ∀ c ∈ b.head?, p c = false)
    (hb' : ∀ c ∈ b'.head?, p c = false) : a = a' ∧ b = b' := by
  have haa : a = a' := by
    rw [← takeWhile_run ha hb, h, takeWhile_run ha' hb']
  simp_all

theorem run_unique {a a' b b' : List α} {c c' : α} (h : a ++ c :: b = a' ++ c' :: b')
    (ha : ∀ d ∈ a, p d = true) (ha' : ∀ d ∈ a', p d = true) (hc : p c = false)
    (hc' : p c' = false) :
    a = a' ∧ c = c' ∧ b = b' := by
  have hrun := run_eq h ha ha' (fun d hd => by grind)
    (fun d hd => by grind)
  grind

theorem split_append {a b y z : List α} {c : α} (h : y ++ c :: z = a ++ b) :
    (∃ z', a = y ++ c :: z' ∧ z = z' ++ b) ∨ ∃ y', y = a ++ y' ∧ b = y' ++ c :: z := by
  rcases append_eq_append_iff.mp h with ⟨a', rfl, hb⟩ | ⟨y', rfl, hb⟩
  · cases a' with
    | nil => grind
    | cons d a' => grind
  · grind

theorem head_plus {t : List α} {x : List α × List α} (h : ((plus p).parses t).head? = some x) :
    x = (t.takeWhile p, t.dropWhile p) := by
  cases t with
  | nil => cases h
  | cons c cs =>
    rw [plus, parses, parses, oneParses] at h
    by_cases hc : p c = true
    · rw [if_pos hc, flatMap_singleton, List.head?_map] at h
      rw [parses, head_manyParses, Option.map_some] at h
      simp_all
    · grind

theorem matches_plus {l : List α} :
    (plus p).Matches l ↔ l ≠ [] ∧ ∀ c ∈ l, p c = true := by
  constructor
  · rintro ⟨a, b, rfl, ⟨c, hc, rfl⟩, hb⟩
    exact ⟨by simp, forall_mem_cons.mpr ⟨hc, hb⟩⟩
  · rintro ⟨hne, hall⟩
    cases l with
    | nil => exact absurd rfl hne
    | cons c l =>
      obtain ⟨hc, hl⟩ := forall_mem_cons.mp hall
      exact ⟨[c], l, rfl, ⟨c, hc, rfl⟩, hl⟩

section Comap

variable (f : α → β)

def mapParse (x : List α × List α) : List β × List β := (x.1.map f, x.2.map f)

theorem comap_comap {γ : Type} (r : Regex γ) (g : β → γ) :
    (r.comap g).comap f = r.comap (g ∘ f) := by
  induction r with
  | one p => rfl
  | many p => rfl
  | seq r s ihr ihs => rw [comap, comap, comap, ihr, ihs]
  | alt r s ihr ihs => rw [comap, comap, comap, ihr, ihs]

theorem matches_comap (r : Regex β) (l : List α) :
    (r.comap f).Matches l ↔ r.Matches (l.map f) := by
  induction r generalizing l with
  | one p =>
    constructor
    · rintro ⟨c, hc, rfl⟩
      exact ⟨f c, hc, rfl⟩
    · rintro ⟨d, hd, hl⟩
      obtain ⟨c, rfl, rfl⟩ := map_eq_singleton_iff.mp hl
      exact ⟨c, hd, rfl⟩
  | many p =>
    rw [comap, Matches, Matches, forall_mem_map]
    rfl
  | seq r s ihr ihs =>
    constructor
    · rintro ⟨a, b, rfl, ha, hb⟩
      exact ⟨a.map f, b.map f, map_append, (ihr a).mp ha, (ihs b).mp hb⟩
    · rintro ⟨a, b, hl, ha, hb⟩
      obtain ⟨a', b', rfl, rfl, rfl⟩ := map_eq_append_iff.mp hl
      exact ⟨a', b', rfl, (ihr a').mpr ha, (ihs b').mpr hb⟩
  | alt r s ihr ihs => exact or_congr (ihr l) (ihs l)

theorem parses_comap (r : Regex β) (t : List α) :
    ((r.comap f).parses t).map (mapParse f) = r.parses (t.map f) := by
  induction r generalizing t with
  | one p =>
    cases t with
    | nil => rfl
    | cons c cs =>
      simp only [comap, parses, oneParses, map_cons, Function.comp_apply]
      by_cases hc : p (f c) = true
      · rw [if_pos hc, if_pos hc]
        rfl
      · rw [if_neg hc, if_neg hc]
        rfl
  | many p =>
    simp only [comap, parses]
    induction t with
    | nil => rfl
    | cons c cs ih =>
      simp only [manyParses, map_cons, Function.comp_apply, map_append]
      rw [← ih]
      by_cases hc : p (f c) = true
      · rw [if_pos hc, if_pos hc, map_map, map_map]
        rfl
      · rw [if_neg hc, if_neg hc]
        rfl
  | seq r s ihr ihs =>
    simp only [comap, parses, ← ihr, map_flatMap, flatMap_map, map_map]
    apply flatMap_congr
    intro x _
    have hx : s.parses (mapParse f x).2 = ((s.comap f).parses x.2).map (mapParse f) :=
      (ihs x.2).symm
    rw [hx, map_map]
    apply map_congr_left
    intro y _
    simp [mapParse]
  | alt r s ihr ihs => rw [comap, parses, parses, map_append, ihr, ihs]

end Comap

end Regex

structure Pattern (α : Type) where
  first : Regex α
  second : Regex α
  third : Regex α

structure Hit (α : Type) where
  first : List α
  second : List α
  third : List α
  deriving DecidableEq

namespace Hit

def text (h : Hit α) : List α := h.first ++ (h.second ++ h.third)

def map (f : α → β) (h : Hit α) : Hit β := ⟨h.first.map f, h.second.map f, h.third.map f⟩

theorem text_map (f : α → β) (h : Hit α) : (h.map f).text = h.text.map f := by
  simp [text, map]

end Hit

inductive Piece (α : Type) where
  | skip (c : α)
  | hit (h : Hit α)

namespace Pattern

variable (P : Pattern α)

def parses (t : List α) : List (Hit α × List α) :=
  (P.first.parses t).flatMap fun x => (P.second.parses x.2).flatMap fun y =>
    (P.third.parses y.2).map fun z => (⟨x.1, y.1, z.1⟩, z.2)

def matchAt (t : List α) : Option (Hit α × List α) := (P.parses t).head?

/-- The scan of a text by a pattern that takes at least one symbol. -/
def scan : ℕ → List α → List (Piece α)
  | 0, _ => []
  | _ + 1, [] => []
  | n + 1, c :: cs =>
    match P.matchAt (c :: cs) with
    | some x => .hit x.1 :: scan n x.2
    | none => .skip c :: scan n cs

def pieces (t : List α) : List (Piece α) := P.scan t.length t

def findAll (t : List α) : List (Hit α) :=
  (P.pieces t).filterMap fun
    | .skip _ => none
    | .hit h => some h

def replaceAll (f : Hit α → List α) (t : List α) : List α :=
  (P.pieces t).flatMap fun
    | .skip c => [c]
    | .hit h => f h

structure Matches (h : Hit α) : Prop where
  first : P.first.Matches h.first
  second : P.second.Matches h.second
  third : P.third.Matches h.third

def Nonempty : Prop := ∀ h, P.Matches h → h.text ≠ []

/-- In the text `x ++ s` the first symbol of `s` stands in the last group of a match. -/
inductive Taken : List α → List α → Prop where
  | here (h : Hit α) (a b : List α) (c : α) (rest : List α)
      (hm : P.matchAt (h.text ++ rest) = some (h, rest)) (hthird : h.third = a ++ c :: b) :
      Taken (h.first ++ (h.second ++ a)) (c :: (b ++ rest))
  | skip (c : α) (x s : List α) (hm : P.matchAt (c :: (x ++ s)) = none) (htaken : Taken x s) :
      Taken (c :: x) s
  | hit (h : Hit α) (x s : List α) (hm : P.matchAt (h.text ++ (x ++ s)) = some (h, x ++ s))
      (htaken : Taken x s) : Taken (h.text ++ x) s

section MatchAt

variable {P} {t rest : List α} {h : Hit α}

theorem mem_parses : (h, rest) ∈ P.parses t ↔ t = h.text ++ rest ∧ P.Matches h := by
  simp only [parses, mem_flatMap, mem_map, Regex.mem_parses]
  constructor
  · rintro ⟨x, ⟨ht, h1⟩, y, ⟨hx, h2⟩, z, ⟨hy, h3⟩, heq⟩
    obtain ⟨rfl, rfl⟩ := Prod.mk.inj heq
    refine ⟨?_, h1, h2, h3⟩
    rw [ht, hx, hy, Hit.text, append_assoc, append_assoc]
  · rintro ⟨ht, h1, h2, h3⟩
    refine ⟨(h.first, h.second ++ (h.third ++ rest)), ⟨?_, h1⟩, (h.second, h.third ++ rest),
      ⟨rfl, h2⟩, (h.third, rest), ⟨rfl, h3⟩, rfl⟩
    rw [ht, Hit.text, append_assoc, append_assoc]

theorem matchAt_eq (hm : P.matchAt t = some (h, rest)) : t = h.text ++ rest :=
  (mem_parses.mp (mem_of_mem_head? hm)).1

theorem matchAt_matches (hm : P.matchAt t = some (h, rest)) : P.Matches h :=
  (mem_parses.mp (mem_of_mem_head? hm)).2

theorem matchAt_third (hm : P.matchAt t = some (h, rest)) :
    (P.third.parses (h.third ++ rest)).head? = some (h.third, rest) := by
  rw [matchAt, parses, List.head?_flatMap] at hm
  obtain ⟨x, hx, hm⟩ := exists_of_findSome?_eq_some hm
  rw [List.head?_flatMap] at hm
  obtain ⟨y, hy, hm⟩ := exists_of_findSome?_eq_some hm
  rw [List.head?_map, Option.map_eq_some_iff] at hm
  obtain ⟨z, hz, heq⟩ := hm
  obtain ⟨rfl, rfl⟩ := Prod.mk.inj heq
  have hy' := ((Regex.mem_parses _ _ z).mp (mem_of_mem_head? hz)).1
  grind

theorem matchAt_isSome (ht : t = h.text ++ rest) (hm : P.Matches h) : P.matchAt t ≠ none := by
  have hmem : (h, rest) ∈ P.parses t := mem_parses.mpr ⟨ht, hm⟩
  grind [matchAt, List.head?_eq_none_iff]

end MatchAt

section Scan

variable {P} (hP : P.Nonempty)
include hP

variable {t rest : List α} {h : Hit α}

theorem length_lt (hm : P.matchAt t = some (h, rest)) :
    rest.length < t.length := by
  have hne := hP h (matchAt_matches hm)
  have hpos : 0 < h.text.length := length_pos_iff.mpr hne
  rw [matchAt_eq hm, length_append]
  omega

theorem scan_fuel (n : ℕ) (t : List α) (h : t.length ≤ n) : P.scan n t = P.pieces t := by
  induction n using Nat.strong_induction_on generalizing t with
  | _ n ih =>
    cases t with
    | nil =>
      cases n with
      | zero => rfl
      | succ n => rfl
    | cons c cs =>
      cases n with
      | zero => simp at h
      | succ n =>
        rw [pieces, length_cons, scan, scan]
        cases hm : P.matchAt (c :: cs) with
        | none => grind
        | some x =>
          obtain ⟨g, rest⟩ := x
          have hlt := length_lt hP hm
          grind

omit hP in
theorem pieces_skip {c : α} {cs : List α} (hm : P.matchAt (c :: cs) = none) :
    P.pieces (c :: cs) = .skip c :: P.pieces cs := by
  rw [pieces, length_cons, scan, hm]
  rfl

theorem pieces_hit (hm : P.matchAt t = some (h, rest)) :
    P.pieces t = .hit h :: P.pieces rest := by
  cases t with
  | nil =>
    have hlt := length_lt hP hm
    simp at hlt
  | cons c cs =>
    have hlt := length_lt hP hm
    rw [length_cons] at hlt
    have hrest := scan_fuel hP cs.length rest (by omega)
    rw [pieces, length_cons, scan, hm, ← hrest]

theorem scan_induction {motive : List α → Prop} (nil : motive [])
    (skip : ∀ c cs, P.matchAt (c :: cs) = none → motive cs → motive (c :: cs))
    (hit : ∀ h rest, P.matchAt (h.text ++ rest) = some (h, rest) → motive rest →
      motive (h.text ++ rest)) (t : List α) : motive t := by
  induction hn : t.length using Nat.strong_induction_on generalizing t with
  | _ n ih =>
    cases t with
    | nil => exact nil
    | cons c cs =>
      cases hm : P.matchAt (c :: cs) with
      | none => grind
      | some x => grind [length_lt, matchAt_eq]

theorem findAll_hit (hm : P.matchAt t = some (h, rest)) :
    P.findAll t = h :: P.findAll rest := by
  rw [findAll, pieces_hit hP hm]
  rfl

omit hP in
theorem findAll_skip {c : α} {cs : List α} (hm : P.matchAt (c :: cs) = none) :
    P.findAll (c :: cs) = P.findAll cs := by
  rw [findAll, pieces_skip hm]
  rfl

theorem replaceAll_hit (f : Hit α → List α) (hm : P.matchAt t = some (h, rest)) :
    P.replaceAll f t = f h ++ P.replaceAll f rest := by
  rw [replaceAll, pieces_hit hP hm]
  rfl

omit hP in
theorem replaceAll_skip (f : Hit α → List α) {c : α} {cs : List α}
    (hm : P.matchAt (c :: cs) = none) : P.replaceAll f (c :: cs) = c :: P.replaceAll f cs := by
  rw [replaceAll, pieces_skip hm]
  rfl

theorem replaceAll_of_findAll (f : Hit α → List α) {t : List α} (h : P.findAll t = []) :
    P.replaceAll f t = t := by
  induction t using scan_induction hP with
  | nil => rfl
  | skip c cs hm ih =>
    rw [findAll_skip hm] at h
    rw [replaceAll_skip f hm, ih h]
  | hit g rest hm _ =>
    rw [findAll_hit hP hm] at h
    cases h

theorem replaceAll_congr {f g : Hit α → List α} (h : ∀ m, P.Matches m → f m = g m) (t : List α) :
    P.replaceAll f t = P.replaceAll g t := by
  induction t using scan_induction hP with
  | nil => rfl
  | skip c cs hm ih => rw [replaceAll_skip f hm, replaceAll_skip g hm, ih]
  | hit m rest hm ih =>
    rw [replaceAll_hit hP f hm, replaceAll_hit hP g hm, h m (matchAt_matches hm), ih]

theorem mem_replaceAll {f : Hit α → List α} {mark : List α}
    (hf : ∀ h, ∀ c ∈ f h, c ∈ h.text ∨ c ∈ mark) {t : List α} {c : α}
    (hc : c ∈ P.replaceAll f t) : c ∈ t ∨ c ∈ mark := by
  induction t using scan_induction hP with
  | nil => cases hc
  | skip d cs hm ih =>
    grind [replaceAll_skip]
  | hit h rest hm ih =>
    grind [replaceAll_hit]

theorem findAll_at {t : List α} (hh : h ∈ P.findAll t) :
    ∃ a rest, t = a ++ (h.text ++ rest) ∧ P.matchAt (h.text ++ rest) = some (h, rest) := by
  induction t using scan_induction hP with
  | nil => cases hh
  | skip c cs hm ih => grind [findAll_skip]
  | hit h' rest' hm ih =>
    rw [findAll_hit hP hm] at hh
    rcases mem_cons.mp hh with rfl | hh
    · exact ⟨[], rest', rfl, hm⟩
    · grind

theorem taken_of_mem {t : List α} (hh : h ∈ P.findAll t) {c : α} (hc : c ∈ h.third) :
    ∃ x y, t = x ++ c :: y ∧ P.Taken x (c :: y) := by
  induction t using scan_induction hP with
  | nil => cases hh
  | skip d cs hm ih =>
    rw [findAll_skip hm] at hh
    obtain ⟨x, y, rfl, htaken⟩ := ih hh
    exact ⟨d :: x, y, rfl, .skip d x _ hm htaken⟩
  | hit g rest hm ih =>
    rw [findAll_hit hP hm, mem_cons] at hh
    rcases hh with rfl | hh
    · obtain ⟨a, b, hthird⟩ := append_of_mem hc
      refine ⟨_, _, ?_, .here h a b c rest hm hthird⟩
      simp [Hit.text, hthird]
    · obtain ⟨x, y, rfl, htaken⟩ := ih hh
      exact ⟨g.text ++ x, y, by rw [append_assoc], .hit g x _ hm htaken⟩

theorem locate (a : List α) (c : α) (b : List α) :
    P.matchAt (c :: b) = none ∨ ∃ h ∈ P.findAll (a ++ c :: b), ∃ x y z rest,
      h.text = y ++ c :: z ∧ a = x ++ y ∧ b = z ++ rest ∧
        P.matchAt (h.text ++ rest) = some (h, rest) := by
  generalize ht : a ++ c :: b = t
  induction t using scan_induction hP generalizing a with
  | nil => simp at ht
  | skip d cs hm ih =>
    rw [findAll_skip hm]
    cases a with
    | nil => grind
    | cons d' a => grind
  | hit h rest hm ih =>
    rw [findAll_hit hP hm]
    have hlater (a' : List α) (ha : a = h.text ++ a') (hrest : a' ++ c :: b = rest) :
        P.matchAt (c :: b) = none ∨ ∃ g ∈ h :: P.findAll rest, ∃ x y z u,
          g.text = y ++ c :: z ∧ a = x ++ y ∧ b = z ++ u ∧
            P.matchAt (g.text ++ u) = some (g, u) := by
      rcases ih a' hrest with hnone | ⟨g, hg, x, y, z, u, htext, rfl, rfl, hat⟩
      · exact Or.inl hnone
      · refine Or.inr ⟨g, mem_cons_of_mem _ hg, h.text ++ x, y, z, u, htext, ?_, rfl, hat⟩
        rw [ha, append_assoc]
    rcases append_eq_append_iff.mp ht with ⟨y, htext, hcb⟩ | ⟨a', ha, hrest⟩
    · cases y with
      | nil => exact hlater [] (by grind) hcb
      | cons d z =>
        obtain ⟨rfl, rfl⟩ := List.cons.inj hcb
        exact Or.inr ⟨h, mem_cons_self, [], a, z, rest, htext, rfl, rfl, hm⟩
    · exact hlater a' ha hrest.symm

theorem count_replaceAll [DecidableEq α] (c : α) (f cut : Hit α → List α)
    (hf : ∀ h, P.Matches h → h.text.count c = (f h).count c + (cut h).count c) (t : List α) :
    t.count c = (P.replaceAll f t).count c + ((P.findAll t).flatMap cut).count c := by
  induction t using scan_induction hP with
  | nil => rfl
  | skip d cs hm ih => grind [replaceAll_skip, findAll_skip]
  | hit h rest hm ih =>
    rw [replaceAll_hit hP f hm, findAll_hit hP hm, flatMap_cons]
    simp only [count_append]
    rw [hf h (matchAt_matches hm), ih]
    omega

theorem hit_unique [DecidableEq α] {t : List α} {c : α} (hc : t.count c ≤ 1) {g h : Hit α}
    (hg : g ∈ P.findAll t) (hh : h ∈ P.findAll t) (hcg : c ∈ g.text) (hch : c ∈ h.text) :
    g = h := by
  induction t using scan_induction hP with
  | nil => cases hg
  | skip d cs hm ih => grind [findAll_skip, count_le_count_cons]
  | hit h' rest hm ih =>
    rw [findAll_hit hP hm] at hg hh
    rw [count_append] at hc
    have hrest (k : Hit α) (hk : k ∈ P.findAll rest) (hck : c ∈ k.text) : 0 < rest.count c := by
      obtain ⟨a, u, rfl, -⟩ := findAll_at hP hk
      exact count_pos_iff.mpr (by simp [hck])
    grind

end Scan

end Pattern

/-- A text after a replacement of the second group: what is kept, and what is cut out. -/
inductive Cell (α : Type) where
  | keep (c : α)
  | cut (l : List α)

open Cell

namespace Cell

def text : Cell α → List α
  | .keep c => [c]
  | .cut l => l

def image (mark : List α) : Cell α → List α
  | .keep c => [c]
  | .cut _ => mark

theorem text_keep (l : List α) : (l.map keep).flatMap text = l := by
  induction l with
  | nil => rfl
  | cons c l ih =>
    rw [map_cons, flatMap_cons, ih]
    rfl

theorem image_keep (mark l : List α) : (l.map keep).flatMap (image mark) = l := by
  induction l with
  | nil => rfl
  | cons c l ih =>
    rw [map_cons, flatMap_cons, ih]
    rfl

theorem split_text (cs : List (Cell α)) (a b : List α) (h : cs.flatMap text = a ++ b) :
    (∃ cs₁ cs₂, cs = cs₁ ++ cs₂ ∧ cs₁.flatMap text = a ∧ cs₂.flatMap text = b) ∨
    ∃ cs₁ l₁ l₂ cs₂, l₁ ≠ [] ∧ l₂ ≠ [] ∧ cs = cs₁ ++ .cut (l₁ ++ l₂) :: cs₂ ∧
      a = cs₁.flatMap text ++ l₁ ∧ b = l₂ ++ cs₂.flatMap text := by
  induction cs generalizing a with
  | nil => simp_all
  | cons x cs ih =>
    rw [flatMap_cons] at h
    rcases append_eq_append_iff.mp h with ⟨a', rfl, hb⟩ | ⟨l₂, hx, rfl⟩
    · rcases ih a' hb with ⟨cs₁, cs₂, rfl, rfl, rfl⟩ | ⟨cs₁, l₁, l₂, cs₂, h₁, h₂, rfl, rfl, rfl⟩
      · exact Or.inl ⟨x :: cs₁, cs₂, rfl, rfl, rfl⟩
      · refine Or.inr ⟨x :: cs₁, l₁, l₂, cs₂, h₁, h₂, rfl, ?_, rfl⟩
        grind
    · cases l₂ with
      | nil => exact Or.inl ⟨[x], cs, rfl, by simpa using hx, rfl⟩
      | cons d l₂ =>
        cases a with
        | nil => exact Or.inl ⟨[], x :: cs, rfl, rfl, by grind⟩
        | cons e a =>
          cases x with
          | keep c =>
            have hlen := congrArg List.length hx
            simp [text] at hlen
          | cut l =>
            obtain rfl : l = (e :: a) ++ d :: l₂ := hx
            exact Or.inr ⟨[], e :: a, d :: l₂, cs, by simp, by simp, rfl, rfl, rfl⟩

theorem mem_takeWhile_image {p : α → Bool} {mark : List α} (hmark : ∀ c ∈ mark, p c = true)
    (cs : List (Cell α)) (a b : List α) (h : cs.flatMap text = a ++ b)
    (ha : ∀ c ∈ a, p c = true) (c : α) (hc : c ∈ a) :
    (∃ l, .cut l ∈ cs ∧ c ∈ l) ∨ c ∈ (cs.flatMap (image mark)).takeWhile p := by
  induction cs generalizing a with
  | nil => simp_all
  | cons x cs ih =>
    rw [flatMap_cons] at h
    have hrest (a' : List α) (hcs : cs.flatMap text = a' ++ b) (ha' : ∀ d ∈ a', p d = true)
        (hc' : c ∈ a') (hx : ∀ d ∈ x.image mark, p d = true) :
        (∃ l, .cut l ∈ x :: cs ∧ c ∈ l) ∨
          c ∈ ((x :: cs).flatMap (image mark)).takeWhile p := by
      rcases ih a' hcs ha' hc' with ⟨l, hl, hcl⟩ | hrun
      · grind
      · simp_all
    cases x with
    | keep d =>
      cases a with
      | nil => cases hc
      | cons e a =>
        obtain ⟨rfl, hcs⟩ := List.cons.inj h
        obtain ⟨hd, ha⟩ := forall_mem_cons.mp ha
        rcases mem_cons.mp hc with rfl | hc
        · rw [flatMap_cons, image, singleton_append, takeWhile_cons_of_pos hd]
          grind
        · exact hrest a hcs ha hc (forall_mem_singleton.mpr hd)
    | cut l =>
      rcases append_eq_append_iff.mp h with ⟨a', rfl, hb⟩ | ⟨l₂, hl, -⟩
      · rcases mem_append.mp hc with hcl | hc
        · exact Or.inl ⟨l, mem_cons_self, hcl⟩
        · exact hrest a' hb (fun d hd => ha d (mem_append_right _ hd)) hc hmark
      · obtain rfl : l = a ++ l₂ := hl
        grind

end Cell

namespace Pattern

section Cells

variable (P : Pattern α)

def cells (t : List α) : List (Cell α) :=
  (P.pieces t).flatMap fun
    | .skip c => [.keep c]
    | .hit h => h.first.map .keep ++ .cut h.second :: h.third.map .keep

def blot (mark : List α) (t : List α) : List α :=
  P.replaceAll (fun h => h.first ++ (mark ++ h.third)) t

variable {P} (hP : P.Nonempty)
include hP

theorem cells_hit {t rest : List α} {h : Hit α} (hm : P.matchAt t = some (h, rest)) :
    P.cells t = h.first.map .keep ++ .cut h.second :: (h.third.map .keep ++ P.cells rest) := by
  rw [cells, pieces_hit hP hm, flatMap_cons, append_assoc]
  rfl

omit hP in
theorem cells_skip {c : α} {cs : List α} (hm : P.matchAt (c :: cs) = none) :
    P.cells (c :: cs) = .keep c :: P.cells cs := by
  rw [cells, pieces_skip hm]
  rfl

theorem text_cells (t : List α) : (P.cells t).flatMap text = t := by
  induction t using scan_induction hP with
  | nil => rfl
  | skip c cs hm ih =>
    rw [cells_skip hm, flatMap_cons, ih]
    rfl
  | hit h rest hm ih =>
    rw [cells_hit hP hm, flatMap_append, flatMap_cons, flatMap_append,
      text_keep, text_keep, ih, Hit.text, text, append_assoc, append_assoc]

theorem image_cells (mark t : List α) :
    (P.cells t).flatMap (image mark) = P.blot mark t := by
  induction t using scan_induction hP with
  | nil => rfl
  | skip c cs hm ih =>
    rw [cells_skip hm, flatMap_cons, ih, blot, blot, replaceAll_skip _ hm]
    rfl
  | hit h rest hm ih =>
    rw [cells_hit hP hm, flatMap_append, flatMap_cons, flatMap_append,
      image_keep, image_keep, ih, blot, blot, replaceAll_hit hP _ hm, image,
      append_assoc, append_assoc]

theorem cut_of_cells {t : List α} {cs₁ cs₂ : List (Cell α)} {l : List α}
    (h : P.cells t = cs₁ ++ .cut l :: cs₂) :
    ∃ g ∈ P.findAll t, l = g.second ∧ (∃ x, cs₁ = x ++ g.first.map .keep) ∧
      ∃ y, cs₂ = g.third.map .keep ++ y := by
  have hkeep (a : List α) (u cs₁ : List (Cell α)) (h : a.map .keep ++ u = cs₁ ++ .cut l :: cs₂) :
      ∃ v, cs₁ = a.map .keep ++ v ∧ u = v ++ .cut l :: cs₂ := by
    induction a generalizing cs₁ with
    | nil => grind
    | cons c a ih =>
      cases cs₁ with
      | nil => cases h
      | cons d cs₁ => grind
  induction t using scan_induction hP generalizing cs₁ with
  | nil => simp [cells, pieces, scan] at h
  | skip c cs hm ih =>
    rw [cells_skip hm] at h
    obtain ⟨v, rfl, hv⟩ := hkeep [c] _ _ h
    grind [findAll_skip]
  | hit g rest hm ih =>
    rw [cells_hit hP hm] at h
    rw [findAll_hit hP hm]
    obtain ⟨v, rfl, hv⟩ := hkeep _ _ _ h
    cases v with
    | nil =>
      obtain ⟨hl, rfl⟩ := List.cons.inj hv
      exact ⟨g, mem_cons_self, (cut.inj hl).symm, ⟨[], append_nil _⟩, _, rfl⟩
    | cons d v => grind

end Cells

section Comap

variable (f : α → β)

def comap (P : Pattern β) : Pattern α := ⟨P.first.comap f, P.second.comap f, P.third.comap f⟩

variable (P : Pattern β)

theorem comap_comap {γ : Type} (P : Pattern γ) (g : β → γ) :
    (P.comap g).comap f = P.comap (g ∘ f) := by
  simp only [comap, Regex.comap_comap]

theorem parses_comap (t : List α) :
    ((P.comap f).parses t).map (fun x => (x.1.map f, x.2.map f)) = P.parses (t.map f) := by
  have hmap (r : Regex β) (u : List α) (γ : Type) (k : List β × List β → List γ) :
      (r.parses (u.map f)).flatMap k =
        ((r.comap f).parses u).flatMap fun x => k (Regex.mapParse f x) := by
    rw [← Regex.parses_comap, flatMap_map]
  simp only [parses, comap, map_flatMap, map_map]
  rw [hmap]
  apply flatMap_congr
  intro x _
  change _ = (P.second.parses (x.2.map f)).flatMap _
  rw [hmap]
  apply flatMap_congr
  intro y _
  change _ = (P.third.parses (y.2.map f)).map _
  rw [← Regex.parses_comap, map_map]
  rfl

theorem matchAt_comap (t : List α) :
    ((P.comap f).matchAt t).map (fun x => (x.1.map f, x.2.map f)) = P.matchAt (t.map f) := by
  rw [matchAt, matchAt, ← parses_comap, List.head?_map]

theorem scan_comap (n : ℕ) (t : List α) :
    P.scan n (t.map f) = ((P.comap f).scan n t).map fun
      | .skip c => .skip (f c)
      | .hit h => .hit (h.map f) := by
  induction n generalizing t with
  | zero => rfl
  | succ n ih =>
    cases t with
    | nil => rfl
    | cons c cs =>
      have hm := matchAt_comap f P (c :: cs)
      rw [map_cons] at hm
      rw [map_cons, scan, scan, ← hm]
      grind

theorem replaceAll_comap (g : Hit α → List α) (g' : Hit β → List β)
    (hg : ∀ h, (g h).map f = g' (h.map f)) (t : List α) :
    ((P.comap f).replaceAll g t).map f = P.replaceAll g' (t.map f) := by
  rw [replaceAll, replaceAll, pieces, pieces, length_map, scan_comap, map_flatMap,
    flatMap_map]
  grind

end Comap

end Pattern

end DbAgent.Scan
