import Mathlib.Data.List.DropRight

/-! Library: a list without the elements of a kind at both ends. -/
namespace DbAgent.Trimming

open List

variable {α : Type}

def trim (p : α → Bool) (s : List α) : List α := (s.dropWhile p).rdropWhile p

structure Trimmed (p : α → Bool) (s : List α) : Prop where
  head : ∀ c ∈ s.head?, p c = false
  last : ∀ c ∈ s.getLast?, p c = false

variable {p : α → Bool}

theorem dropWhile_eq_self {s : List α} (h : ∀ c ∈ s.head?, p c = false) : s.dropWhile p = s := by
  cases s with
  | nil => rfl
  | cons c s => simp_all

theorem Trimmed.eq_self {s : List α} (h : Trimmed p s) : trim p s = s := by
  have hlast : ∀ c ∈ s.reverse.head?, p c = false := by
    rw [List.head?_reverse]
    exact h.last
  rw [trim, dropWhile_eq_self h.head, List.rdropWhile, dropWhile_eq_self hlast,
    reverse_reverse]

theorem trim_trimmed (s : List α) : Trimmed p (trim p s) where
  head := by
    intro c hc
    have hprefix : trim p s <+: s.dropWhile p := rdropWhile_prefix p _
    have hhead : (s.dropWhile p).head? = some c := by
      obtain ⟨rest, hrest⟩ := hprefix
      rw [← hrest, List.head?_append, Option.mem_def.mp hc, Option.some_or]
    have hnot := List.head?_dropWhile_not p s
    rw [hhead] at hnot
    exact hnot
  last := by
    intro c hc
    rw [trim, List.rdropWhile, List.getLast?_reverse] at hc
    grind [List.head?_dropWhile_not, Option.mem_def]

theorem trim_of_none {s : List α} (h : ∀ c ∈ s, p c = false) : trim p s = s :=
  Trimmed.eq_self ⟨fun c hc => h c (mem_of_mem_head? hc), fun c hc => h c (mem_of_mem_getLast? hc)⟩

theorem trim_map {β : Type} (f : β → α) (s : List β) :
    trim p (s.map f) = (trim (p ∘ f) s).map f := by
  rw [trim, trim, List.rdropWhile, List.rdropWhile, dropWhile_map, ← map_reverse, dropWhile_map,
    map_reverse]

theorem split_trim (p : α → Bool) (s : List α) :
    s = s.takeWhile p ++ (trim p s ++ (s.dropWhile p).rtakeWhile p) := by simp [trim]

theorem exists_around (p : α → Bool) (s : List α) : ∃ x y, s = x ++ trim p s ++ y ∧
    (∀ c ∈ x, p c = true) ∧ ∀ c ∈ y, p c = true := by
  refine ⟨_, _, (split_trim p s).trans (append_assoc ..).symm, fun c hc => mem_takeWhile_imp hc, ?_⟩
  intro c hc
  exact mem_takeWhile_imp (mem_reverse.mp hc)

/-- What begins and ends with an element of another kind stays in front. -/
theorem isPrefix_trim {s : List α} {c : α} (hs : ∀ d ∈ (s ++ [c]).head?, p d = false)
    (hc : p c = false) (t : List α) : s ++ [c] <+: trim p (s ++ [c] ++ t) := by
  have hhead : ∀ d ∈ (s ++ [c] ++ t).head?, p d = false := by simpa using hs
  rw [trim, dropWhile_eq_self hhead]
  clear hhead
  induction t using reverseRecOn with
  | nil =>
    have hself := rdropWhile_concat_neg p s c (by simp [hc])
    simp only [append_nil, hself, prefix_rfl]
  | append_singleton t d ih =>
    rw [← append_assoc]
    by_cases hd : p d = true
    · rw [rdropWhile_concat_pos _ _ _ hd]
      exact ih
    · rw [rdropWhile_concat_neg _ _ _ hd, append_assoc]
      exact prefix_append _ _

theorem trim_append {x y : List α} (s : List α) (hx : ∀ c ∈ x, p c = true)
    (hy : ∀ c ∈ y, p c = true) : trim p (x ++ s ++ y) = trim p s := by
  have hall : ∀ c ∈ y.reverse, p c = true := fun c hc => hy c (mem_reverse.mp hc)
  have hright (t : List α) : (t ++ y).rdropWhile p = t.rdropWhile p := by
    rw [List.rdropWhile, reverse_append, dropWhile_append_of_pos hall]
    rfl
  rw [trim, trim, append_assoc, dropWhile_append_of_pos hx, dropWhile_append]
  grind [dropWhile_eq_nil_iff]

theorem trim_around {x m y : List α} (hx : ∀ c ∈ x, p c = true) (hy : ∀ c ∈ y, p c = true)
    (hm : Trimmed p m) : trim p (x ++ m ++ y) = m := by
  rw [trim_append m hx hy, hm.eq_self]

theorem trim_infix (s : List α) : trim p s <:+: s := by
  have hprefix : trim p s <+: s.dropWhile p := rdropWhile_prefix p _
  exact hprefix.isInfix.trans (dropWhile_suffix p).isInfix

end DbAgent.Trimming
