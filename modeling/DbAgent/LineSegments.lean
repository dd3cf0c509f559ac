import Mathlib.Data.List.Induction

/-! Library: a text over any alphabet, split at a line separator, and a text that comes in
segments, each of which is split on its own. -/
namespace DbAgent.Lines

open List

variable {α : Type} [DecidableEq α] (nl : α)

def nonEmpty (t : List α) : List (List α) := (t.splitOn nl).filter (· ≠ [])

def join (ls : List (List α)) : List α := [nl].intercalate ls

def Cut (p q : List α) : Prop :=
  p = [] ∨ q = [] ∨ p.getLast? = some nl ∨ q.head? = some nl

instance (p q : List α) : Decidable (Cut nl p q) := inferInstanceAs (Decidable (_ ∨ _))

def CutsAtLineEnds : List (List α) → Prop
  | [] => True
  | p :: ps => Cut nl p ps.flatten ∧ CutsAtLineEnds ps

def NoBlankLine (t : List α) : Prop := t = [nl] ∨ ∀ l ∈ (t.splitOn nl).dropLast, l ≠ []

def UpToBreak (s t : List α) : Prop := s = t ∨ s ++ [nl] = t

variable {nl}

omit [DecidableEq α] in
theorem sublist_of_mem_splitOnP {p : α → Bool} {t l : List α} (h : l ∈ t.splitOnP p) :
    l.Sublist t := by
  induction t generalizing l with
  | nil =>
    rw [splitOnP_nil, mem_singleton] at h
    subst h
    exact nil_sublist _
  | cons c t ih =>
    rw [splitOnP_cons_eq_if_modifyHead] at h
    split at h
    · rcases mem_cons.mp h with rfl | h
      · exact nil_sublist _
      · exact (ih h).cons c
    · cases hparts : t.splitOnP p with
      | nil =>
        rw [hparts] at h
        cases h
      | cons first rest =>
        rw [hparts, modifyHead_cons] at h
        rcases mem_cons.mp h with rfl | h
        · exact (ih (hparts ▸ mem_cons_self)).cons_cons c
        · exact (ih (hparts ▸ mem_cons_of_mem first h)).cons c

theorem notMem_of_mem_splitOn (a : α) (t : List α) : ∀ l ∈ t.splitOn a, a ∉ l := by
  induction t with
  | nil => simp
  | cons c t ih =>
    by_cases hc : c = a
    · subst hc
      have hsplit : (c :: t).splitOn c = [] :: t.splitOn c := by
        rw [List.splitOn, splitOnP_cons_eq_if_modifyHead, if_pos (by simp)]
        rfl
      grind
    · have hsplit : (c :: t).splitOn a = (t.splitOn a).modifyHead (c :: ·) := by
        rw [List.splitOn, splitOnP_cons_eq_if_modifyHead, if_neg (by simpa using hc)]
        rfl
      rw [hsplit]
      cases hl : t.splitOn a with
      | nil => exact forall_mem_nil _
      | cons l ls =>
        rw [hl] at ih
        obtain ⟨hhead, htail⟩ := forall_mem_cons.mp ih
        refine forall_mem_cons.mpr ⟨?_, htail⟩
        grind

theorem splitOn_append_cons (xs ys : List α) :
    (xs ++ nl :: ys).splitOn nl = xs.splitOn nl ++ ys.splitOn nl := by
  rw [List.splitOn, splitOnP_append_cons _ _ (by simp)]
  rfl

theorem splitOn_of_notMem {t : List α} (h : nl ∉ t) : t.splitOn nl = [t] := by
  have hjoin : ([nl].intercalate [t]).splitOn nl = [t] :=
    splitOn_intercalate nl (by simpa using h) (by simp)
  rwa [intercalate_singleton] at hjoin

section NonEmpty

theorem nonEmpty_append_cons (xs ys : List α) :
    nonEmpty nl (xs ++ nl :: ys) = nonEmpty nl xs ++ nonEmpty nl ys := by
  rw [nonEmpty, splitOn_append_cons, filter_append]
  rfl

@[simp] theorem nonEmpty_nil : nonEmpty nl [] = [] := rfl

theorem nonEmpty_of_notMem {t : List α} (h : nl ∉ t) :
    nonEmpty nl t = if t = [] then [] else [t] := by
  rw [nonEmpty, splitOn_of_notMem h]
  grind

theorem mem_nonEmpty {t l : List α} (h : l ∈ nonEmpty nl t) : l ≠ [] ∧ nl ∉ l := by
  obtain ⟨hmem, hne⟩ := mem_filter.mp h
  exact ⟨by simpa using hne, notMem_of_mem_splitOn nl t l hmem⟩

theorem nonEmpty_append_of_last {p : List α} (h : p.getLast? = some nl) (q : List α) :
    nonEmpty nl (p ++ q) = nonEmpty nl p ++ nonEmpty nl q := by
  obtain ⟨ys, rfl⟩ := List.getLast?_eq_some_iff.mp h
  rw [append_assoc, singleton_append, nonEmpty_append_cons, nonEmpty_append_cons, nonEmpty_nil,
    append_nil]

theorem nonEmpty_append_of_head (p : List α) {q : List α} (h : q.head? = some nl) :
    nonEmpty nl (p ++ q) = nonEmpty nl p ++ nonEmpty nl q := by
  obtain ⟨q', rfl⟩ := List.head?_eq_some_iff.mp h
  have hq : nonEmpty nl (nl :: q') = nonEmpty nl q' := nonEmpty_append_cons [] q'
  rw [hq, nonEmpty_append_cons]

theorem nonEmpty_append_of_cut {p q : List α} (h : Cut nl p q) :
    nonEmpty nl (p ++ q) = nonEmpty nl p ++ nonEmpty nl q := by
  rcases h with rfl | rfl | h | h
  · rfl
  · simp
  · exact nonEmpty_append_of_last h q
  · exact nonEmpty_append_of_head p h

variable (nl) in
theorem exists_last_line (p : List α) : ∃ a x, p = a ++ x ∧ nl ∉ x ∧
    (a = [] ∨ a.getLast? = some nl) := by
  induction p using List.reverseRecOn with
  | nil => simp
  | append_singleton p c ih =>
    by_cases hc : c = nl
    · exact ⟨p ++ [c], [], (append_nil _).symm, not_mem_nil, .inr (by simp [hc])⟩
    · grind

variable (nl) in
theorem exists_first_line (q : List α) : ∃ y b, q = y ++ b ∧ nl ∉ y ∧
    (b = [] ∨ b.head? = some nl) := by
  induction q with
  | nil => simp
  | cons c q ih =>
    by_cases hc : c = nl
    · exact ⟨[], c :: q, rfl, not_mem_nil, .inr (by simp [hc])⟩
    · grind

variable (nl) in
/-- A line that goes on from one text to the next is one line of the whole, and two of the
parts. -/
theorem length_nonEmpty_append (p q : List α) :
    (nonEmpty nl (p ++ q)).length + (if Cut nl p q then 0 else 1) =
      (nonEmpty nl p).length + (nonEmpty nl q).length := by
  by_cases hcut : Cut nl p q
  · rw [if_pos hcut, nonEmpty_append_of_cut hcut, length_append, Nat.add_zero]
  · obtain ⟨a, x, rfl, hx, ha⟩ := exists_last_line nl p
    obtain ⟨y, b, rfl, hy, hb⟩ := exists_first_line nl q
    have hx' : x ≠ [] := by
      rintro rfl
      apply hcut
      rw [append_nil]
      exact ha.imp_right fun h => .inr (.inl h)
    have hy' : y ≠ [] := by
      rintro rfl
      apply hcut
      exact .inr (hb.imp_right fun h => .inr h)
    have hleft (t : List α) : nonEmpty nl (a ++ t) = nonEmpty nl a ++ nonEmpty nl t := by
      rcases ha with rfl | ha
      · rfl
      · exact nonEmpty_append_of_last ha t
    have hright (t : List α) : nonEmpty nl (t ++ b) = nonEmpty nl t ++ nonEmpty nl b := by
      rcases hb with rfl | hb
      · simp
      · exact nonEmpty_append_of_head t hb
    have hxy : nl ∉ x ++ y := by
      rw [mem_append, not_or]
      exact ⟨hx, hy⟩
    have hwhole : a ++ x ++ (y ++ b) = a ++ (x ++ y ++ b) := by simp
    rw [hwhole, hleft, hright, hleft x, hright y, nonEmpty_of_notMem hxy, nonEmpty_of_notMem hx,
      nonEmpty_of_notMem hy, if_neg hx', if_neg hy', if_neg hcut,
      if_neg (by simp [hx'])]
    grind

end NonEmpty

section Segments

variable (nl) in
theorem length_nonEmpty_flatten_le (ps : List (List α)) :
    (nonEmpty nl ps.flatten).length ≤ (ps.flatMap (nonEmpty nl)).length := by
  induction ps with
  | nil => exact Nat.le_refl _
  | cons p ps ih =>
    grind [length_nonEmpty_append, flatten_cons, length_append]

theorem nonEmpty_flatten_iff (ps : List (List α)) :
    nonEmpty nl ps.flatten = ps.flatMap (nonEmpty nl) ↔ CutsAtLineEnds nl ps := by
  induction ps with
  | nil => exact ⟨fun _ => trivial, fun _ => rfl⟩
  | cons p ps ih =>
    rw [flatten_cons, flatMap_cons, CutsAtLineEnds, ← ih]
    constructor
    · intro h
      have hlen := length_nonEmpty_append nl p ps.flatten
      have hle := length_nonEmpty_flatten_le nl ps
      rw [h, length_append] at hlen
      have hcut : Cut nl p ps.flatten := by
        by_contra hcut
        rw [if_neg hcut] at hlen
        omega
      grind [nonEmpty_append_of_cut, append_cancel_left]
    · rintro ⟨hcut, hrest⟩
      rw [nonEmpty_append_of_cut hcut, hrest]

theorem splitOn_join {ls : List (List α)} (hls : ∀ l ∈ ls, nl ∉ l) (hne : ls ≠ []) :
    (join nl ls).splitOn nl = ls :=
  splitOn_intercalate nl hls hne

omit [DecidableEq α] in
theorem join_concat_nil {ls : List (List α)} (hne : ls ≠ []) :
    join nl (ls ++ [[]]) = join nl ls ++ [nl] := by
  induction ls with
  | nil => exact absurd rfl hne
  | cons l ls ih =>
    cases ls with
    | nil => simp [join]
    | cons l' ls =>
      have hrest := ih (cons_ne_nil l' ls)
      grind [join, intercalate_cons_cons]

theorem nonEmpty_join {ls : List (List α)} (hls : ∀ l ∈ ls, l ≠ [] ∧ nl ∉ l) :
    nonEmpty nl (join nl ls) = ls := by
  by_cases hne : ls = []
  · subst hne
    rfl
  · rw [nonEmpty, splitOn_join (fun l hl => (hls l hl).2) hne, filter_eq_self]
    grind

theorem upToBreak_join_iff (t : List α) :
    UpToBreak nl (join nl (nonEmpty nl t)) t ↔ NoBlankLine nl t := by
  have hlines : ∀ l ∈ nonEmpty nl t, nl ∉ l := fun l hl => (mem_nonEmpty hl).2
  constructor
  · intro h
    by_cases hnone : nonEmpty nl t = []
    · rw [hnone] at h
      rcases h with h | h
      · right
        rw [← h]
        exact forall_mem_nil _
      · exact .inl h.symm
    · right
      -- the lines of the text are the joined ones, and an empty one if it ends with a break
      have hsplit : (t.splitOn nl).dropLast ⊆ nonEmpty nl t := by
        rcases h with h | h
        · grind [splitOn_join, dropLast_subset]
        · have hall : t.splitOn nl = nonEmpty nl t ++ [[]] := by
            conv_lhs => rw [← h, splitOn_append_cons, splitOn_join hlines hnone]
            rfl
          grind
      intro l hl
      exact (mem_nonEmpty (hsplit hl)).1
  · rintro (rfl | h)
    · right
      have hnone : nonEmpty nl [nl] = [] := nonEmpty_append_cons [] []
      rw [hnone]
      rfl
    · have hne : t.splitOn nl ≠ [] := splitOnP_ne_nil _ t
      have hjoin : join nl (t.splitOn nl) = t := intercalate_splitOn nl
      have hsplit := dropLast_concat_getLast hne
      generalize (t.splitOn nl).getLast hne = last at hsplit
      have hkept : (t.splitOn nl).dropLast.filter (· ≠ []) = (t.splitOn nl).dropLast := by
        rw [filter_eq_self]
        intro l hl
        simpa using h l hl
      have hnonEmpty : nonEmpty nl t = (t.splitOn nl).dropLast ++ [last].filter (· ≠ []) := by
        conv_lhs => rw [nonEmpty, ← hsplit, filter_append]
        rw [hkept]
      by_cases hlast : last = []
      · subst hlast
        rw [hnonEmpty]
        generalize (t.splitOn nl).dropLast = init at hsplit
        rw [← hsplit] at hjoin
        cases init with
        | nil => exact .inl hjoin
        | cons l init =>
          right
          rw [← hjoin, join_concat_nil (cons_ne_nil l init)]
          simp
      · left
        grind

/-- Segments that are split on their own and joined again give the whole text exactly if it
has no empty line and no line goes on from one segment to another. -/
theorem upToBreak_segments_iff (ps : List (List α)) :
    UpToBreak nl (join nl (ps.flatMap (nonEmpty nl))) ps.flatten ↔
      NoBlankLine nl ps.flatten ∧ CutsAtLineEnds nl ps := by
  have hlines : ∀ l ∈ ps.flatMap (nonEmpty nl), l ≠ [] ∧ nl ∉ l := by
    intro l hl
    obtain ⟨p, -, hp⟩ := mem_flatMap.mp hl
    exact mem_nonEmpty hp
  constructor
  · intro h
    have hsame : nonEmpty nl ps.flatten = ps.flatMap (nonEmpty nl) := by
      rcases h with h | h
      · rw [← h, nonEmpty_join hlines]
      · rw [← h, nonEmpty_append_cons, nonEmpty_nil, append_nil, nonEmpty_join hlines]
    grind [upToBreak_join_iff, nonEmpty_flatten_iff]
  · rintro ⟨hblank, hcuts⟩
    rw [← (nonEmpty_flatten_iff ps).mpr hcuts, upToBreak_join_iff]
    exact hblank

end Segments

end DbAgent.Lines
