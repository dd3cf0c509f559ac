import DbAgent.RedactionCompleteness
import DbAgent.StructuredRedaction

/-! What a second pass of the filter finds: each of the two replacements leaves nothing to itself,
and the first one nothing to the second, but the second one can join a new URL. -/
namespace DbAgent.Redact

open Scan List Cell Pattern GoValue

variable {α : Type} {A : Alphabet α} {t : List α}

section Mark

theorem mark_stars (A : Alphabet α) :
    ∃ a m b, A.mark = a :: (m ++ [b]) ∧ A.look a = '*' ∧ A.look b = '*' := by
  have hlook : A.mark.map A.look = '*' :: ("**REDACTED**".toList ++ ['*']) := A.mark_look
  obtain ⟨a, r, hmark, ha, hr⟩ := map_eq_cons_iff.mp hlook
  obtain ⟨m, l, rfl, -, hl⟩ := map_eq_append_iff.mp hr
  grind [map_eq_singleton_iff]

end Mark

section Pairs

theorem head?_redactPairs (t : List α) : (redactPairs A t).head? = t.head? := by
  induction t using kv_induction A.look with
  | nil => rfl
  | skip c cs hm _ => rw [redactPairs_skip hm, List.head?_cons, List.head?_cons]
  | hit p rest hp hm _ =>
    obtain ⟨c, l, hkey⟩ := exists_cons_of_ne_nil (Pair.key_ne hp)
    rw [redactPairs_hit hm, Pair.text_lead, Pair.lead, hkey]
    rfl

theorem redactPairs_parts (t : List α) : redactPairs A t = t ∨ ∃ x c y z, t = x ++ c :: y ∧
    isValueChar (A.look c) = true ∧ redactPairs A t = x ++ (A.mark ++ z) := by
  induction t using kv_induction A.look with
  | nil => exact Or.inl rfl
  | skip c cs hm ih => grind [redactPairs_skip]
  | hit p rest hp hm _ =>
    obtain ⟨c, l, hvalue⟩ := exists_cons_of_ne_nil hp.value_ne
    refine Or.inr ⟨p.lead, c, l ++ rest, redactPairs A rest, ?_, ?_, redactPairs_hit hm⟩
    · rw [Pair.text_lead, hvalue, cons_append]
    · exact hp.value c (by grind)

theorem kv_marked (t : List α) : ∀ h ∈ (kv A.look).findAll (redactPairs A t), h.third = A.mark := by
  obtain ⟨star, m, last, hmark, hstar, -⟩ := mark_stars A
  induction t using kv_induction A.look with
  | nil => exact forall_mem_nil _
  | skip c cs hm ih =>
    have hnone : (kv A.look).matchAt (c :: redactPairs A cs) = none := by
      rcases redactPairs_parts (A := A) cs with hsame | ⟨x, d, y, z, hcs, hd, hparts⟩
      · grind
      · cases hfound : (kv A.look).matchAt (c :: redactPairs A cs) with
        | none => rfl
        | some g =>
          obtain ⟨g, rest⟩ := g
          obtain ⟨p, hp, rfl⟩ := kv_matches.mp (matchAt_matches hfound)
          -- no lead goes on with the star of the placeholder
          have htext : (c :: x) ++ star :: (m ++ [last] ++ z) = p.lead ++ (p.value ++ rest) := by
            rw [← Pair.text_lead, ← matchAt_eq hfound, hparts, hmark]
            rfl
          have hlead := Pair.lead_le_of_notMem htext (Pair.notMem_lead hp hstar (by decide))
          grind [kv_matchAt_shared]
    rw [redactPairs_skip hm, findAll_skip hnone]
    exact ih
  | hit p rest hp hm ih =>
    let q : Pair α := { p with value := A.mark }
    have hq : q.Ok A.look :=
      { hp with
        value_ne := by grind
        value := mark_value }
    have heq : redactPairs A (p.hit.text ++ rest) = q.hit.text ++ redactPairs A rest := by
      rw [redactPairs_hit hm, Pair.text_lead]
      rfl
    have hrest : ∀ c ∈ (redactPairs A rest).head?, isValueChar (A.look c) = false := by
      rw [head?_redactPairs]
      exact kv_matchAt_rest hm
    rw [heq, findAll_hit kv_nonempty (kv_matchAt hq hrest), forall_mem_cons]
    exact ⟨rfl, ih⟩

theorem redactPairs_of_marked (h : ∀ g ∈ (kv A.look).findAll t, g.third = A.mark) :
    redactPairs A t = t := by
  induction t using kv_induction A.look with
  | nil => rfl
  | skip c cs hm ih =>
    rw [findAll_skip hm] at h
    rw [redactPairs_skip hm, ih h]
  | hit p rest hp hm ih =>
    rw [findAll_hit kv_nonempty hm, forall_mem_cons] at h
    rw [redactPairs_hit hm, Pair.text_lead, ih h.2, ← show p.value = A.mark from h.1]

end Pairs

section Urls

end Urls

variable {cs : List (Cell α)}

section Image

theorem keep_image {l b : List α} (h : cs.flatMap (image A.mark) = l ++ b)
    (hl : ∀ c ∈ l, A.look c ≠ '*') :
    ∃ cs', cs = l.map .keep ++ cs' ∧ cs'.flatMap (image A.mark) = b := by
  obtain ⟨star, m, last, hmark, hstar, -⟩ := mark_stars A
  induction l generalizing cs with
  | nil => exact ⟨cs, rfl, h⟩
  | cons d l ih =>
    obtain ⟨hd, hrest⟩ := forall_mem_cons.mp hl
    cases cs with
    | nil => cases h
    | cons x cs =>
      cases x with
      | keep e =>
        obtain ⟨rfl, htail⟩ := List.cons.inj h
        obtain ⟨cs', rfl, hb⟩ := ih htail hrest
        exact ⟨cs', rfl, hb⟩
      | cut w => grind [image]

theorem image_factor {a l b : List α} (h : cs.flatMap (image A.mark) = a ++ (l ++ b))
    (hl : ∀ c ∈ l, A.look c ≠ '*') :
    l <:+: A.mark ∨ ∃ cs₁ cs₂, cs = cs₁ ++ (l.map .keep ++ cs₂) ∧
      cs₂.flatMap (image A.mark) = b := by
  obtain ⟨star, m, last, hmark, -, hlast⟩ := mark_stars A
  induction cs generalizing a with
  | nil => grind
  | cons x cs ih =>
    -- the factor begins with this cell, or behind it
    have hhere (hnil : (x :: cs).flatMap (image A.mark) = l ++ b) :
        ∃ cs₁ cs₂, x :: cs = cs₁ ++ (l.map .keep ++ cs₂) ∧
          cs₂.flatMap (image A.mark) = b := by
      obtain ⟨cs', hcs, hb⟩ := keep_image hnil hl
      exact ⟨[], cs', hcs, hb⟩
    have hlater (a' : List α) (hcs : cs.flatMap (image A.mark) = a' ++ (l ++ b)) :
        l <:+: A.mark ∨ ∃ cs₁ cs₂, x :: cs = cs₁ ++ (l.map .keep ++ cs₂) ∧
          cs₂.flatMap (image A.mark) = b := by
      rcases ih hcs with hin | ⟨cs₁, cs₂, hsplit, hb⟩
      · exact Or.inl hin
      · grind
    cases x with
    | keep e =>
      cases a with
      | nil => exact Or.inr (hhere h)
      | cons d a => exact hlater a (List.cons.inj h).2
    | cut w =>
      have hcut : A.mark ++ cs.flatMap (image A.mark) = a ++ (l ++ b) := h
      rcases append_eq_append_iff.mp hcut with ⟨a', rfl, hcs⟩ | ⟨r, hr, hlb⟩
      · exact hlater a' hcs
      · rcases append_eq_append_iff.mp hlb with ⟨r', rfl, -⟩ | ⟨l', hl', hcs⟩
        · grind
        · -- the last star of the placeholder is not in the factor
          rcases eq_nil_or_concat r with rfl | ⟨r', e, rfl⟩
          · grind
          · have hends : (star :: m) ++ [last] = (a ++ r') ++ [e] := by
              rw [append_assoc]
              simpa [hmark] using hr
            have hlast' : last = e := by simpa using (append_inj' hends rfl).2
            grind

theorem hasTrigger_redactURLs {U : Unicode} (h : hasTrigger U A (redactURLs A t) = true) :
    hasTrigger U A t = true := by
  have hfactor (s : List α) : hasTrigger U A s = true ↔
      ∃ a l b, s = a ++ (l ++ b) ∧ toLower U A l ∈ triggers := by
    rw [hasTrigger, any_eq_true]
    constructor
    · rintro ⟨w, hw, hin⟩
      obtain ⟨a, b, hab⟩ := (containsText_iff _ _).mp hin
      rw [append_assoc] at hab
      obtain ⟨a', r, rfl, -, hr⟩ := map_eq_append_iff.mp hab.symm
      grind [map_eq_append_iff, toLower]
    · grind [containsText_iff, toLower]
  have hmark : hasTrigger U A A.mark = false := by
    have hlower : toLower U A A.mark = Placeholder.map Char.toLower := by
      rw [← A.mark_look, map_map]
      apply map_congr_left
      intro c hc
      apply U.lower_ascii
      exact of_decide_eq_true (mark_class (p := fun d => decide (d.toNat < 128)) (by decide) c hc)
    rw [hasTrigger, hlower]
    decide
  obtain ⟨a, l, b, heq, hl⟩ := (hfactor _).mp h
  have hstar : ∀ c ∈ l, A.look c ≠ '*' := by
    intro c hc hlook
    have hnone : ∀ w ∈ triggers, '*' ∉ w := by decide
    apply hnone _ hl
    have hlow : U.lower (A.look c) = '*' := by
      rw [hlook]
      exact U.lower_ascii '*' (by decide)
    rw [← hlow]
    exact mem_map_of_mem hc
  rw [image_of_cells rfl] at heq
  rcases image_factor heq hstar with ⟨x, y, hxy⟩ | ⟨cs₁, cs₂, hcells, -⟩
  · grind
  · apply (hfactor t).mpr
    refine ⟨cs₁.flatMap Cell.text, l, cs₂.flatMap Cell.text, ?_, hl⟩
    rw [← text_cells (P := url A.look) url_nonempty t, hcells, flatMap_append,
      flatMap_append, Cell.text_keep]

end Image

section Joins

end Joins

section Settled

variable {U : Unicode} [DecidableEq α]

end Settled

section Flags

variable {U : Unicode}

end Flags

section Values

variable {ν : Type} {U : Unicode}

/-- The strings that the filter scans: those that are not below a secret key and do not stand
behind a secret flag. -/
inductive Scans (U : Unicode) : GoValue ν → List Symbol → Prop where
  | string (s : List Symbol) : Scans U (.string s) s
  | elem (type : Container) {n : ℕ} (elems : Fin n → GoValue ν) (j : Fin n) (s : List Symbol)
      (hj : ¬Follows U elems j) (hs : Scans U (elems j) s) : Scans U (.slice type n elems) s
  | member (type : Container) {keys : Finset (List Symbol)} (vals : {k // k ∈ keys} → GoValue ν)
      (k : {k // k ∈ keys}) (s : List Symbol) (hk : keyMatchesPattern U goString k.1 = false)
      (hs : Scans U (vals k) s) : Scans U (.map type keys vals) s

/-- A second scan of these strings changes nothing. -/
def Settled (U : Unicode) (v : GoValue ν) : Prop :=
  ∀ s, Scans U v s → (string U goString (string U goString s).1).1 = (string U goString s).1

end Values

section Fixpoint

variable {ν : Type}

end Fixpoint

end DbAgent.Redact
