import DbAgent.RedactionFixpoint

/-! The tests for literal words before the patterns are run, against the patterns alone: `(?i)`
folds the long s to an s, and `strings.ToLower` leaves it as it is. -/
namespace DbAgent.Redact

open Scan List

section Plain

variable {α : Type} (A : Alphabet α)

/-- `urlUserinfoPattern` and then `embeddedKVPattern`, whatever the text has. -/
def plainString [DecidableEq α] (t : List α) : List α × Bool :=
  (redactPairs A (redactURLs A t), redactPairs A (redactURLs A t) ≠ t)

/-- The word stands in the text, in letters that fold to its own. -/
def Written (w t : List Char) : Prop :=
  ∃ o, o <:+: t ∧ List.Forall₂ (fun x c => folds x c = true) w o

/-- The lowercased text has one of the words. -/
def Lowered (U : Unicode) (t : List Char) : Prop := ∃ w ∈ triggers, w <:+: t.map U.lower

end Plain

theorem keyPattern_isMatch (t : List Char) :
    KeyPattern.isMatch t = true ↔ ∃ w ∈ triggers, Written w t := by
  have hmatch (b : List Char) : KeyPattern.Matches b →
      ∃ w ∈ triggers, ∃ o, o <:+: b ∧ (literal w).Matches o := by
    simp only [KeyPattern, Regex.Matches]
    rintro (h | h | h | h | ⟨x, o, rfl, -, h⟩)
    · exact ⟨_, by decide, b, infix_rfl, h⟩
    · exact ⟨_, by decide, b, infix_rfl, h⟩
    · exact ⟨_, by decide, b, infix_rfl, h⟩
    · exact ⟨_, by decide, b, infix_rfl, h⟩
    · exact ⟨_, by decide, o, (suffix_append x o).isInfix, h⟩
  rw [Regex.isMatch_iff]
  constructor
  · rintro ⟨a, b, c, rfl, h⟩
    obtain ⟨w, hw, o, ho, hlit⟩ := hmatch b h
    exact ⟨w, hw, o, ho.trans ⟨a, c, rfl⟩, (literal_matches w o).mp hlit⟩
  · rintro ⟨w, hw, o, ⟨a, c, rfl⟩, hfold⟩
    refine ⟨a, o, c, rfl, ?_⟩
    have hlit := (literal_matches w o).mpr hfold
    simp only [triggers, mem_cons, not_mem_nil, or_false] at hw
    simp only [KeyPattern, Regex.Matches]
    rcases hw with rfl | rfl | rfl | rfl | rfl
    · exact .inl hlit
    · exact .inr (.inl hlit)
    · exact .inr (.inr (.inl hlit))
    · exact .inr (.inr (.inr (.inl hlit)))
    · exact .inr (.inr (.inr (.inr ⟨[], o, rfl, by simp, hlit⟩)))

section FastPath

variable {U : Unicode} {α : Type} {A : Alphabet α} {t : List α}

theorem hasTrigger_iff : hasTrigger U A t = true ↔ Lowered U (t.map A.look) := by
  rw [hasTrigger, any_eq_true, Lowered]
  apply exists_congr
  intro w
  rw [containsText_iff, toLower, map_map]
  rfl

/-- Letters of a word that are no long s are lowercased to the word. -/
theorem map_lower_of_folds {w o : List Char} (hw : w ∈ triggers) (hs : 'ſ' ∉ o)
    (h : List.Forall₂ (fun x c => folds x c = true) w o) : o.map U.lower = w := by
  have hplain : ∀ x ∈ w, x.toNat < 128 ∧ x.toUpper.toNat < 128 ∧ x.toLower = x ∧
      x.toUpper.toLower = x := by
    have hall : triggers.all (·.all fun x => x.toNat < 128 ∧ x.toUpper.toNat < 128 ∧
      x.toLower = x ∧ x.toUpper.toLower = x) = true := by decide
    simpa only [all_eq_true, decide_eq_true_eq] using all_eq_true.mp hall w hw
  clear hw
  induction h with
  | nil => rfl
  | @cons x c w o hxc _ ih =>
    obtain ⟨⟨hx, hX, hlow, hup⟩, hrest⟩ := forall_mem_cons.mp hplain
    obtain ⟨hc, ho⟩ := not_or.mp (mem_cons.not.mp hs)
    rw [map_cons, ih ho hrest, List.cons.injEq, and_iff_left rfl]
    simp only [folds, Bool.or_eq_true, Bool.and_eq_true, beq_iff_eq] at hxc
    rcases hxc with ((rfl | rfl) | ⟨-, rfl⟩) | ⟨rfl, rfl⟩
    · rw [U.lower_ascii _ hx, hlow]
    · rw [U.lower_ascii _ hX, hup]
    · exact absurd rfl hc
    · exact U.lower_kelvin

theorem lowered_of_written {t w : List Char} (hw : w ∈ triggers) (h : Written w t)
    (hs : 'ſ' ∉ t) : Lowered U t := by
  obtain ⟨o, ⟨a, b, rfl⟩, hfold⟩ := h
  have ho : 'ſ' ∉ o := fun hmem => hs (mem_append_left _ (mem_append_right _ hmem))
  refine ⟨w, hw, a.map U.lower, b.map U.lower, ?_⟩
  rw [map_append, map_append, map_lower_of_folds hw ho hfold]

theorem keyMatchesPattern_exact_iff :
    keyMatchesPattern U A t = KeyPattern.isMatch (t.map A.look) ↔
      ((∃ w ∈ triggers, Written w (t.map A.look)) → Lowered U (t.map A.look)) := by
  rw [← keyPattern_isMatch, ← hasTrigger_iff, keyMatchesPattern]
  cases hasTrigger U A t <;> cases KeyPattern.isMatch (t.map A.look) <;> simp

theorem redactPairs_eq_self_iff :
    redactPairs A t = t ↔ ∀ g ∈ (kv A.look).findAll t, g.third = A.mark := by
  constructor
  · intro h
    have hmarked := kv_marked (A := A) t
    rwa [h] at hmarked
  · exact redactPairs_of_marked

theorem string_snd [DecidableEq α] : (string U A t).2 = decide ((string U A t).1 ≠ t) := by
  rw [string]
  split_ifs <;> simp

theorem string_exact_iff [DecidableEq α] : string U A t = plainString A t ↔
    (∀ g ∈ (kv A.look).findAll (redactURLs A t), g.third = A.mark) ∨
      Lowered U (t.map A.look) := by
  rw [← redactPairs_eq_self_iff, ← hasTrigger_iff, Prod.ext_iff, string_snd, string_text,
    plainString]
  cases hasTrigger U A t with
  | true => simp
  | false =>
    simp only [Bool.false_eq_true, if_false, or_false]
    constructor
    · exact fun h => h.1.symm
    · intro h
      rw [h]
      exact ⟨rfl, rfl⟩

/-- A pair that is found has a trigger in its key, and the first replacement brings none. -/
theorem lowered_of_pair (hs : 'ſ' ∉ t.map A.look) {g : Hit α}
    (hg : g ∈ (kv A.look).findAll (redactURLs A t)) : Lowered U (t.map A.look) := by
  obtain ⟨p, hp, -, a, b, hline, -⟩ := kv_of_mem hg
  obtain ⟨x, o, y, hkey, htrigger⟩ := hp.trigger
  obtain ⟨w, hw, hlit⟩ := (anyTrigger_matches _).mp htrigger
  have hsplit : redactURLs A t = (a ++ x) ++ (o ++ (y ++ (p.hit.second ++ p.value ++ b))) := by
    rw [hline]
    simp [Hit.text, Pair.hit, hkey]
  -- the placeholder has no long s either
  have hnone : 'ſ' ∉ (redactURLs A t).map A.look := by
    intro hmem
    obtain ⟨c, hc, hlook⟩ := mem_map.mp hmem
    rcases mem_redactURLs hc with hc | hc
    · exact hs (mem_map.mpr ⟨c, hc, hlook⟩)
    · have hmark := mark_class (A := A) (p := fun d => d ≠ 'ſ') (by decide) c hc
      simp [hlook] at hmark
  have hwritten : Written w ((redactURLs A t).map A.look) := by
    refine ⟨o.map A.look, ?_, (literal_matches w _).mp hlit⟩
    rw [hsplit]
    exact ⟨(a ++ x).map A.look, (y ++ (p.hit.second ++ p.value ++ b)).map A.look, by simp⟩
  rw [← hasTrigger_iff]
  exact hasTrigger_redactURLs (hasTrigger_iff.mpr (lowered_of_written hw hwritten hnone))

end FastPath

/-- Both shortcuts agree with the patterns unless the words that these find are all written with a
long s. -/
theorem fast_paths_exact_iff (U : Unicode) :
    (∀ s : List Symbol, (keyMatchesPattern U goString s = KeyPattern.isMatch (s.map Symbol.rune) ↔
      ((∃ w ∈ triggers, Written w (s.map Symbol.rune)) → Lowered U (s.map Symbol.rune))) ∧
      (string U goString s = plainString goString s ↔
        (∀ g ∈ (kv Symbol.rune).findAll (redactURLs goString s), g.third = goString.mark) ∨
          Lowered U (s.map Symbol.rune))) ∧
    ∀ s : List Symbol, .char 'ſ' ∉ s →
      keyMatchesPattern U goString s = KeyPattern.isMatch (s.map Symbol.rune) ∧
        string U goString s = plainString goString s := by
  refine ⟨fun s => ⟨keyMatchesPattern_exact_iff, string_exact_iff⟩, ?_⟩
  intro s hs
  have hnone : 'ſ' ∉ s.map goString.look := by
    intro hmem
    obtain ⟨c, hc, hlook⟩ := mem_map.mp hmem
    cases c with
    | char c => exact hs ((show c = 'ſ' from hlook) ▸ hc)
    | byte b => exact absurd (show '�' = 'ſ' from hlook) (by decide)
  refine ⟨keyMatchesPattern_exact_iff.mpr ?_, string_exact_iff.mpr ?_⟩
  · rintro ⟨w, hw, hwritten⟩
    exact lowered_of_written hw hwritten hnone
  · by_cases hfound : (kv goString.look).findAll (redactURLs goString s) = []
    · left
      rw [hfound]
      exact forall_mem_nil _
    · obtain ⟨g, hg⟩ := exists_mem_of_ne_nil _ hfound
      exact .inr (lowered_of_pair hnone hg)

/-- A key and a pair that the patterns find and the shortcuts pass over. -/
theorem long_s_passes :
    KeyPattern.isMatch "paſſword".toList = true ∧
      keyMatchesPattern sampleUnicode goString ("paſſword".toList.map .char) = false ∧
      string sampleUnicode goString ("paſſword=hunter2".toList.map .char) =
        ("paſſword=hunter2".toList.map .char, false) ∧
      plainString goString ("paſſword=hunter2".toList.map .char) =
        ("paſſword=***REDACTED***".toList.map .char, true) := by
  decide +kernel

end DbAgent.Redact
