import DbAgent.RedactionCompleteness

/-! What becomes of the secrets of a text that is cut before it is redacted. The symbols of the
text are told apart, and the cut may leave a piece of the symbol that it goes through. -/
namespace DbAgent.Redact

open Scan List Pattern

variable {α : Type} {A : Alphabet α}

section Urls

theorem head?_redactURLs (t : List α) : (redactURLs A t).head? = t.head? := by
  induction t using url_induction A.look with
  | nil => rfl
  | skip c cs hm _ => rw [redactURLs_skip hm, List.head?_cons, List.head?_cons]
  | hit u rest hu _ =>
    obtain ⟨c, l, hscheme, -⟩ := hu.letter
    rw [redactURLs_hit hu]
    simp [Hit.text, Url.hit, hscheme]

theorem redactURLs_of_no_sign {t : List α} (h : ∀ c ∈ t, A.look c ≠ '@') : redactURLs A t = t := by
  apply replaceAll_of_findAll url_nonempty
  apply eq_nil_iff_forall_not_mem.mpr
  intro g hg
  obtain ⟨u, hu, -, a, rest, rfl⟩ := url_of_mem hg
  exact h u.sign (by simp [Hit.text, Url.hit]) hu.sign

theorem Url.text_concat (u : Url α) : u.hit.text = (u.hit.first ++ u.password) ++ [u.sign] := by
  simp [Hit.text, Url.hit]

theorem Url.sign_mem {u : Url α} {x y : List α} (h : u.hit.text = x ++ y) (hy : y ≠ []) :
    u.sign ∈ y := by
  have hlast := congrArg getLast? h
  rw [Url.text_concat, getLast?_concat, getLast?_append_of_ne_nil x hy] at hlast
  exact mem_of_getLast? hlast.symm

theorem Url.no_sign {u : Url α} (hu : u.Ok A.look) {x y : List α} (h : u.hit.text = x ++ y)
    (hy : y ≠ []) : ∀ c ∈ x, A.look c ≠ '@' := by
  have hdrop := congrArg List.dropLast h
  rw [Url.text_concat, dropLast_concat, dropLast_append_of_ne_nil hy] at hdrop
  have hx : x ⊆ u.hit.first ++ u.password := by
    rw [hdrop]
    exact subset_append_left _ _
  intro c hc hsign
  have hmem := hx hc
  simp only [Url.hit, mem_append, mem_cons, not_mem_nil, or_false] at hmem
  have hother {d : Char} (hd : A.look c = d) (hne : d ≠ '@') : False := hne (hd.symm.trans hsign)
  rcases hmem with (hmem | rfl | rfl | rfl | hmem | rfl) | hmem
  · exact not_class (hu.scheme c hmem) hsign (by decide)
  · exact hother hu.colon (by decide)
  · exact hother hu.slash₁ (by decide)
  · exact hother hu.slash₂ (by decide)
  · exact not_class (hu.user c hmem) hsign (by decide)
  · exact hother hu.colon₂ (by decide)
  · exact not_class (hu.password c hmem) hsign (by decide)

theorem Url.before {u : Url α} (hu : u.Ok A.look) {x e rest : List α}
    (h : u.hit.text ++ rest = x ++ e) (he : ∀ c ∈ e, A.look c ≠ '@') : u.hit.text <+: x := by
  rcases append_eq_append_iff.mp h with ⟨y, hy, -⟩ | ⟨y, hy, htail⟩
  · exact ⟨y, hy.symm⟩
  · by_cases hempty : y = []
    · grind
    · refine absurd hu.sign (he u.sign ?_)
      rw [htail]
      exact mem_append_left _ (Url.sign_mem hy hempty)

/-- The redacted forms of a text and of a head of it part at the cut, or at the password that
the cut goes through. -/
theorem redactURLs_cut {x r e : List α} (he : ∀ c ∈ e, A.look c ≠ '@') :
    ∃ w y z, redactURLs A (x ++ r) = w ++ y ∧ redactURLs A (x ++ e) = w ++ z ∧
      (∀ c ∈ y, c ∈ r ∨ c ∈ A.mark) ∧ ((y.head? = r.head? ∧ z = e) ∨
        ∃ h ∈ (url A.look).findAll (x ++ r), ∀ c ∈ r.head?, c ∈ h.second ∨ A.look c = '@') := by
  generalize ht : x ++ r = t
  induction t using url_induction A.look generalizing x with
  | nil =>
    obtain ⟨rfl, rfl⟩ := append_eq_nil_iff.mp ht
    exact ⟨[], [], e, rfl, redactURLs_of_no_sign he, forall_mem_nil _, Or.inl ⟨rfl, rfl⟩⟩
  | skip c cs hm ih =>
    cases x with
    | nil =>
      rw [nil_append] at ht
      rw [← ht]
      exact ⟨[], redactURLs A r, e, rfl, redactURLs_of_no_sign he, fun d => mem_redactURLs,
        Or.inl ⟨head?_redactURLs r, rfl⟩⟩
    | cons d x =>
      obtain ⟨rfl, hcs⟩ := List.cons.inj ht
      obtain ⟨w, y, z, hfull, hhead, hy, hpart⟩ := ih hcs
      have hnone : (url A.look).matchAt (d :: (x ++ e)) = none := by
        cases hfound : (url A.look).matchAt (d :: (x ++ e)) with
        | none => rfl
        | some g =>
          obtain ⟨g, rest⟩ := g
          obtain ⟨n, hn, rfl⟩ := url_matches.mp (matchAt_matches hfound)
          have htext : n.hit.text ++ rest = (d :: x) ++ e := (matchAt_eq hfound).symm
          obtain ⟨b, hb⟩ := Url.before hn htext he
          grind [append_assoc, matchAt_isSome, url_matches]
      refine ⟨d :: w, y, z, ?_, ?_, hy, ?_⟩
      · rw [redactURLs_skip hm, hfull, cons_append]
      · rw [cons_append, redactURLs_skip hnone, hhead, cons_append]
      · rw [findAll_skip hm]
        exact hpart
  | hit u rest hu ih =>
    have hfull := redactURLs_hit hu rest
    -- the match stands before the cut
    have hwhole (b : List α) (hx : x = u.hit.text ++ b) (hrest : b ++ r = rest) :
        ∃ w y z, redactURLs A (u.hit.text ++ rest) = w ++ y ∧ redactURLs A (x ++ e) = w ++ z ∧
          (∀ c ∈ y, c ∈ r ∨ c ∈ A.mark) ∧ ((y.head? = r.head? ∧ z = e) ∨
            ∃ h ∈ (url A.look).findAll (u.hit.text ++ rest),
              ∀ c ∈ r.head?, c ∈ h.second ∨ A.look c = '@') := by
      obtain ⟨w, y, z, hw, hz, hy, hpart⟩ := ih hrest
      refine ⟨u.hit.first ++ (A.mark ++ u.sign :: w), y, z, ?_, ?_, hy, ?_⟩
      · rw [hfull, hw]
        simp
      · rw [hx, append_assoc, redactURLs_hit hu, hz]
        simp
      · rw [findAll_hit url_nonempty (url_matchAt hu)]
        grind
    have hself : u.hit ∈ (url A.look).findAll (u.hit.text ++ rest) := by
      rw [findAll_hit url_nonempty (url_matchAt hu)]
      exact mem_cons_self
    rcases append_eq_append_iff.mp ht with ⟨a, hx, hr⟩ | ⟨b, hx, hr⟩
    · by_cases ha : a = []
      · rw [ha, append_nil] at hx
        rw [ha, nil_append] at hr
        exact hwhole [] (by rw [hx, append_nil]) hr
      · have hhead : redactURLs A (x ++ e) = x ++ e := by
          apply redactURLs_of_no_sign
          rw [forall_mem_append]
          exact ⟨Url.no_sign hu hx ha, he⟩
        have hmem (c : α) (hc : c ∈ redactURLs A rest) : c ∈ r ∨ c ∈ A.mark := by
          rcases mem_redactURLs hc with hc | hc
          · grind
          · exact Or.inr hc
        have htext : u.hit.first ++ (u.password ++ [u.sign]) = x ++ a := by
          rw [← hx]
          rfl
        rcases append_eq_append_iff.mp htext with ⟨w, rfl, ha'⟩ | ⟨f, hfirst, ha'⟩
        · -- the cut goes through the password, or stands before the `@`
          have hsign : u.sign ∈ a := Url.sign_mem hx ha
          refine ⟨u.hit.first, A.mark ++ u.sign :: redactURLs A rest, w ++ e, hfull, ?_, ?_,
            Or.inr ⟨u.hit, hself, ?_⟩⟩
          · rw [hhead, append_assoc]
          · grind
          · intro c hc
            rw [hr, List.head?_append_of_ne_nil a ha] at hc
            have hin : c ∈ u.password ++ [u.sign] := by
              rw [ha']
              exact mem_append_right _ (mem_of_mem_head? hc)
            rw [mem_append, mem_singleton] at hin
            rcases hin with hin | rfl
            · exact Or.inl hin
            · exact Or.inr hu.sign
        · -- the cut goes through what stands before the password
          refine ⟨x, f ++ (A.mark ++ u.sign :: redactURLs A rest), e, ?_, hhead, ?_, ?_⟩
          · rw [hfull, hfirst, append_assoc]
          · grind
          · cases f with
            | cons d f => grind
            | nil =>
              right
              refine ⟨u.hit, hself, ?_⟩
              intro c hc
              obtain ⟨d, l, hpw⟩ := exists_cons_of_ne_nil hu.password_ne
              left
              rw [hr, ha', hpw] at hc
              rw [← Option.some.inj hc]
              change d ∈ u.password
              grind
    · exact hwhole b hx hr.symm

end Urls

variable [DecidableEq α]

/-- A text that is cut in two, with what is left of the symbol that the cut goes through. -/
structure Cut (A : Alphabet α) where
  before : List α
  behind : List α
  piece : List α
  piece_look : ∀ c ∈ piece, A.look c = '�'
  through : piece ≠ [] → ∀ c ∈ behind.head?, A.look c ≠ '@'
  text_distinct : Distinct A (before ++ behind)
  head_distinct : Distinct A (before ++ piece)

namespace Cut

def text (C : Cut A) : List α := C.before ++ C.behind

def head (C : Cut A) : List α := C.before ++ C.piece

def Shows (C : Cut A) (c s : α) : Prop :=
  (s ∈ C.before ∧ c = s) ∨ (s ∈ C.piece ∧ c ∈ C.behind.head?)

def Hides (U : Unicode) (C : Cut A) : Prop :=
  ∀ c s, C.Shows c s → c ∉ (string U A C.text).1 → s ∉ (string U A C.head).1

/-- When that is so: a password whose end is cut off is in the value of a pair of the head, and
the head has a trigger if it has a value of a pair of the text. -/
structure Harmless (U : Unicode) (C : Cut A) : Prop where
  urls : ∀ h ∈ (url A.look).findAll C.text, ¬h.third ⊆ C.before → ∀ c ∈ h.second, ∀ s,
    C.Shows c s → hasTrigger U A C.head = true ∧
      ∃ g ∈ (kv A.look).findAll (redactURLs A C.head), s ∈ g.third
  pairs : hasTrigger U A C.text = true → hasTrigger U A C.head = true ∨
    ∀ h ∈ (kv A.look).findAll (redactURLs A C.text), ∀ c ∈ h.third, ∀ s, ¬C.Shows c s

theorem distinct_text (C : Cut A) : Distinct A C.text := C.text_distinct

theorem distinct_head (C : Cut A) : Distinct A C.head := C.head_distinct

variable {U : Unicode} {C : Cut A} {c s : α}

theorem Shows.mem_text (h : C.Shows c s) : c ∈ C.text := by
  rcases h with ⟨hs, rfl⟩ | ⟨-, hc⟩
  · exact mem_append_left _ hs
  · exact mem_append_right _ (mem_of_mem_head? hc)

theorem Shows.mem_head (h : C.Shows c s) : s ∈ C.head := by
  rcases h with ⟨hs, -⟩ | ⟨hs, -⟩
  · exact mem_append_left _ hs
  · exact mem_append_right _ hs

theorem gone_text_iff (hc : c ∈ C.text) : c ∉ (string U A C.text).1 ↔
    (∃ h ∈ (url A.look).findAll C.text, c ∈ h.second) ∨ (hasTrigger U A C.text = true ∧
      ∃ h ∈ (kv A.look).findAll (redactURLs A C.text), c ∈ h.third) :=
  gone_iff (C.distinct_text.fresh c hc) (C.distinct_text.once c hc)

theorem gone_head_iff (hs : s ∈ C.head) : s ∉ (string U A C.head).1 ↔
    (∃ h ∈ (url A.look).findAll C.head, s ∈ h.second) ∨ (hasTrigger U A C.head = true ∧
      ∃ h ∈ (kv A.look).findAll (redactURLs A C.head), s ∈ h.third) :=
  gone_iff (C.distinct_head.fresh s hs) (C.distinct_head.once s hs)

theorem piece_class {p : Char → Bool} (hp : p '�' = true) : ∀ d ∈ C.piece, p (A.look d) = true := by
  intro d hd
  rw [C.piece_look d hd]
  exact hp

theorem notMem_before (hc : c ∈ C.behind) : c ∉ C.before := by
  intro hin
  have honce := C.text_distinct.once c (mem_append_right _ hc)
  grind

theorem notMem_password {t x y : List α} (hd : Distinct A t) (ht : t = x ++ s :: y)
    (hy : ∀ d ∈ y, isPasswordChar (A.look d) = true) :
    ∀ h ∈ (url A.look).findAll t, s ∉ h.second := by
  intro h hh hs
  obtain ⟨u, hu, rfl, a, rest, htext⟩ := url_of_mem hh
  obtain ⟨y', z', hpw⟩ := append_of_mem (show s ∈ u.password from hs)
  have hsplit : x ++ s :: y = (a ++ (u.hit.first ++ y')) ++ s :: (z' ++ u.sign :: rest) := by
    rw [← ht, htext, Url.text_concat, hpw]
    simp
  have honce := hd.once s (by rw [ht]; simp)
  rw [ht] at honce
  obtain ⟨-, rfl⟩ := split_unique honce hsplit
  exact not_class (hy u.sign (by simp)) hu.sign (by decide)

/-- A symbol of a password is in the head with the whole match, or only symbols of the password
follow it there. -/
theorem password_place {h : Hit α} (hh : h ∈ (url A.look).findAll C.text) (hc : c ∈ h.second)
    (hshow : C.Shows c s) :
    (h.third ⊆ C.before ∧ ∃ g ∈ (url A.look).findAll C.head, s ∈ g.second) ∨
    (¬h.third ⊆ C.before ∧ ∃ x y, C.head = x ++ s :: y ∧
      ∀ d ∈ y, isPasswordChar (A.look d) = true) := by
  obtain ⟨u, hu, rfl, a, rest, htext⟩ := url_of_mem hh
  obtain ⟨y₁, z₁, hpw⟩ := append_of_mem (show c ∈ u.password from hc)
  have honce := C.distinct_text.once c hshow.mem_text
  have hplace : C.text = (a ++ (u.hit.first ++ y₁)) ++ c :: (z₁ ++ u.sign :: rest) := by
    rw [htext, Url.text_concat, hpw]
    simp
  have hcut (hsign : u.sign ∈ C.behind) : ¬u.hit.third ⊆ C.before := by
    intro hsub
    exact notMem_before hsign (hsub (show u.sign ∈ [u.sign] from mem_singleton_self _))
  rcases hshow with ⟨hs, rfl⟩ | ⟨hs, hhead⟩
  · obtain ⟨b₁, b₂, hbefore⟩ := append_of_mem hs
    have hsplit : b₁ ++ c :: (b₂ ++ C.behind) =
        (a ++ (u.hit.first ++ y₁)) ++ c :: (z₁ ++ u.sign :: rest) := by
      rw [← hplace, text, hbefore]
      simp
    have honce' : (b₁ ++ c :: (b₂ ++ C.behind)).count c = 1 := by
      rw [hsplit, ← hplace]
      exact honce
    obtain ⟨rfl, htail⟩ := split_unique honce' hsplit
    rcases Regex.split_append htail.symm with ⟨z', rfl, -⟩ | ⟨y', rfl, hbehind⟩
    · -- the end of the match stands before the cut
      left
      constructor
      · intro d hd
        rw [mem_singleton.mp (show d ∈ [u.sign] from hd), hbefore]
        simp
      · have hhead : C.head = a ++ (u.hit.text ++ (z' ++ C.piece)) := by
          rw [head, hbefore, Url.text_concat, hpw]
          simp
        obtain ⟨g, hg, hsecond⟩ := url_covered hu a (z' ++ C.piece)
        grind
    · right
      refine ⟨hcut (by rw [hbehind]; simp), a ++ (u.hit.first ++ y₁), b₂ ++ C.piece, ?_, ?_⟩
      · rw [head, hbefore, append_assoc, cons_append]
      · rw [forall_mem_append]
        refine ⟨fun d hd => hu.password d ?_, piece_class (by decide)⟩
        rw [hpw]
        simp [hd]
  · right
    obtain ⟨p₁, p₂, hpiece⟩ := append_of_mem hs
    cases hbehind : C.behind with
    | nil =>
      rw [hbehind] at hhead
      cases hhead
    | cons e r =>
      rw [hbehind] at hhead
      obtain rfl := Option.some.inj hhead
      have hsplit : C.before ++ e :: r =
          (a ++ (u.hit.first ++ y₁)) ++ e :: (z₁ ++ u.sign :: rest) := by
        rw [← hplace, text, hbehind]
      have honce' : (C.before ++ e :: r).count e = 1 := by
        rw [hsplit, ← hplace]
        exact honce
      obtain ⟨-, rfl⟩ := split_unique honce' hsplit
      refine ⟨hcut (by rw [hbehind]; simp), C.before ++ p₁, p₂, ?_, ?_⟩
      · rw [head, hpiece, append_assoc]
      · intro d hd
        exact piece_class (by decide) d (by rw [hpiece]; simp [hd])

theorem value_place {h : Hit α} (hh : h ∈ (kv A.look).findAll (redactURLs A C.text))
    (hc : c ∈ h.third) (hshow : C.Shows c s) : s ∈ redactURLs A C.head ∧
      ∃ g ∈ (kv A.look).findAll (redactURLs A C.head), s ∈ g.third := by
  obtain ⟨x, y', hfull, htaken⟩ := taken_of_mem kv_nonempty hh hc
  have hmem : c ∈ redactURLs A C.text := by
    rw [hfull]
    simp
  obtain ⟨hcount, hnot⟩ := kept (C.distinct_text.fresh c hshow.mem_text)
    (C.distinct_text.once c hshow.mem_text) hmem
  rw [hfull] at hcount
  obtain ⟨⟨_, _, heq, hvalue⟩, -⟩ := kv_taken htaken
  obtain ⟨rfl, -⟩ := List.cons.inj heq
  have hsign : ∀ d ∈ C.piece, A.look d ≠ '@' := by
    intro d hd
    rw [C.piece_look d hd]
    decide
  obtain ⟨w, y, z, htext, hhead, hy, hpart⟩ := redactURLs_cut (x := C.before) (r := C.behind) hsign
  have hsame := hfull.symm.trans htext
  rcases hshow with ⟨hs, rfl⟩ | ⟨hs, hbehind⟩
  · have hcw : c ∈ w := by
      have hin : c ∈ w ++ y := htext ▸ hmem
      rcases mem_append.mp hin with hin | hin
      · exact hin
      · rcases hy c hin with hin | hin
        · exact absurd hs (notMem_before hin)
        · exact absurd hin (C.distinct_text.fresh c (mem_append_left _ hs))
    obtain ⟨w₁, w₂, rfl⟩ := append_of_mem hcw
    rw [append_assoc, cons_append] at hsame hhead
    obtain ⟨rfl, -⟩ := split_unique hcount hsame
    obtain ⟨g, hg, hsub⟩ := kv_taken_run htaken (y := w₂ ++ z) hvalue
    have hrun : c ∈ (c :: (w₂ ++ z)).takeWhile (isValueChar ∘ A.look) := by
      rw [takeWhile_cons_of_pos (by simpa using hvalue)]
      exact mem_cons_self
    change c ∈ redactURLs A (C.before ++ C.piece) ∧
      ∃ g ∈ (kv A.look).findAll (redactURLs A (C.before ++ C.piece)), _
    grind
  · rcases hpart with ⟨hyhead, rfl⟩ | ⟨g, hg, hcut⟩
    · obtain ⟨y₂, rfl⟩ : ∃ y₂, y = c :: y₂ := List.head?_eq_some_iff.mp (hyhead.trans hbehind)
      obtain ⟨rfl, -⟩ := split_unique hcount hsame
      obtain ⟨d, l, hpiece⟩ := exists_cons_of_ne_nil (ne_nil_of_mem hs)
      have hall : ∀ e ∈ C.piece, (isValueChar ∘ A.look) e = true := piece_class (by decide)
      obtain ⟨g, hg, hsub⟩ := kv_taken_run htaken (y := l)
        (hall d (by rw [hpiece]; exact mem_cons_self))
      rw [← hpiece] at hg hsub
      have hrun : s ∈ C.piece.takeWhile (isValueChar ∘ A.look) := by
        rw [takeWhile_eq_self_iff.mpr hall]
        exact hs
      change s ∈ redactURLs A (C.before ++ C.piece) ∧
        ∃ g ∈ (kv A.look).findAll (redactURLs A (C.before ++ C.piece)), _
      grind
    · -- the cut goes through a password, which is not in the value of a pair
      rcases hcut c hbehind with hin | hin
      · exact absurd hin (hnot g hg)
      · exact absurd hin (C.through (ne_nil_of_mem hs) c hbehind)

theorem hides_iff : C.Hides U ↔ C.Harmless U := by
  constructor
  · intro h
    constructor
    · intro g hg hcut c hc s hshow
      have hgone := h c s hshow ((gone_text_iff hshow.mem_text).mpr (Or.inl ⟨g, hg, hc⟩))
      rcases password_place hg hc hshow with ⟨hsub, -⟩ | ⟨-, x, y, hhead, hy⟩
      · exact absurd hsub hcut
      · rcases (gone_head_iff hshow.mem_head).mp hgone with ⟨m, hm, hs⟩ | hfound
        · exact absurd hs (notMem_password C.distinct_head hhead hy m hm)
        · exact hfound
    · intro htrigger
      by_contra hcon
      rw [not_or, Bool.not_eq_true] at hcon
      obtain ⟨hnone, hpairs⟩ := hcon
      apply hpairs
      intro g hg c hc s hshow
      have hgone := h c s hshow ((gone_text_iff hshow.mem_text).mpr (Or.inr ⟨htrigger, g, hg, hc⟩))
      rw [string_text, hnone] at hgone
      exact hgone (value_place hg hc hshow).1
  · intro h c s hshow hgone
    apply (gone_head_iff hshow.mem_head).mpr
    rcases (gone_text_iff hshow.mem_text).mp hgone with ⟨g, hg, hc⟩ | ⟨htrigger, g, hg, hc⟩
    · rcases password_place hg hc hshow with ⟨-, hfound⟩ | ⟨hcut, -⟩
      · exact Or.inl hfound
      · exact Or.inr (h.urls g hg hcut c hc s hshow)
    · rcases h.pairs htrigger with hhead | hnone
      · exact Or.inr ⟨hhead, (value_place hg hc hshow).2⟩
      · exact absurd hshow (hnone g hg c hc s)

end Cut

end DbAgent.Redact
