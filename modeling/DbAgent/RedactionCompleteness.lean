import Mathlib.Tactic
import DbAgent.TextRedaction

/-! Which secrets of a line are gone from its redacted form. The symbols of the line are
told apart, so that a symbol of it is gone if it does not occur in the result. -/
namespace DbAgent.Redact

open Scan List Pattern Pair

variable {α : Type} {A : Alphabet α} {v : List α}

variable {p : Pair α} {b a : List α}

section Cells

theorem flank {cs₁ cs₂ : List (Cell α)} {l : List α}
    (h : (url A.look).cells v = cs₁ ++ .cut l :: cs₂) :
    ∃ u : Url α, u.Ok A.look ∧ u.hit ∈ (url A.look).findAll v ∧ l = u.password ∧
      (∃ x, cs₁ = x ++ [.keep u.colon₂]) ∧ ∃ y, cs₂ = .keep u.sign :: y := by
  obtain ⟨g, hg, hl, ⟨x, hx⟩, y, hy⟩ := cut_of_cells url_nonempty h
  obtain ⟨u, hu, rfl, -⟩ := url_of_mem hg
  refine ⟨u, hu, hg, hl, ⟨x ++ (u.scheme ++ u.colon :: u.slash₁ :: u.slash₂ :: u.user).map .keep,
    ?_⟩, y, hy⟩
  rw [hx]
  simp [Url.hit]

theorem keep_through {cs₁ cs₂ : List (Cell α)} (hcells : (url A.look).cells v = cs₁ ++ cs₂)
    (hfirst : ∀ l cs, cs₂ ≠ .cut l :: cs) {l r : List α}
    (htext : cs₂.flatMap Cell.text = l ++ r) (hl : ∀ c ∈ l, A.look c ≠ ':') :
    ∃ cs₃, cs₂ = l.map .keep ++ cs₃ ∧ cs₃.flatMap Cell.text = r ∧ ∀ l' cs, cs₃ ≠ .cut l' :: cs := by
  induction l generalizing cs₁ cs₂ with
  | nil => grind
  | cons d l ih =>
    obtain ⟨hd, hrest⟩ := forall_mem_cons.mp hl
    cases cs₂ with
    | nil => cases htext
    | cons x cs₂ =>
      cases x with
      | cut l' => grind
      | keep e =>
        obtain ⟨rfl, htext'⟩ := List.cons.inj htext
        have hfirst' : ∀ l' cs, cs₂ ≠ .cut l' :: cs := by
          rintro l' cs rfl
          have hcells' : (url A.look).cells v = (cs₁ ++ [.keep e]) ++ .cut l' :: cs := by
            rw [hcells]
            simp
          obtain ⟨u, hu, -, -, ⟨x, hx⟩, -⟩ := flank hcells'
          have hlast := (append_inj' hx rfl).2
          simp only [List.cons.injEq, Cell.keep.injEq, and_true] at hlast
          exact hd (hlast ▸ hu.colon₂)
        have hcells' : (url A.look).cells v = (cs₁ ++ [.keep e]) ++ cs₂ := by
          rw [hcells]
          simp
        obtain ⟨cs₃, rfl, htext₃, hfirst₃⟩ := ih hcells' hfirst' htext' hrest
        exact ⟨cs₃, rfl, htext₃, hfirst₃⟩

theorem eq_nil_of_head {q : α → Bool} {l r t : List α} (h : l ++ r = t)
    (hl : ∀ c ∈ l, q c = true) (ht : ∀ c ∈ t.head?, q c = false) : l = [] := by
  cases l with
  | nil => rfl
  | cons d l =>
    have hd := ht d (by rw [← h]; rfl)
    grind

theorem pair_in_password (hp : p.Ok A.look) {u : Url α} (hu : u.Ok A.look) {x t : List α}
    (hx : ∀ c ∈ x, isPasswordChar (A.look c) = true) (h : p.hit.text ++ b = x ++ u.sign :: t) :
    p.key ⊆ x ∧ ∃ y, y ⊆ x ∧ p.value ++ b = y ++ u.sign :: t := by
  have hhead (y : List α) (hy : ∀ c ∈ y, isPasswordChar (A.look c) = true) :
      ∀ c ∈ (y ++ u.sign :: t).head?, isBlank (A.look c) = false := by
    intro c hc
    cases y with
    | nil =>
      rw [← Option.some.inj hc, hu.sign]
      decide
    | cons d y =>
      rw [← Option.some.inj hc]
      exact not_isBlank_of_isPasswordChar (hy d mem_cons_self)
  have hsign : p.sign ≠ u.sign := by
    intro heq
    have hlook := congrArg A.look heq
    rw [hp.sign, hu.sign] at hlook
    revert hlook
    decide
  rw [text_append] at h
  have hkey : ∃ y, x = p.key ++ y ∧
      p.blank₁ ++ p.sign :: (p.blank₂ ++ (p.value ++ b)) = y ++ u.sign :: t := by
    rcases append_eq_append_iff.mp h with hy | ⟨y, hy, ht⟩
    · exact hy
    · cases y with
      | nil => grind
      | cons e y =>
        obtain ⟨rfl, -⟩ := List.cons.inj ht
        have he := hp.key u.sign (by rw [hy]; simp)
        exact (not_class he hu.sign (by decide)).elim
  obtain ⟨y, rfl, hafter⟩ := hkey
  have hy : ∀ c ∈ y, isPasswordChar (A.look c) = true := fun c hc =>
    hx c (mem_append_right _ hc)
  have hblank₁ := eq_nil_of_head (q := isBlank ∘ A.look) hafter hp.blank₁ (hhead y hy)
  rw [hblank₁, nil_append] at hafter
  cases y with
  | nil => grind
  | cons e y =>
    obtain ⟨rfl, hvalue⟩ := List.cons.inj hafter
    have hblank₂ := eq_nil_of_head (q := isBlank ∘ A.look) hvalue hp.blank₂
      (hhead y fun c hc => hy c (mem_cons_of_mem _ hc))
    grind

theorem pair_place (hp : p.Ok A.look) (hv : v = a ++ (p.hit.text ++ b)) :
    (∃ u : Url α, u.Ok A.look ∧ u.hit ∈ (url A.look).findAll v ∧ p.key ⊆ u.password ∧
      ∃ cs₁ cs₂ y, (url A.look).cells v = cs₁ ++ .cut u.password :: .keep u.sign :: cs₂ ∧
        y ⊆ u.password ∧ p.value ++ b = y ++ u.sign :: cs₂.flatMap Cell.text) ∨
    ∃ cs₁ c l cs₂, (url A.look).cells v =
        cs₁ ++ ((p.key ++ (p.blank₁ ++ p.sign :: p.blank₂)).map .keep ++ .keep c :: cs₂) ∧
      p.value = c :: l ∧ cs₂.flatMap Cell.text = l ++ b := by
  have hinside (cs₁ cs₂ : List (Cell α)) (l₁ l₂ : List α)
      (hcells : (url A.look).cells v = cs₁ ++ .cut (l₁ ++ l₂) :: cs₂)
      (hb : p.hit.text ++ b = l₂ ++ cs₂.flatMap Cell.text) :
      ∃ u : Url α, u.Ok A.look ∧ u.hit ∈ (url A.look).findAll v ∧ p.key ⊆ u.password ∧
        ∃ cs₁ cs₂ y, (url A.look).cells v = cs₁ ++ .cut u.password :: .keep u.sign :: cs₂ ∧
          y ⊆ u.password ∧ p.value ++ b = y ++ u.sign :: cs₂.flatMap Cell.text := by
    obtain ⟨u, hu, hmem, hpw, -, cs₃, rfl⟩ := flank hcells
    have hl₂ : l₂ ⊆ u.password := by
      rw [← hpw]
      exact subset_append_right _ _
    obtain ⟨hkey, y, hy, hvalue⟩ := pair_in_password hp hu
      (fun c hc => hu.password c (hl₂ hc)) hb
    rw [hpw] at hcells
    exact ⟨u, hu, hmem, List.Subset.trans hkey hl₂, cs₁, cs₃, y, hcells, List.Subset.trans hy hl₂,
      hvalue⟩
  have htext : ((url A.look).cells v).flatMap Cell.text = a ++ (p.hit.text ++ b) :=
    (text_cells url_nonempty v).trans hv
  rcases Cell.split_text _ a (p.hit.text ++ b) htext with
    ⟨cs₁, cs₂, hcells, -, hcs₂⟩ | ⟨cs₁, l₁, l₂, cs₂, -, -, hcells, -, hb⟩
  · by_cases hfirst : ∃ l cs, cs₂ = .cut l :: cs
    · obtain ⟨l, cs, rfl⟩ := hfirst
      exact Or.inl (hinside cs₁ cs [] l hcells hcs₂.symm)
    · right
      have hcolon : ∀ c ∈ p.key ++ (p.blank₁ ++ p.sign :: p.blank₂), A.look c ≠ ':' := by
        intro c hc heq
        simp only [mem_append, mem_cons] at hc
        rcases hc with hc | hc | rfl | hc
        · exact not_class (hp.key c hc) heq (by decide)
        · exact not_class (hp.blank₁ c hc) heq (by decide)
        · rw [hp.sign] at heq
          grind
        · exact not_class (hp.blank₂ c hc) heq (by decide)
      have hcs₂' : cs₂.flatMap Cell.text =
          (p.key ++ (p.blank₁ ++ p.sign :: p.blank₂)) ++ (p.value ++ b) := by
        rw [hcs₂, text_append]
        simp
      obtain ⟨cs₃, hkeep, htext₃, hfirst₃⟩ := keep_through hcells
        (fun l cs heq => hfirst ⟨l, cs, heq⟩) hcs₂' hcolon
      obtain ⟨c, l, hvalue⟩ := exists_cons_of_ne_nil hp.value_ne
      rw [hvalue] at htext₃
      cases cs₃ with
      | nil => cases htext₃
      | cons x cs₄ =>
        cases x with
        | cut l' => grind
        | keep e =>
          obtain ⟨rfl, htext₄⟩ := List.cons.inj htext₃
          exact ⟨cs₁, e, l, cs₄, by rw [hcells, hkeep], hvalue, htext₄⟩
  · grind

/-- Two pairs with the same end of their signs have the same end of their keys, if there are
blanks around one of them. -/
theorem keys_meet {n : Pair α} (hp : p.Ok A.look) (hn : n.Ok A.look) {x x' y : List α}
    (hy : ∀ c ∈ y, isValueChar (A.look c) = true) (hblank : ¬(p.blank₁ = [] ∧ p.blank₂ = []))
    (h : x ++ (p.key ++ (p.blank₁ ++ p.sign :: p.blank₂)) =
      x' ++ (n.key ++ (n.blank₁ ++ n.sign :: (n.blank₂ ++ y)))) : ∃ e ∈ p.key, e ∈ n.key := by
  have hrev := congrArg List.reverse h
  simp only [reverse_append, reverse_cons, append_assoc, singleton_append]
    at hrev
  have hsign {q : Pair α} (hq : q.Ok A.look) : isBlank (A.look q.sign) = false := by
    rw [hq.sign]
    decide
  have hrblank {l : List α} (hl : ∀ c ∈ l, isBlank (A.look c) = true) :
      ∀ c ∈ l.reverse, isBlank (A.look c) = true := fun c hc => hl c (mem_reverse.mp hc)
  obtain ⟨e, k, hk⟩ := exists_cons_of_ne_nil
    (reverse_ne_nil_iff.mpr (key_ne hp))
  have he : e ∈ p.key := by
    rw [← mem_reverse, hk]
    exact mem_cons_self
  have hekey := isValueChar_of_isKeyChar (hp.key e he)
  rw [hk] at hrev
  -- compare the two texts from their ends
  cases hyr : y.reverse with
  | nil =>
    rw [hyr, nil_append] at hrev
    obtain ⟨f, m, hm⟩ := exists_cons_of_ne_nil
      (reverse_ne_nil_iff.mpr (key_ne hn))
    have hf : f ∈ n.key := by
      rw [← mem_reverse, hm]
      exact mem_cons_self
    have hfkey := isValueChar_of_isKeyChar (hn.key f hf)
    rw [hm] at hrev
    obtain ⟨-, -, htail⟩ := Regex.run_unique (p := isBlank ∘ A.look) hrev (hrblank hp.blank₂)
      (hrblank hn.blank₂) (hsign hp) (hsign hn)
    obtain ⟨-, hef, -⟩ := Regex.run_unique (p := isBlank ∘ A.look) htail (hrblank hp.blank₁)
      (hrblank hn.blank₁) (not_isBlank_of_isValueChar hekey) (not_isBlank_of_isValueChar hfkey)
    grind
  | cons d z =>
    exfalso
    have hvalue : ∀ c ∈ d :: z, isBlank (A.look c) = false := by
      intro c hc
      rw [← hyr, mem_reverse] at hc
      exact not_isBlank_of_isValueChar (hy c hc)
    obtain ⟨hd, hz⟩ := forall_mem_cons.mp hvalue
    rw [hyr] at hrev
    have hblank₂ : p.blank₂.reverse = [] :=
      eq_nil_of_head (q := isBlank ∘ A.look) hrev (hrblank hp.blank₂) fun c hc => by
        rw [← Option.some.inj hc]
        exact hd
    have hblank₁ : p.blank₁.reverse ≠ [] := by
      intro hnil
      exact hblank ⟨reverse_eq_nil_iff.mp hnil, reverse_eq_nil_iff.mp hblank₂⟩
    rw [hblank₂, nil_append, cons_append, cons_append, cons_append,
      List.cons.injEq] at hrev
    replace hrev := hrev.2
    cases z with
    | cons d' z =>
      apply hblank₁
      apply eq_nil_of_head (q := isBlank ∘ A.look) hrev (hrblank hp.blank₁)
      grind
    | nil =>
      rw [nil_append] at hrev
      obtain ⟨-, hes, -⟩ := Regex.run_unique (p := isBlank ∘ A.look) hrev (hrblank hp.blank₁)
        (hrblank hn.blank₂) (not_isBlank_of_isValueChar hekey) (hsign hn)
      exact not_class (hp.key e he) (hes ▸ hn.sign) (by decide)

end Cells

variable {U : Unicode} [DecidableEq α]

section Counting

variable {c : α}

theorem split_unique {x y x' y' : List α} (hcount : (x ++ c :: y).count c = 1)
    (h : x ++ c :: y = x' ++ c :: y') : x = x' ∧ y = y' := by
  grind [append_cons_inj_of_notMem]

theorem count_redactURLs (hc : c ∉ A.mark) (t : List α) : t.count c =
    (redactURLs A t).count c + (((url A.look).findAll t).flatMap Hit.second).count c := by
  have hmark : A.mark.count c = 0 := count_eq_zero.mpr hc
  apply count_replaceAll url_nonempty
  intro h _
  simp only [Hit.text, count_append, hmark]
  omega

theorem count_redactPairs (hc : c ∉ A.mark) (t : List α) : t.count c =
    (redactPairs A t).count c + (((kv A.look).findAll t).flatMap Hit.third).count c := by
  have hmark : A.mark.count c = 0 := count_eq_zero.mpr hc
  apply count_replaceAll kv_nonempty
  intro h _
  simp only [Hit.text, count_append, hmark]
  omega

/-- A symbol is gone from a value if it is in a password, or in the value of a pair that is
found once the passwords are replaced. -/
theorem gone_iff (hc : c ∉ A.mark) (hcount : v.count c = 1) :
    c ∉ (string U A v).1 ↔ (∃ h ∈ (url A.look).findAll v, c ∈ h.second) ∨
      (hasTrigger U A v = true ∧ ∃ h ∈ (kv A.look).findAll (redactURLs A v), c ∈ h.third) := by
  have hurl := count_redactURLs hc v
  have hkv := count_redactPairs hc (redactURLs A v)
  have hcut {l : List (Hit α)} {g : Hit α → List α} :
      (∃ h ∈ l, c ∈ g h) ↔ 0 < (l.flatMap g).count c := by simp_all
  rw [string_text, hcut, hcut, ← count_eq_zero]
  grind

theorem kept (hc : c ∉ A.mark) (hcount : v.count c = 1) (hmem : c ∈ redactURLs A v) :
    (redactURLs A v).count c = 1 ∧ ∀ h ∈ (url A.look).findAll v, c ∉ h.second := by
  grind [count_redactURLs, count_pos_iff]

theorem value_at {t x y : List α} (ht : t = x ++ c :: y) (hcount : t.count c = 1) {h : Hit α}
    (hh : h ∈ (kv A.look).findAll t) (hc : c ∈ h.third) :
    ∃ n : Pair α, n.Ok A.look ∧ h = n.hit ∧ ∃ a y₁ z₁ rest, n.value = y₁ ++ c :: z₁ ∧
      x = a ++ (n.key ++ (n.blank₁ ++ n.sign :: (n.blank₂ ++ y₁))) ∧ y = z₁ ++ rest ∧
      ∀ d ∈ rest.head?, isValueChar (A.look d) = false := by
  obtain ⟨n, hn, rfl, a, rest, htext, hrest⟩ := kv_of_mem hh
  obtain ⟨y₁, z₁, hvalue⟩ := append_of_mem hc
  replace hvalue : n.value = y₁ ++ c :: z₁ := hvalue
  have hsplit : x ++ c :: y =
      (a ++ (n.key ++ (n.blank₁ ++ n.sign :: (n.blank₂ ++ y₁)))) ++ c :: (z₁ ++ rest) := by
    rw [← ht, htext, text_append, hvalue]
    simp
  rw [ht] at hcount
  obtain ⟨hx, hy⟩ := split_unique hcount hsplit
  exact ⟨n, hn, rfl, a, y₁, z₁, rest, hvalue, hx, hy, hrest⟩

end Counting

/-- The symbols are told apart from each other and from the placeholder. -/
structure Distinct (A : Alphabet α) (t : List α) : Prop where
  once : ∀ c ∈ t, t.count c = 1
  fresh : ∀ c ∈ t, c ∉ A.mark

theorem Distinct.of_nodup {t : List α} (ht : t.Nodup) (hfresh : ∀ c ∈ t, c ∉ A.mark) :
    Distinct A t :=
  ⟨fun _ hc => count_eq_one_of_mem ht hc, hfresh⟩

section Pairs

omit [DecidableEq α] in
theorem mark_value : ∀ c ∈ A.mark, isValueChar (A.look c) = true := mark_class (by decide)

omit [DecidableEq α] in
theorem image_of_cells {cs : List (Cell α)} (hcells : (url A.look).cells v = cs) :
    redactURLs A v = cs.flatMap (Cell.image A.mark) := by
  rw [← hcells]
  exact (image_cells url_nonempty A.mark v).symm

variable (hv : Distinct A v)
include hv

theorem gone_of_password {u : Url α} (hu : u.hit ∈ (url A.look).findAll v) {c : α} (hc : c ∈ v)
    (hpw : c ∈ u.password) : c ∉ (string U A v).1 :=
  (gone_iff (hv.fresh c hc) (hv.once c hc)).mpr (Or.inl ⟨u.hit, hu, hpw⟩)

theorem gone_of_value (htrigger : hasTrigger U A v = true) {h : Hit α}
    (hh : h ∈ (kv A.look).findAll (redactURLs A v)) {c : α} (hc : c ∈ v) (hvalue : c ∈ h.third) :
    c ∉ (string U A v).1 :=
  (gone_iff (hv.fresh c hc) (hv.once c hc)).mpr (Or.inr ⟨htrigger, h, hh, hvalue⟩)

variable {cs₁ cs₂ : List (Cell α)}

theorem gone_of_run (htrigger : hasTrigger U A v = true) {h : Hit α}
    (hh : h ∈ (kv A.look).findAll (redactURLs A v)) (hcells : (url A.look).cells v = cs₁ ++ cs₂)
    {l : List α} (htext : cs₂.flatMap Cell.text = l ++ b)
    (hl : ∀ c ∈ l, isValueChar (A.look c) = true)
    (hrun : (cs₂.flatMap (Cell.image A.mark)).takeWhile (isValueChar ∘ A.look) ⊆ h.third) :
    ∀ c ∈ l, c ∉ (string U A v).1 := by
  intro c hc
  have hmem : c ∈ v := by
    rw [← text_cells (P := url A.look) url_nonempty v, hcells, flatMap_append, htext]
    simp [hc]
  rcases Cell.mem_takeWhile_image (p := isValueChar ∘ A.look) mark_value cs₂ l b htext hl c hc with
    ⟨w, hw, hcw⟩ | hcw
  · obtain ⟨x, y, rfl⟩ := append_of_mem hw
    have hcells' : (url A.look).cells v = (cs₁ ++ x) ++ .cut w :: y := by
      rw [hcells]
      simp
    obtain ⟨u, -, hu, rfl, -⟩ := flank hcells'
    exact gone_of_password hv hu hmem hcw
  · exact gone_of_value hv htrigger hh hmem (hrun hcw)

/-- The value of a pair that begins in a password is gone if it ends there, or if the end of
the password is in the value of a pair that is still found. -/
theorem gone_inside (hp : p.Ok A.look) (hpair : v = a ++ (p.hit.text ++ b)) {u : Url α}
    (hu : u.hit ∈ (url A.look).findAll v) {y : List α}
    (hcells : (url A.look).cells v = cs₁ ++ .cut u.password :: .keep u.sign :: cs₂)
    (hy : y ⊆ u.password) (hvalue : p.value ++ b = y ++ u.sign :: cs₂.flatMap Cell.text) :
    (∀ c ∈ p.value, c ∉ (string U A v).1) ↔ p.value ⊆ u.password ∨
      (hasTrigger U A v = true ∧
        ∃ h ∈ (kv A.look).findAll (redactURLs A v), u.sign ∈ h.third) := by
  have hmem : ∀ c ∈ p.value, c ∈ v := by
    intro c hc
    rw [hpair, text_append]
    simp [hc]
  have hw : redactURLs A v = (cs₁.flatMap (Cell.image A.mark) ++ A.mark) ++
      u.sign :: cs₂.flatMap (Cell.image A.mark) := by
    rw [image_of_cells hcells]
    simp [Cell.image]
  -- either the value ends in the password, or it reaches over its end
  have hends : p.value ⊆ u.password ∨
      ∃ z, p.value = y ++ u.sign :: z ∧ cs₂.flatMap Cell.text = z ++ b := by
    rcases append_eq_append_iff.mp hvalue with ⟨x, rfl, -⟩ | ⟨x, hx, htail⟩
    · grind
    · cases x with
      | nil => grind
      | cons d z => grind
  rcases hends with hsub | ⟨z, hz, htext⟩
  · exact iff_of_true (fun c hc => gone_of_password hv hu (hmem c hc) (hsub hc)) (Or.inl hsub)
  have hsign : u.sign ∈ p.value := by rw [hz]; simp
  obtain ⟨hcount, hnot⟩ := kept (hv.fresh _ (hmem _ hsign)) (hv.once _ (hmem _ hsign))
    (show u.sign ∈ redactURLs A v by rw [hw]; simp)
  constructor
  · intro hgone
    rcases (gone_iff (hv.fresh _ (hmem _ hsign)) (hv.once _ (hmem _ hsign))).mp
      (hgone _ hsign) with ⟨h, hh, hc⟩ | hfound
    · grind
    · exact Or.inr hfound
  · rintro (hsub | ⟨htrigger, h, hh, hc⟩)
    · exact absurd (hsub hsign) (hnot u.hit hu)
    · obtain ⟨n, hn, rfl, x, y₁, z₁, rest, hvalue₁, -, himage, hrest⟩ := value_at hw hcount hh hc
      have hz₁ : z₁ ⊆ n.hit.third := by
        change z₁ ⊆ n.value
        rw [hvalue₁]
        exact List.Subset.trans (subset_cons_self _ _) (subset_append_right _ _)
      have hz₁value : ∀ d ∈ z₁, isValueChar (A.look d) = true := fun d hd => hn.value d (hz₁ hd)
      have hrun : (cs₂.flatMap (Cell.image A.mark)).takeWhile (isValueChar ∘ A.look) ⊆
          n.hit.third := by
        rw [himage, Regex.takeWhile_run (p := isValueChar ∘ A.look) hz₁value hrest]
        exact hz₁
      have hcells' : (url A.look).cells v =
          (cs₁ ++ [.cut u.password, .keep u.sign]) ++ cs₂ := by
        rw [hcells]
        simp
      have hzvalue : ∀ d ∈ z, isValueChar (A.look d) = true := fun d hd =>
        hp.value d (by rw [hz]; simp [hd])
      intro d hd
      have hd' := hmem d hd
      rw [hz, mem_append, mem_cons] at hd
      rcases hd with hd | rfl | hd
      · exact gone_of_password hv hu hd' (hy hd)
      · exact gone_of_value hv htrigger hh hd' hc
      · exact gone_of_run hv htrigger hh hcells' htext hzvalue hrun d hd

/-- The value of any other pair is gone if there is a trigger, unless another pair takes its
key and there are blanks around its sign. -/
theorem gone_outside (hp : p.Ok A.look) (hpair : v = a ++ (p.hit.text ++ b)) {c : α} {l : List α}
    (hcells : (url A.look).cells v =
      cs₁ ++ ((p.key ++ (p.blank₁ ++ p.sign :: p.blank₂)).map .keep ++ .keep c :: cs₂))
    (hvalue : p.value = c :: l) (htext : cs₂.flatMap Cell.text = l ++ b) :
    (∀ d ∈ p.value, d ∉ (string U A v).1) ↔ hasTrigger U A v = true ∧
      ((p.blank₁ = [] ∧ p.blank₂ = []) ∨
        ∀ h ∈ (kv A.look).findAll (redactURLs A v), ¬p.key ⊆ h.third) := by
  have hmem : ∀ d ∈ p.hit.text, d ∈ v := by
    intro d hd
    rw [hpair]
    simp [hd]
  have hc : c ∈ p.value := by rw [hvalue]; exact mem_cons_self
  have hcv : c ∈ v := hmem c (by simp [hit, Hit.text, hc])
  have hw : redactURLs A v = (cs₁.flatMap (Cell.image A.mark) ++
      (p.key ++ (p.blank₁ ++ p.sign :: p.blank₂))) ++ c :: cs₂.flatMap (Cell.image A.mark) := by
    rw [image_of_cells hcells, flatMap_append, flatMap_append, Cell.image_keep,
      flatMap_cons, Cell.image]
    simp
  constructor
  · intro hgone
    obtain ⟨hcount, hnot⟩ := kept (hv.fresh c hcv) (hv.once c hcv)
      (show c ∈ redactURLs A v by rw [hw]; simp)
    rcases (gone_iff (hv.fresh c hcv) (hv.once c hcv)).mp (hgone c hc) with
      ⟨h, hh, hch⟩ | ⟨htrigger, h₂, hh₂, hch₂⟩
    · grind
    refine ⟨htrigger, ?_⟩
    by_contra hcon
    rw [not_or, not_forall] at hcon
    obtain ⟨hblank, h, hh⟩ := hcon
    rw [Classical.not_imp, not_not] at hh
    obtain ⟨n, hn, rfl, x, y₁, z₁, rest, hvalue₁, hx, -, -⟩ := value_at hw hcount hh₂ hch₂
    have hy₁ : ∀ d ∈ y₁, isValueChar (A.look d) = true := fun d hd =>
      hn.value d (by grind)
    obtain ⟨e, hep, hen⟩ := keys_meet hp hn hy₁ hblank hx
    -- its last symbol would be in two places
    have hev : e ∈ v := hmem e (by simp [hit, Hit.text, hep])
    obtain ⟨hecount, -⟩ := kept (hv.fresh e hev) (hv.once e hev)
      (show e ∈ redactURLs A v by rw [hw]; simp [hep])
    have heh : e ∈ h.third := hh.2 hep
    have heq : n.hit = h := hit_unique kv_nonempty (le_of_eq hecount) hh₂ hh.1
      (by simp [hit, Hit.text, hen]) (by simp [Hit.text, heh])
    subst heq
    obtain ⟨x', rest', htext', -⟩ := findAll_at kv_nonempty hh.1
    rw [htext'] at hecount
    have h1 : 0 < n.hit.first.count e := count_pos_iff.mpr hen
    have h2 : 0 < n.hit.third.count e := count_pos_iff.mpr heh
    simp only [count_append, Hit.text] at hecount
    omega
  · rintro ⟨htrigger, hor⟩
    have hw' : redactURLs A v = cs₁.flatMap (Cell.image A.mark) ++ (p.key ++ (p.blank₁ ++
        p.sign :: (p.blank₂ ++ c :: cs₂.flatMap (Cell.image A.mark)))) := by
      rw [hw]
      simp
    obtain ⟨h, hh, hcover⟩ := kv_covered_run hp hw' (hp.value c hc)
    have hsub : (c :: cs₂.flatMap (Cell.image A.mark)).takeWhile (isValueChar ∘ A.look) ⊆
        h.third := by
      rcases hcover with hsub | ⟨hkey, hblank⟩
      · exact hsub
      · grind
    have hcells' : (url A.look).cells v =
        (cs₁ ++ (p.key ++ (p.blank₁ ++ p.sign :: p.blank₂)).map .keep) ++ (.keep c :: cs₂) := by
      grind
    have htext' : (.keep c :: cs₂ : List (Cell α)).flatMap Cell.text = p.value ++ b := by
      rw [flatMap_cons, htext, hvalue]
      rfl
    exact gone_of_run hv htrigger hh hcells' htext' hp.value hsub

end Pairs

/-- What replaces the value of a pair of `v`. If its key is in a password, the value has to end
there, or the end of the password has to be in the value of a pair that is still found;
otherwise the fast path must not miss the trigger, and no other pair may take its key away
from a sign with blanks around it. -/
def PairReached (U : Unicode) (A : Alphabet α) (v : List α) (g : Hit α) : Prop :=
  (∃ u ∈ (url A.look).findAll v, g.first ⊆ u.second ∧ (g.third ⊆ u.second ∨
    (hasTrigger U A v = true ∧
      ∃ h ∈ (kv A.look).findAll (redactURLs A v), u.third ⊆ h.third))) ∨
  ((∀ u ∈ (url A.look).findAll v, ¬g.first ⊆ u.second) ∧ hasTrigger U A v = true ∧
    ((∀ c ∈ g.second, isBlank (A.look c) = false) ∨
      ∀ h ∈ (kv A.look).findAll (redactURLs A v), ¬g.first ⊆ h.third))

section Reached

omit [DecidableEq α] in
theorem no_blanks_iff (hp : p.Ok A.look) :
    (∀ c ∈ p.hit.second, isBlank (A.look c) = false) ↔ p.blank₁ = [] ∧ p.blank₂ = [] := by
  have hnil {l : List α} (hl : ∀ c ∈ l, isBlank (A.look c) = true)
      (hnot : ∀ c ∈ l, isBlank (A.look c) = false) : l = [] := by
    apply eq_nil_iff_forall_not_mem.mpr
    intro c hc
    have htrue := hl c hc
    rw [hnot c hc] at htrue
    cases htrue
  change (∀ c ∈ p.blank₁ ++ p.sign :: p.blank₂, _) ↔ _
  rw [forall_mem_append, forall_mem_cons]
  constructor
  · rintro ⟨h₁, -, h₂⟩
    exact ⟨hnil hp.blank₁ h₁, hnil hp.blank₂ h₂⟩
  · rintro ⟨h₁, h₂⟩
    rw [h₁, h₂, hp.sign]
    exact ⟨forall_mem_nil _, by decide, forall_mem_nil _⟩

theorem pair_gone_iff (hv : Distinct A v) (hp : p.Ok A.look) (hpair : v = a ++ (p.hit.text ++ b)) :
    (∀ c ∈ p.value, c ∉ (string U A v).1) ↔ PairReached U A v p.hit := by
  obtain ⟨e, k, hk⟩ := exists_cons_of_ne_nil (key_ne hp)
  have he : e ∈ p.key := by
    rw [hk]
    exact mem_cons_self
  have hev : e ∈ v := by
    rw [hpair, text_append]
    simp [he]
  rcases pair_place hp hpair with
    ⟨u, -, hmem, hkey, cs₁, cs₂, y, hcells, hy, hvalue⟩ | ⟨cs₁, c, l, cs₂, hcells, hvalue, htext⟩
  · rw [gone_inside hv hp hpair hmem hcells hy hvalue]
    have hsign (h : Hit α) : u.hit.third ⊆ h.third ↔ u.sign ∈ h.third := by
      change [u.sign] ⊆ h.third ↔ _
      simp
    constructor
    · rintro (hsub | ⟨htrigger, h, hh, hc⟩)
      · exact Or.inl ⟨u.hit, hmem, hkey, Or.inl hsub⟩
      · exact Or.inl ⟨u.hit, hmem, hkey, Or.inr ⟨htrigger, h, hh, (hsign h).mpr hc⟩⟩
    · rintro (⟨g, hg, hkey', hor⟩ | ⟨hnone, -⟩)
      · -- the key lies in one password only
        have heq : g = u.hit := by
          apply hit_unique url_nonempty (le_of_eq (hv.once e hev)) hg hmem
          · simp [Hit.text, hkey' he]
          · simp [Hit.text, Url.hit, hkey he]
        subst heq
        rcases hor with hsub | ⟨htrigger, h, hh, hc⟩
        · exact Or.inl hsub
        · grind
      · exact absurd hkey (hnone u.hit hmem)
  · rw [gone_outside hv hp hpair hcells hvalue htext, ← no_blanks_iff hp]
    have hkept : e ∈ redactURLs A v := by
      rw [image_of_cells hcells, flatMap_append, flatMap_append, Cell.image_keep]
      simp [he]
    have hnone : ∀ u ∈ (url A.look).findAll v, ¬p.key ⊆ u.second := fun u hu hsub =>
      (kept (hv.fresh e hev) (hv.once e hev) hkept).2 u hu (hsub he)
    constructor
    · intro h
      exact Or.inr ⟨hnone, h⟩
    · rintro (⟨u, hu, hkey, -⟩ | ⟨-, h⟩)
      · exact absurd hkey (hnone u hu)
      · exact h

end Reached

section Straddling

variable {key : List α} {sep : α} {line : List α}

omit [DecidableEq α] in
theorem url_split (hsplit : splitLine A line = some (key, sep, v)) {u : Url α} (hu : u.Ok A.look)
    (hline : line = a ++ (u.hit.text ++ b)) :
    (∃ a', v = a' ++ (u.hit.text ++ b)) ∨ (sep = u.colon ∧
      v = u.slash₁ :: u.slash₂ :: (u.user ++ u.colon₂ :: (u.password ++ u.sign :: b))) := by
  obtain ⟨hkv, hkey, hsep⟩ := splitLine_some.mp hsplit
  rw [hkv] at hline
  rcases Regex.split_append hline with ⟨a', -, hv⟩ | ⟨y, rfl, htext⟩
  · grind
  · right
    have hscheme : ∀ c ∈ u.scheme, (!isSep (A.look c)) = true := fun c hc =>
      congrArg not (decide_eq_false (notMem_of_class (by decide) (hu.scheme c hc)))
    have hy : ∀ c ∈ y, (!isSep (A.look c)) = true := fun c hc =>
      congrArg not (hkey c (mem_append_right _ hc))
    rw [Url.text_append] at htext
    obtain ⟨-, hcolon, hrest⟩ := Regex.run_unique (p := fun c => !isSep (A.look c)) htext hscheme hy
      (by rw [hu.colon]; decide) (by rw [hsep]; rfl)
    grind

omit [DecidableEq α] in
theorem pair_split (hsplit : splitLine A line = some (key, sep, v)) (hp : p.Ok A.look)
    (hline : line = a ++ (p.hit.text ++ b)) :
    (∃ a', v = a' ++ (p.hit.text ++ b)) ∨ (p.key ⊆ key ∧ v = p.blank₂ ++ (p.value ++ b)) := by
  obtain ⟨hkv, hkey, hsep⟩ := splitLine_some.mp hsplit
  rw [hkv] at hline
  rcases Regex.split_append hline with ⟨a', -, hv⟩ | ⟨y, rfl, htext⟩
  · grind
  · right
    have hfirst : ∀ c ∈ p.key ++ p.blank₁, (!isSep (A.look c)) = true := by
      rw [forall_mem_append]
      constructor
      · intro c hc
        exact congrArg not (decide_eq_false (notMem_of_class (by decide) (hp.key c hc)))
      · intro c hc
        exact congrArg not (decide_eq_false (notMem_of_class (by decide) (hp.blank₁ c hc)))
    have hy : ∀ c ∈ y, (!isSep (A.look c)) = true := fun c hc =>
      congrArg not (hkey c (mem_append_right _ hc))
    rw [text_append, ← append_assoc] at htext
    obtain ⟨hpre, -, hrest⟩ := Regex.run_unique (p := fun c => !isSep (A.look c)) htext hfirst hy
      (by rw [hp.sign]; decide) (by rw [hsep]; rfl)
    grind

variable (hv : Distinct A v)
include hv

/-- Behind the colon of its scheme a URL is none any more: there is no other colon with
slashes after it up to the end of its password. -/
theorem straddling_url {u : Url α} (hu : u.Ok A.look)
    (htext : v = u.slash₁ :: u.slash₂ :: (u.user ++ u.colon₂ :: (u.password ++ u.sign :: b))) :
    (∀ c ∈ u.password, c ∉ (string U A v).1) ↔ hasTrigger U A v = true ∧
      u.password ⊆ ((kv A.look).findAll (redactURLs A v)).flatMap Hit.third := by
  have hmem : ∀ c ∈ u.password, c ∈ v := by
    intro c hc
    rw [htext]
    simp [hc]
  have hnone : ∀ c ∈ u.password, ¬∃ h ∈ (url A.look).findAll v, c ∈ h.second := by
    rintro c hc ⟨h, hh, hch⟩
    obtain ⟨n, hn, rfl, a, rest, hn_at⟩ := url_of_mem hh
    obtain ⟨y, z, hyz⟩ := append_of_mem hc
    obtain ⟨y', z', hyz'⟩ := append_of_mem hch
    replace hyz' : n.password = y' ++ c :: z' := hyz'
    have htwo : (u.slash₁ :: u.slash₂ :: (u.user ++ u.colon₂ :: y)) ++ c :: (z ++ u.sign :: b) =
        (a ++ (n.scheme ++ n.colon :: n.slash₁ :: n.slash₂ :: (n.user ++ n.colon₂ :: y'))) ++
          c :: (z' ++ n.sign :: rest) := by
      have h1 := htext
      rw [hyz] at h1
      rw [Url.text_append, hyz'] at hn_at
      have h2 := h1.symm.trans hn_at
      simpa using h2
    have hcount := hv.once c (hmem c hc)
    have hsame : v = (u.slash₁ :: u.slash₂ :: (u.user ++ u.colon₂ :: y)) ++
        c :: (z ++ u.sign :: b) := by
      rw [htext, hyz]
      simp
    rw [hsame] at hcount
    obtain ⟨hpre, -⟩ := split_unique hcount htwo
    have hslash : ∀ d ∈ u.user ++ u.colon₂ :: y, A.look d ≠ '/' := by
      intro d hd heq
      rw [mem_append, mem_cons] at hd
      rcases hd with hd | rfl | hd
      · exact not_class (hu.user d hd) heq (by decide)
      · rw [hu.colon₂] at heq
        grind
      · exact not_class (hu.password d (by rw [hyz]; simp [hd])) heq (by decide)
    have hcolon {d : α} (hd : A.look d = '/') : d ≠ n.colon := by
      rintro rfl
      rw [hn.colon] at hd
      revert hd
      decide
    have hassoc : u.slash₁ :: u.slash₂ :: (u.user ++ u.colon₂ :: y) =
        (a ++ n.scheme) ++ n.colon :: n.slash₁ :: (n.slash₂ :: (n.user ++ n.colon₂ :: y')) := by
      rw [hpre]
      simp
    cases hx : a ++ n.scheme with
    | nil =>
      rw [hx] at hassoc
      exact hcolon hu.slash₁ (List.cons.inj hassoc).1
    | cons d x =>
      rw [hx] at hassoc
      obtain ⟨-, htail⟩ := List.cons.inj hassoc
      cases x with
      | nil => exact hcolon hu.slash₂ (List.cons.inj htail).1
      | cons d' x =>
        obtain ⟨-, htail⟩ := List.cons.inj htail
        exact hslash n.slash₁ (by rw [htail]; simp) hn.slash₁
  have hone (c : α) (hc : c ∈ u.password) : c ∉ (string U A v).1 ↔ hasTrigger U A v = true ∧
      c ∈ ((kv A.look).findAll (redactURLs A v)).flatMap Hit.third := by
    rw [gone_iff (hv.fresh c (hmem c hc)) (hv.once c (hmem c hc)), mem_flatMap]
    exact or_iff_right (hnone c hc)
  obtain ⟨d, l, hd⟩ := exists_cons_of_ne_nil hu.password_ne
  grind [mem_cons_self]

theorem straddling_pair (hp : p.Ok A.look) (htext : v = p.blank₂ ++ (p.value ++ b)) :
    ∃ c ∈ p.value, c ∈ (string U A v).1 := by
  obtain ⟨c, l, hvalue⟩ := exists_cons_of_ne_nil hp.value_ne
  have hc : c ∈ p.value := by
    rw [hvalue]
    exact mem_cons_self
  have hcv : c ∈ v := by
    rw [htext]
    simp [hc]
  refine ⟨c, hc, ?_⟩
  have hfirst : ∀ l' cs, (url A.look).cells v ≠ .cut l' :: cs := by
    intro l' cs heq
    have hnil : (url A.look).cells v = [] ++ .cut l' :: cs := heq
    obtain ⟨u, -, -, -, ⟨x, hx⟩, y, -⟩ := flank hnil
    simp at hx
  have hcolon : ∀ d ∈ p.blank₂, A.look d ≠ ':' := fun d hd heq =>
    not_class (hp.blank₂ d hd) heq (by decide)
  have hall : (url A.look).cells v = [] ++ (url A.look).cells v := rfl
  obtain ⟨cs₃, hcells, htext₃, hfirst₃⟩ := keep_through hall hfirst
    ((text_cells url_nonempty v).trans htext) hcolon
  rw [hvalue] at htext₃
  obtain ⟨cs₄, hcs₃⟩ : ∃ cs₄, cs₃ = .keep c :: cs₄ := by
    cases cs₃ with
    | nil => cases htext₃
    | cons x cs₄ =>
      cases x with
      | cut l' => grind
      | keep e =>
        obtain ⟨rfl, -⟩ := List.cons.inj htext₃
        exact ⟨cs₄, rfl⟩
  have hw : redactURLs A v = p.blank₂ ++ c :: cs₄.flatMap (Cell.image A.mark) := by
    rw [image_of_cells hcells, hcs₃, flatMap_append, Cell.image_keep, flatMap_cons]
    rfl
  obtain ⟨hcount, hnot⟩ := kept (hv.fresh c hcv) (hv.once c hcv)
    (show c ∈ redactURLs A v by rw [hw]; simp)
  by_contra hgone
  rcases (gone_iff (hv.fresh c hcv) (hv.once c hcv)).mp hgone with ⟨h, hh, hch⟩ | ⟨-, h, hh, hch⟩
  · exact hnot h hh hch
  · obtain ⟨n, hn, -, a, y₁, z₁, rest, -, hx, -, -⟩ := value_at hw hcount hh hch
    obtain ⟨e, k, hk⟩ := exists_cons_of_ne_nil (key_ne hn)
    have he : e ∈ n.key := by
      rw [hk]
      exact mem_cons_self
    have hblank := hp.blank₂ e (by rw [hx]; simp [he])
    rw [not_isBlank_of_isValueChar (isValueChar_of_isKeyChar (hn.key e he))] at hblank
    cases hblank

end Straddling

section Lines

def LineRedacted (U : Unicode) (A : Alphabet α) (line : List α) : Prop :=
  (∀ g ∈ (url A.look).findAll line, ∀ c ∈ g.second, c ∉ (redactLine U A line).1) ∧
  ∀ g ∈ (kv A.look).findAll line, ∀ c ∈ g.third, c ∉ (redactLine U A line).1

/-- When that is so: the key of the line is recognised, or no secret begins before the first
separator (a URL that does is cut in two, and only a pair around it can hide its password)
and the pairs behind it are reached. -/
def LineReached (U : Unicode) (A : Alphabet α) (line : List α) : Prop :=
  ∀ key sep v, splitLine A line = some (key, sep, v) →
    keyMatchesPattern U A (trimSpace A key) = true ∨
    ((∀ g ∈ (url A.look).findAll line, g.first ⊆ v ∨ (hasTrigger U A v = true ∧
        g.second ⊆ ((kv A.look).findAll (redactURLs A v)).flatMap Hit.third)) ∧
      ∀ g ∈ (kv A.look).findAll line, g.first ⊆ v ∧ PairReached U A v g)

variable {key line : List α} {sep : α} (hdistinct : Distinct A line)
  (hsplit : splitLine A line = some (key, sep, v))
include hdistinct hsplit

theorem distinct_value : Distinct A v := by
  obtain ⟨rfl, -, -⟩ := splitLine_some.mp hsplit
  have hmem {c : α} (hc : c ∈ v) : c ∈ key ++ sep :: v := by simp [hc]
  refine ⟨?_, fun c hc => hdistinct.fresh c (hmem hc)⟩
  intro c hc
  have honce := hdistinct.once c (hmem hc)
  grind

theorem notMem_key {c : α} (hc : c ∈ v) : c ∉ key ∧ c ≠ sep := by
  obtain ⟨rfl, -, -⟩ := splitLine_some.mp hsplit
  have honce := hdistinct.once c (by simp [hc])
  grind

theorem gone_of_key (hkey : keyMatchesPattern U A (trimSpace A key) = true) {c : α} (hc : c ∈ v) :
    c ∉ (redactLine U A line).1 := by
  obtain ⟨h1, h2⟩ := notMem_key hdistinct hsplit hc
  have hfresh := (distinct_value hdistinct hsplit).fresh c hc
  rw [redactLine_key hsplit hkey]
  simp [h1, h2, hfresh]

theorem gone_from_line (hkey : keyMatchesPattern U A (trimSpace A key) = false) {c : α}
    (hc : c ∈ v) : c ∉ (redactLine U A line).1 ↔ c ∉ (string U A v).1 := by
  obtain ⟨h1, h2⟩ := notMem_key hdistinct hsplit hc
  rw [redactLine_value hsplit hkey]
  simp [h1, h2]

theorem url_redacted_iff (hkey : keyMatchesPattern U A (trimSpace A key) = false) {g : Hit α}
    (hg : g ∈ (url A.look).findAll line) :
    (∀ c ∈ g.second, c ∉ (redactLine U A line).1) ↔ g.first ⊆ v ∨ (hasTrigger U A v = true ∧
      g.second ⊆ ((kv A.look).findAll (redactURLs A v)).flatMap Hit.third) := by
  obtain ⟨u, hu, rfl, a, b, hline⟩ := url_of_mem hg
  have hv := distinct_value hdistinct hsplit
  have hline_iff (hsub : u.password ⊆ v) : (∀ c ∈ u.password, c ∉ (redactLine U A line).1) ↔
      ∀ c ∈ u.password, c ∉ (string U A v).1 :=
    forall₂_congr fun c hc => gone_from_line hdistinct hsplit hkey (hsub hc)
  rcases url_split hsplit hu hline with ⟨a', hlocal⟩ | ⟨hsep, hstraddle⟩
  · have htext : u.hit.text ⊆ v := by
      rw [hlocal]
      exact List.Subset.trans (subset_append_left _ _) (subset_append_right _ _)
    have hsecond : u.password ⊆ v := fun c hc => htext (by simp [Hit.text, Url.hit, hc])
    refine iff_of_true ?_ (Or.inl fun c hc => htext (mem_append_left _ hc))
    change ∀ c ∈ u.password, _
    rw [hline_iff hsecond]
    obtain ⟨h, hh, hpw⟩ := url_covered hu a' b
    rw [← hlocal] at hh
    intro c hc
    apply (gone_iff (hv.fresh c (hsecond hc)) (hv.once c (hsecond hc))).mpr
    grind
  · have hsecond : u.password ⊆ v := by
      rw [hstraddle]
      intro c hc
      simp [hc]
    have hnot : ¬u.hit.first ⊆ v := by
      intro hsub
      have hcolon : sep ∈ v := hsub (by simp [Url.hit, hsep])
      exact (notMem_key hdistinct hsplit hcolon).2 rfl
    change (∀ c ∈ u.password, _) ↔ _
    rw [hline_iff hsecond, straddling_url hv hu hstraddle]
    exact (or_iff_right hnot).symm

theorem pair_redacted_iff (hkey : keyMatchesPattern U A (trimSpace A key) = false) {g : Hit α}
    (hg : g ∈ (kv A.look).findAll line) :
    (∀ c ∈ g.third, c ∉ (redactLine U A line).1) ↔ g.first ⊆ v ∧ PairReached U A v g := by
  obtain ⟨p, hp, rfl, a, b, hline, -⟩ := kv_of_mem hg
  have hv := distinct_value hdistinct hsplit
  have hline_iff (hsub : p.value ⊆ v) : (∀ c ∈ p.value, c ∉ (redactLine U A line).1) ↔
      ∀ c ∈ p.value, c ∉ (string U A v).1 :=
    forall₂_congr fun c hc => gone_from_line hdistinct hsplit hkey (hsub hc)
  change (∀ c ∈ p.value, _) ↔ p.key ⊆ v ∧ _
  rcases pair_split hsplit hp hline with ⟨a', hlocal⟩ | ⟨hpkey, hstraddle⟩
  · have htext : p.hit.text ⊆ v := by
      rw [hlocal]
      exact List.Subset.trans (subset_append_left _ _) (subset_append_right _ _)
    have hfirst : p.key ⊆ v := fun c hc => htext (mem_append_left _ hc)
    rw [hline_iff fun c hc => htext (by simp [Hit.text, hit, hc]), pair_gone_iff hv hp hlocal]
    grind
  · have hvalue : p.value ⊆ v := by
      rw [hstraddle]
      intro c hc
      simp [hc]
    rw [hline_iff hvalue]
    apply iff_of_false
    · intro hgone
      obtain ⟨c, hc, hleft⟩ := straddling_pair (U := U) hv hp hstraddle
      exact hgone c hc hleft
    · rintro ⟨hsub, -⟩
      obtain ⟨e, k, hk⟩ := exists_cons_of_ne_nil (key_ne hp)
      grind [mem_cons_self, notMem_key]

omit hsplit in
theorem lineRedacted_iff : LineRedacted U A line ↔ LineReached U A line := by
  cases hsplit : splitLine A line with
  | none =>
    have hnone := splitLine_none.mp hsplit
    have hcontra {c : α} {d : Char} (hc : c ∈ line) (hlook : A.look c = d)
        (hd : isSep d = true) : False := by
      have hfalse := hnone c hc
      rw [hlook, hd] at hfalse
      cases hfalse
    apply iff_of_true
    · constructor
      · intro g hg
        obtain ⟨u, hu, rfl, a, b, hline⟩ := url_of_mem hg
        exact (hcontra (by rw [hline]; simp [Hit.text, Url.hit]) hu.colon (by decide)).elim
      · intro g hg
        obtain ⟨p, hp, rfl, a, b, hline, -⟩ := kv_of_mem hg
        exact (hcontra (by rw [hline]; simp [Hit.text, hit]) hp.sign (by decide)).elim
    · intro key sep v hsome
      grind
  | some x =>
    obtain ⟨key, sep, v⟩ := x
    simp only [LineReached, hsplit, Option.some.injEq, Prod.mk.injEq, and_imp]
    cases hkey : keyMatchesPattern U A (trimSpace A key) with
    | false =>
      have hurls := forall₂_congr fun g (hg : g ∈ (url A.look).findAll line) =>
        url_redacted_iff hdistinct hsplit hkey hg
      have hpairs := forall₂_congr fun g (hg : g ∈ (kv A.look).findAll line) =>
        pair_redacted_iff hdistinct hsplit hkey hg
      rw [LineRedacted, hurls, hpairs]
      simp [hkey]
    | true =>
      refine iff_of_true ⟨?_, ?_⟩ (by rintro _ _ _ rfl rfl rfl; exact .inl hkey)
      · intro g hg c hc
        obtain ⟨u, hu, rfl, a, b, hline⟩ := url_of_mem hg
        apply gone_of_key hdistinct hsplit hkey
        rcases url_split hsplit hu hline with ⟨a', rfl⟩ | ⟨-, rfl⟩
        · simp [Hit.text, hc]
        · replace hc : c ∈ u.password := hc
          simp [hc]
      · intro g hg c hc
        obtain ⟨p, hp, rfl, a, b, hline, -⟩ := kv_of_mem hg
        apply gone_of_key hdistinct hsplit hkey
        rcases pair_split hsplit hp hline with ⟨a', rfl⟩ | ⟨-, rfl⟩
        · simp [Hit.text, hc]
        · replace hc : c ∈ p.value := hc
          simp [hc]

end Lines

section Places

/-- The symbols of a Go string with the places where they stand; those of the placeholder come
from no place. -/
def placed : Alphabet (Symbol × Option ℕ) where
  look := fun c => c.1.rune
  mark := goString.mark.map fun c => (c, none)
  mark_look := by
    rw [map_map]
    exact goString.mark_look

def positions (line : List Symbol) : List (Symbol × Option ℕ) :=
  line.zipIdx.map fun x => (x.1, some x.2)

theorem positions_fst (line : List Symbol) : (positions line).map Prod.fst = line := by
  rw [positions, map_map]
  exact zipIdx_map_fst 0 line

theorem positions_distinct (line : List Symbol) : Distinct placed (positions line) := by
  have hplaces : ((positions line).map Prod.snd).Nodup := by
    have heq : (positions line).map Prod.snd = (line.zipIdx.map Prod.snd).map some := by
      rw [positions, map_map, map_map]
      rfl
    rw [heq, zipIdx_map_snd]
    exact (nodup_range' (s := 0)).map (Option.some_injective ℕ)
  apply Distinct.of_nodup (List.Nodup.of_map _ hplaces)
  intro c hc hmark
  obtain ⟨x, -, rfl⟩ := mem_map.mp hc
  obtain ⟨d, -, hd⟩ := mem_map.mp hmark
  grind

end Places

section Bytes

def size : Symbol → ℕ
  | .char c => c.utf8Size
  | .byte _ => 1

def spreadFrom : ℕ → List Symbol → List (Symbol × Option ℕ)
  | _, [] => []
  | i, s :: t => (s, some i) :: spreadFrom (i + size s) t

def spread (t : List Symbol) : List (Symbol × Option ℕ) := spreadFrom 0 t

def Holds (s : Symbol × Option ℕ) (m : ℕ) : Prop := ∃ i, s.2 = some i ∧ i ≤ m ∧ m < i + size s.1

def Apart (a b : Symbol × Option ℕ) : Prop := ∀ m, Holds a m → ¬Holds b m

variable {s : Symbol × Option ℕ} {t : List Symbol} {i m : ℕ}

theorem Apart.symm {a b : Symbol × Option ℕ} (h : Apart a b) : Apart b a :=
  fun m hb ha => h m ha hb

instance : Std.Symm Apart where
  symm _ _ := Apart.symm

theorem size_pos (s : Symbol) : 0 < size s := by
  cases s with
  | char c => exact c.utf8Size_pos
  | byte b => exact Nat.one_pos

theorem spreadFrom_fst (i : ℕ) (t : List Symbol) : (spreadFrom i t).map Prod.fst = t := by
  induction t generalizing i with
  | nil => rfl
  | cons s t ih => rw [spreadFrom, map_cons, ih]

theorem mem_spreadFrom (h : s ∈ spreadFrom i t) :
    ∃ j, s.2 = some j ∧ i ≤ j ∧ j + size s.1 ≤ i + (t.map size).sum := by
  induction t generalizing i with
  | nil => cases h
  | cons d t ih =>
    rw [map_cons, sum_cons]
    rcases mem_cons.mp h with rfl | h
    · simp
    · grind

theorem holds_self (h : s ∈ spreadFrom i t) : ∃ m, Holds s m := by
  obtain ⟨j, hj, -, -⟩ := mem_spreadFrom h
  have hpos := size_pos s.1
  exact ⟨j, j, hj, le_refl j, by omega⟩

theorem spreadFrom_apart (i : ℕ) (t : List Symbol) : (spreadFrom i t).Pairwise Apart := by
  induction t generalizing i with
  | nil => exact List.Pairwise.nil
  | cons d t ih =>
    rw [spreadFrom, pairwise_cons]
    refine ⟨?_, ih _⟩
    rintro b hb m ⟨j, hj, -, hlt⟩ ⟨k, hk, hle, -⟩
    grind [mem_spreadFrom]

theorem eq_of_holds {c : Symbol × Option ℕ} (hc : c ∈ spreadFrom i t) (hs : s ∈ spreadFrom i t)
    (hcm : Holds c m) (hsm : Holds s m) : c = s := by
  by_contra hne
  exact (spreadFrom_apart i t).forall hc hs hne m hcm hsm

theorem spreadFrom_nodup (i : ℕ) (t : List Symbol) : (spreadFrom i t).Nodup := by
  apply (spreadFrom_apart i t).imp_of_mem
  rintro a b ha - hapart rfl
  obtain ⟨m, hm⟩ := holds_self ha
  exact hapart m hm hm

theorem spreadFrom_distinct (i : ℕ) (t : List Symbol) : Distinct placed (spreadFrom i t) := by
  apply Distinct.of_nodup (spreadFrom_nodup i t)
  intro c hc hmark
  obtain ⟨j, hj, -, -⟩ := mem_spreadFrom hc
  obtain ⟨d, -, rfl⟩ := mem_map.mp hmark
  cases hj

end Bytes

section Result

/-- Which secrets `Text` removes. -/
theorem text_redaction (U : Unicode) (content : List Symbol) :
    (lines (text U content).1).length = (lines content).length ∧
    ∀ (i : ℕ) (line : List Symbol), (lines content)[i]? = some line →
      (lines (text U content).1)[i]? =
        some ((redactLine U placed (positions line)).1.map Prod.fst) ∧
      ((url goString.look).findAll line = [] → (kv goString.look).findAll line = [] →
        (∀ key sep value, splitLine goString line = some (key, sep, value) →
          KeyPattern.isMatch ((trimSpace goString key).map goString.look) = false) →
        (lines (text U content).1)[i]? = some line) ∧
      (LineRedacted U placed (positions line) ↔ LineReached U placed (positions line)) := by
  have hlines := lines_text U content
  have hmark : placed.mark.map Prod.fst = goString.mark := by
    rw [placed, map_map]
    exact map_id _
  refine ⟨by rw [hlines, length_map], ?_⟩
  intro i line hline
  have hat : (lines (text U content).1)[i]? = some (redactLine U goString line).1 := by
    rw [hlines, List.getElem?_map, hline]
    rfl
  refine ⟨?_, ?_, lineRedacted_iff (positions_distinct line)⟩
  · rw [hat, redactLine_map Prod.fst (fun _ => rfl) hmark, positions_fst]
  · intro hurl hkv hkey
    rw [hat, redactLine_of_findAll hurl hkv]
    intro key sep value hsplit
    rw [keyMatchesPattern, hkey key sep value hsplit, Bool.and_false]

def urlLine : List Symbol := "https://svc:hunter2@db".toList.map .char

/-- The first separator of this line is the colon of the URL, so that the password is left. -/
theorem scheme_colon_leaks : lines urlLine = [urlLine] ∧ (text sampleUnicode urlLine).1 = urlLine ∧
    ((url goString.look).findAll urlLine).map Hit.second = ["hunter2".toList.map .char] ∧
    ¬LineRedacted sampleUnicode placed (positions urlLine) := by
  refine ⟨by decide, by decide +kernel, by decide +kernel, ?_⟩
  intro h
  have hleft : ∃ g ∈ (url placed.look).findAll (positions urlLine), ∃ c ∈ g.second,
      c ∈ (redactLine sampleUnicode placed (positions urlLine)).1 := by decide +kernel
  obtain ⟨g, hg, c, hc, hmem⟩ := hleft
  exact h.1 g hg c hc hmem

end Result

end DbAgent.Redact
