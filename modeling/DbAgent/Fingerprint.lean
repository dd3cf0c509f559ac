import Mathlib
import DbAgent.PyBuiltins

/-! The fingerprint of an alert: `normalize_error_signature` and `compute_fingerprint`. -/
namespace DbAgent.Fingerprint

open List

open Py (isSpace)
open Trimming

abbrev Text := List Char

section Model

/-- What the interpreter knows of characters: the full lowercase mapping, the properties that
decide the form of a final sigma, which characters are alphanumeric, and which are of one of the
categories of punctuation. The laws are facts of the Unicode data. -/
structure Unicode where
  lowerFull : Char → List Char
  cased : Char → Bool
  caseIgnorable : Char → Bool
  isAlnum : Char → Bool
  isPunct : Char → Bool
  lowered : ∀ c, c ≠ 'Σ' → ∀ d ∈ lowerFull c, lowerFull d = [d] ∧ d ≠ 'Σ'
  sigma : cased 'Σ' = true ∧ lowerFull 'σ' = ['σ'] ∧ lowerFull 'ς' = ['ς']
  letter : ∀ c, c.isAlpha = true → lowerFull c = [c.toLower] ∧ cased c = true ∧
    caseIgnorable c = false
  space : ∀ c, isSpace c = true → lowerFull c = [c] ∧ cased c = false ∧ caseIgnorable c = false
  punct : ∀ c, isPunct c = true → lowerFull c = [c] ∧ cased c = false ∧ isAlnum c = false

variable (U : Unicode)

def Unicode.startsCased (s : Text) : Bool :=
  ((s.dropWhile U.caseIgnorable).head?.map U.cased).getD false

/-- `str.lower`, after the characters `before`, which are listed backwards. A capital sigma at the
end of a word becomes a final one. -/
def Unicode.lowerAfter (before : Text) : Text → Text
  | [] => []
  | c :: rest =>
    (if c = 'Σ' then [if U.startsCased before && !U.startsCased rest then 'ς' else 'σ']
      else U.lowerFull c) ++ lowerAfter (c :: before) rest

def Unicode.lower (s : Text) : Text := U.lowerAfter [] s

/-- `re.sub(r"\s+", " ", s)`, inside a run of blanks or outside. -/
def collapseFrom (inRun : Bool) : Text → Text
  | [] => []
  | c :: s =>
    if isSpace c then (if inRun then [] else [' ']) ++ collapseFrom true s
    else c :: collapseFrom false s

def collapse (s : Text) : Text := collapseFrom false s

/-- The class `[\s\W_]`. -/
def Unicode.isEdge (c : Char) : Bool := isSpace c || !U.isAlnum c || c == '_'

/-- `normalize_error_signature`. The second pattern takes off what is of its class at the start
and at the end. -/
def normalizeErrorSignature (errorSummary : Text) : Text :=
  trim U.isEdge (collapse (U.lower (Py.strip errorSummary)))

variable {δ : Type} (sha256 : ByteArray → δ)

def computeFingerprint (platformKey errorSummary : Text) : δ :=
  sha256 (String.ofList (platformKey ++ '\n' :: normalizeErrorSignature U errorSummary)).toUTF8

end Model

section Lower

variable {U : Unicode}

variable {t : Text}

theorem startsCased_append (s : Text) (ht : U.startsCased t = false) :
    U.startsCased (s ++ t) = U.startsCased s := by
  induction s with
  | nil => exact ht
  | cons c s ih => grind [Unicode.startsCased, dropWhile_cons]

theorem startsCased_of_uncased (ht : ∀ c ∈ t, U.cased c = false) :
    U.startsCased t = false := by
  rw [Unicode.startsCased]
  cases hhead : (t.dropWhile U.caseIgnorable).head? with
  | none => rfl
  | some c =>
    have hmem : c ∈ t := (dropWhile_suffix _).subset (mem_of_head? hhead)
    exact ht c hmem

theorem startsCased_space {c : Char} (hc : isSpace c = true) (t : Text) :
    U.startsCased (c :: t) = false := by
  obtain ⟨-, hcased, hignorable⟩ := U.space c hc
  grind [Unicode.startsCased, dropWhile_cons_of_neg]

theorem lowerAfter_append (before s : Text) (ht : U.startsCased t = false) :
    U.lowerAfter before (s ++ t) =
      U.lowerAfter before s ++ U.lowerAfter (s.reverse ++ before) t := by
  induction s generalizing before with
  | nil => rfl
  | cons c s ih =>
    rw [cons_append, Unicode.lowerAfter, Unicode.lowerAfter, startsCased_append s ht, ih,
      append_assoc, reverse_cons, append_assoc, singleton_append]

theorem lowerAfter_before (before s : Text) {x : Text} (hx : U.startsCased x = false) :
    U.lowerAfter (before ++ x) s = U.lowerAfter before s := by
  induction s generalizing before with
  | nil => rfl
  | cons c s ih => grind [Unicode.lowerAfter, startsCased_append]

def Settled (U : Unicode) (t : Text) : Prop := ∀ c ∈ t, U.lowerFull c = [c] ∧ c ≠ 'Σ'

theorem lowerAfter_settled (before : Text) (ht : Settled U t) :
    U.lowerAfter before t = t := by
  induction t generalizing before with
  | nil => rfl
  | cons c t ih =>
    obtain ⟨⟨hc, hsigma⟩, hrest⟩ := forall_mem_cons.mp ht
    rw [Unicode.lowerAfter, if_neg hsigma, hc, ih _ hrest]
    rfl

theorem settled_lowerAfter (before t : Text) : Settled U (U.lowerAfter before t) := by
  induction t generalizing before with
  | nil => exact forall_mem_nil _
  | cons c t ih =>
    rw [Unicode.lowerAfter, Settled, forall_mem_append]
    refine ⟨?_, ih _⟩
    by_cases hc : c = 'Σ'
    · rw [if_pos hc]
      intro d hd
      rw [mem_singleton.mp hd]
      split
      · exact ⟨U.sigma.2.2, by decide⟩
      · exact ⟨U.sigma.2.1, by decide⟩
    · rw [if_neg hc]
      exact U.lowered c hc

def Around (U : Unicode) (t : Text) : Prop := ∀ c ∈ t, isSpace c = true ∨ U.isPunct c = true

theorem Around.lower {c : Char} (h : isSpace c = true ∨ U.isPunct c = true) :
    U.lowerFull c = [c] ∧ U.cased c = false ∧ U.isEdge c = true := by
  rcases h with h | h
  · obtain ⟨hlower, hcased, -⟩ := U.space c h
    exact ⟨hlower, hcased, by simp [Unicode.isEdge, h]⟩
  · obtain ⟨hlower, hcased, halnum⟩ := U.punct c h
    exact ⟨hlower, hcased, by simp [Unicode.isEdge, halnum]⟩

theorem Around.uncased (h : Around U t) : ∀ c ∈ t, U.cased c = false :=
  fun c hc => (Around.lower (h c hc)).2.1

theorem Around.edge (h : Around U t) : ∀ c ∈ t, U.isEdge c = true :=
  fun c hc => (Around.lower (h c hc)).2.2

theorem Around.settled (h : Around U t) : Settled U t := by
  intro c hc
  refine ⟨(Around.lower (h c hc)).1, ?_⟩
  rintro rfl
  have hcased := h.uncased 'Σ' hc
  rw [U.sigma.1] at hcased
  cases hcased

theorem lowerAfter_settled_append (before s : Text) {x : Text} (hx : Settled U x) :
    U.lowerAfter before (x ++ s) = x ++ U.lowerAfter (x.reverse ++ before) s := by
  induction x generalizing before with
  | nil => rfl
  | cons c x ih =>
    obtain ⟨⟨hlower, hsigma⟩, hrest⟩ := forall_mem_cons.mp hx
    rw [cons_append, Unicode.lowerAfter, if_neg hsigma, hlower, ih _ hrest,
      reverse_cons, append_assoc]
    rfl

theorem lower_around {x y : Text} (s : Text) (hx : Around U x) (hy : Around U y) :
    U.lower (x ++ s ++ y) = x ++ U.lower s ++ y := by
  have hbefore : U.startsCased x.reverse = false :=
    startsCased_of_uncased fun c hc => hx.uncased c (mem_reverse.mp hc)
  have halone : U.lowerAfter x.reverse s = U.lower s := lowerAfter_before [] s hbefore
  rw [Unicode.lower, lowerAfter_append _ _ (startsCased_of_uncased hy.uncased),
    lowerAfter_settled _ hy.settled, lowerAfter_settled_append _ _ hx.settled, append_nil,
    halone]

theorem lower_run {w : Text} (a b : Text) (hne : w ≠ []) (hw : ∀ c ∈ w, isSpace c = true) :
    U.lower (a ++ w ++ b) = U.lower a ++ w ++ U.lower b := by
  have haround : Around U w := fun c hc => .inl (hw c hc)
  have hstart : U.startsCased (w ++ b) = false := by
    cases w with
    | nil => exact absurd rfl hne
    | cons c w => exact startsCased_space (hw c mem_cons_self) (w ++ b)
  have hend : U.startsCased (w.reverse ++ a.reverse) = false := by
    obtain ⟨c, w', hw'⟩ := exists_cons_of_ne_nil (reverse_ne_nil_iff.mpr hne)
    rw [hw']
    apply startsCased_space
    apply hw
    rw [← mem_reverse, hw']
    exact mem_cons_self
  have halone : U.lowerAfter (w.reverse ++ a.reverse) b = U.lower b := lowerAfter_before [] b hend
  rw [append_assoc, Unicode.lower, lowerAfter_append _ _ hstart, append_nil,
    lowerAfter_settled_append _ _ haround.settled, halone, append_assoc]
  rfl

def SameButCase (s t : Text) : Prop :=
  List.Forall₂ (fun c d => c = d ∨ c.isAlpha = true ∧ d.isAlpha = true ∧ c.toLower = d.toLower) s t

theorem startsCased_sameButCase {s t : Text} (h : SameButCase s t) :
    U.startsCased s = U.startsCased t := by
  induction h with
  | nil => rfl
  | @cons c d s t hcd _ ih =>
    rw [Unicode.startsCased, Unicode.startsCased, dropWhile_cons, dropWhile_cons]
    rcases hcd with rfl | ⟨hc, hd, -⟩
    · split
      · exact ih
      · rfl
    · obtain ⟨-, hcased, hignorable⟩ := U.letter c hc
      obtain ⟨-, hcased', hignorable'⟩ := U.letter d hd
      grind

theorem lowerAfter_sameButCase {s t : Text} (h : SameButCase s t) {before before' : Text}
    (hbefore : SameButCase before before') : U.lowerAfter before s = U.lowerAfter before' t := by
  induction h generalizing before before' with
  | nil => rfl
  | @cons c d s t hcd hst ih =>
    have hrest := ih (List.Forall₂.cons hcd hbefore)
    rw [Unicode.lowerAfter, Unicode.lowerAfter, hrest, startsCased_sameButCase hbefore,
      startsCased_sameButCase hst]
    congr 1
    rcases hcd with rfl | ⟨hc, hd, hlower⟩
    · rfl
    · have hsigma (e : Char) (he : e.isAlpha = true) : e ≠ 'Σ' := by
        rintro rfl
        exact absurd he (by decide)
      rw [if_neg (hsigma c hc), if_neg (hsigma d hd), (U.letter c hc).1, (U.letter d hd).1, hlower]

end Lower

section Collapse

def endsInRun (inRun : Bool) (s : Text) : Bool := (s.getLast?.map isSpace).getD inRun

theorem collapseFrom_append (r : Bool) (s t : Text) :
    collapseFrom r (s ++ t) = collapseFrom r s ++ collapseFrom (endsInRun r s) t := by
  induction s generalizing r with
  | nil => rfl
  | cons c s ih =>
    have hend (r' : Bool) (hr' : r' = isSpace c) : endsInRun r (c :: s) = endsInRun r' s := by
      rw [endsInRun, endsInRun, List.getLast?_cons, hr']
      cases s.getLast? <;> rfl
    rw [cons_append, collapseFrom, collapseFrom]
    grind

theorem collapseFrom_run (r : Bool) {w : Text} (hne : w ≠ []) (hw : ∀ c ∈ w, isSpace c = true) :
    collapseFrom r w = if r then [] else [' '] := by
  induction w generalizing r with
  | nil => exact absurd rfl hne
  | cons c w ih =>
    obtain ⟨hc, hrest⟩ := forall_mem_cons.mp hw
    rw [collapseFrom, if_pos hc]
    by_cases hnil : w = []
    · rw [hnil, collapseFrom, append_nil]
    · grind

theorem collapse_run (a b : Text) {w w' : Text} (hne : w ≠ []) (hne' : w' ≠ [])
    (hw : ∀ c ∈ w, isSpace c = true) (hw' : ∀ c ∈ w', isSpace c = true) :
    collapse (a ++ w ++ b) = collapse (a ++ w' ++ b) := by
  have hsplit (v : Text) (hv : v ≠ []) (hspace : ∀ c ∈ v, isSpace c = true) :
      collapse (a ++ v ++ b) = collapse a ++
        (if endsInRun false a then [] else [' ']) ++ collapseFrom true b := by
    have hend : endsInRun false (a ++ v) = true := by
      rw [endsInRun, List.getLast?_append, List.getLast?_eq_some_getLast hv]
      exact hspace _ (getLast_mem hv)
    rw [collapse, collapseFrom_append, collapseFrom_append, hend, collapseFrom_run _ hv hspace]
    rfl
  rw [hsplit w hne hw, hsplit w' hne' hw']

theorem mem_collapseFrom {r : Bool} {s : Text} {c : Char} (h : c ∈ collapseFrom r s) :
    c = ' ' ∨ c ∈ s ∧ isSpace c = false := by
  induction s generalizing r with
  | nil => cases h
  | cons d s ih =>
    rw [collapseFrom] at h
    cases hd : isSpace d with
    | true => grind
    | false => grind

theorem collapseFrom_idem (r : Bool) (s : Text) :
    collapseFrom r (collapseFrom r s) = collapseFrom r s := by
  induction s generalizing r with
  | nil => rfl
  | cons c s ih =>
    rw [collapseFrom]
    cases hc : isSpace c with
    | true =>
      rw [if_pos rfl]
      cases r with
      | true => exact ih true
      | false =>
        have hblank : isSpace ' ' = true := by decide
        change collapseFrom false (' ' :: collapseFrom true s) = ' ' :: collapseFrom true s
        rw [collapseFrom, if_pos hblank, ih true]
        rfl
    | false => rw [if_neg Bool.false_ne_true, collapseFrom, if_neg (by simp [hc]), ih false]

theorem collapseFrom_head (r : Bool) {m : Text} (h : ∀ c ∈ m.head?, isSpace c = false) :
    collapseFrom r m = collapse m := by
  cases m with
  | nil => rfl
  | cons c m =>
    have hc : ¬isSpace c = true := by simp [h c rfl]
    rw [collapse, collapseFrom, collapseFrom, if_neg hc, if_neg hc]

variable {U : Unicode}

theorem not_isSpace_of_not_isEdge {c : Char} (h : U.isEdge c = false) : isSpace c = false := by
  rw [Unicode.isEdge, Bool.or_eq_false_iff, Bool.or_eq_false_iff] at h
  exact h.1.1

theorem edge_collapseFrom {r : Bool} {x : Text} (hx : ∀ c ∈ x, U.isEdge c = true) :
    ∀ c ∈ collapseFrom r x, U.isEdge c = true := by
  intro c hc
  rcases mem_collapseFrom hc with rfl | ⟨hmem, -⟩
  · have hblank : isSpace ' ' = true := by decide
    rw [Unicode.isEdge, hblank]
    rfl
  · exact hx c hmem

theorem trimmed_collapse {m : Text} (hm : Trimmed U.isEdge m) : Trimmed U.isEdge (collapse m) where
  head := by
    intro c hc
    cases m with
    | nil => cases hc
    | cons d m =>
      have hd := hm.head d rfl
      rw [collapse, collapseFrom, if_neg (by simp [not_isSpace_of_not_isEdge hd])] at hc
      rw [← Option.some.inj hc]
      exact hd
  last := by
    intro c hc
    cases hlast : m.getLast? with
    | none =>
      rw [List.getLast?_eq_none_iff.mp hlast] at hc
      cases hc
    | some d =>
      have hd := hm.last d hlast
      obtain ⟨m', rfl⟩ := List.getLast?_eq_some_iff.mp hlast
      have hself (r : Bool) : collapseFrom r [d] = [d] := by
        rw [collapseFrom, if_neg (by simp [not_isSpace_of_not_isEdge hd]), collapseFrom]
      grind [collapse, collapseFrom_append]

theorem trim_collapse (t : Text) : trim U.isEdge (collapse t) = collapse (trim U.isEdge t) := by
  obtain ⟨x, y, hsplit, hx, hy⟩ := exists_around U.isEdge t
  have hm : Trimmed U.isEdge (trim U.isEdge t) := trim_trimmed t
  generalize trim U.isEdge t = m at hsplit hm
  rw [hsplit, collapse, collapseFrom_append, collapseFrom_append,
    collapseFrom_head _ fun c hc => not_isSpace_of_not_isEdge (hm.head c hc)]
  exact trim_around (edge_collapseFrom hx) (edge_collapseFrom hy) (trimmed_collapse hm)

end Collapse

section Signature

variable {U : Unicode}

theorem normalizeErrorSignature_eq (s : Text) :
    normalizeErrorSignature U s = collapse (trim U.isEdge (U.lower s)) := by
  obtain ⟨x, y, hsplit, hx, hy⟩ := exists_around isSpace s
  have hx' : Around U x := fun c hc => .inl (hx c hc)
  have hy' : Around U y := fun c hc => .inl (hy c hc)
  have hlower : trim U.isEdge (U.lower s) = trim U.isEdge (U.lower (trim isSpace s)) := by
    conv_lhs => rw [hsplit, lower_around _ hx' hy', trim_append _ hx'.edge hy'.edge]
  rw [normalizeErrorSignature, trim_collapse, hlower]
  rfl

theorem newline_notMem_signature (s : Text) : '\n' ∉ normalizeErrorSignature U s := by
  rw [normalizeErrorSignature_eq]
  intro hmem
  rcases mem_collapseFrom hmem with h | ⟨-, h⟩
  · exact absurd h (by decide)
  · exact absurd h (by decide)

structure Normal (U : Unicode) (s : Text) : Prop where
  settled : Settled U s
  trimmed : Trimmed U.isEdge s
  collapsed : collapse s = s

theorem normal_signature (s : Text) : Normal U (normalizeErrorSignature U s) := by
  rw [normalizeErrorSignature_eq]
  refine ⟨?_, trimmed_collapse (trim_trimmed _), collapseFrom_idem false _⟩
  intro c hc
  rcases mem_collapseFrom hc with rfl | ⟨hmem, -⟩
  · exact ⟨(U.space ' ' (by decide)).1, by decide⟩
  · have htrim := trim_infix (p := U.isEdge) (U.lower s)
    exact settled_lowerAfter [] s c (htrim.subset hmem)

theorem Normal.signature_eq {s : Text} (h : Normal U s) : normalizeErrorSignature U s = s := by
  rw [normalizeErrorSignature_eq, Unicode.lower, lowerAfter_settled [] h.settled,
    h.trimmed.eq_self, h.collapsed]

theorem payload_inj {p q a b : Text} (ha : '\n' ∉ a) (hb : '\n' ∉ b) :
    p ++ '\n' :: a = q ++ '\n' :: b ↔ p = q ∧ a = b := by
  constructor
  · intro h
    -- the longer platform key would reach into a signature
    have hlonger {p q a b : Text} (ha : '\n' ∉ a) (t : Text) (hq : q = p ++ t)
        (ht : '\n' :: a = t ++ '\n' :: b) : p = q ∧ a = b := by
      cases t with
      | nil => grind
      | cons c t => grind
    rcases append_eq_append_iff.mp h with ⟨t, hq, ht⟩ | ⟨t, hp, ht⟩
    · exact hlonger ha t hq ht
    · obtain ⟨hqp, hba⟩ := hlonger hb t hp ht
      exact ⟨hqp.symm, hba.symm⟩
  · rintro ⟨rfl, rfl⟩
    rfl

/-- The fingerprint of an alert stands for its platform and its normalized signature, provided
that the hash has no collisions. -/
theorem fingerprint_identifies (U : Unicode) {δ : Type} (sha256 : ByteArray → δ)
    (hsha256 : Function.Injective sha256) :
    (∀ p q a b, computeFingerprint U sha256 p a = computeFingerprint U sha256 q b ↔
      p = q ∧ normalizeErrorSignature U a = normalizeErrorSignature U b) ∧
    (∀ s, normalizeErrorSignature U (normalizeErrorSignature U s) = normalizeErrorSignature U s) ∧
    (∀ s t, SameButCase s t → normalizeErrorSignature U s = normalizeErrorSignature U t) ∧
    (∀ a w w' b, w ≠ [] → w' ≠ [] → (∀ c ∈ w, isSpace c = true) → (∀ c ∈ w', isSpace c = true) →
      normalizeErrorSignature U (a ++ w ++ b) = normalizeErrorSignature U (a ++ w' ++ b)) ∧
    ∀ x s y, Around U x → Around U y →
      normalizeErrorSignature U (x ++ s ++ y) = normalizeErrorSignature U s := by
  refine ⟨?_, ?_, ?_, ?_, ?_⟩
  · intro p q a b
    rw [computeFingerprint, computeFingerprint, hsha256.eq_iff, String.toUTF8_eq_toByteArray,
      String.toUTF8_eq_toByteArray, String.toByteArray_inj, String.ofList_inj,
      payload_inj (newline_notMem_signature a) (newline_notMem_signature b)]
  · exact fun s => (normal_signature s).signature_eq
  · intro s t h
    rw [normalizeErrorSignature_eq, normalizeErrorSignature_eq, Unicode.lower, Unicode.lower,
      lowerAfter_sameButCase h List.Forall₂.nil]
  · intro a w w' b hne hne' hw hw'
    rw [normalizeErrorSignature_eq, normalizeErrorSignature_eq, ← trim_collapse, ← trim_collapse,
      lower_run a b hne hw, lower_run a b hne' hw', collapse_run _ _ hne hne' hw hw']
  · intro x s y hx hy
    rw [normalizeErrorSignature_eq, normalizeErrorSignature_eq, lower_around s hx hy,
      trim_append _ hx.edge hy.edge]

end Signature

section Sample

theorem forall_ascii {P : Char → Prop} [DecidablePred P]
    (h : (List.range 128).all (fun n => decide (P (Char.ofNat n))) = true) {c : Char}
    (hc : c.toNat < 128) : P c := by
  have hone := all_eq_true.mp h c.toNat (mem_range.mpr hc)
  simp_all

theorem toLower_large {c : Char} (h : 128 ≤ c.toNat) : c.toLower = c := by
  rw [Char.toLower, dif_neg]
  rintro ⟨-, hle⟩
  have hle' : c.toNat ≤ 90 := UInt32.le_iff_toNat_le.mp hle
  omega

theorem isAlpha_space {c : Char} (h : isSpace c = true) : c.isAlpha = false := by
  rw [Bool.eq_false_iff]
  intro halpha
  have hsmall : c.toNat < 128 := by
    by_contra hlarge
    simp only [Char.isAlpha, Char.isUpper, Char.isLower, Bool.or_eq_true, Bool.and_eq_true,
      decide_eq_true_eq] at halpha
    rcases halpha with ⟨-, hle⟩ | ⟨-, hle⟩
    · have hle' : c.toNat ≤ 90 := UInt32.le_iff_toNat_le.mp hle
      omega
    · have hle' : c.toNat ≤ 122 := UInt32.le_iff_toNat_le.mp hle
      omega
  have hall : isSpace c = true → c.isAlpha = false :=
    forall_ascii (P := fun c => isSpace c = true → c.isAlpha = false) (by decide) hsmall
  rw [hall h] at halpha
  cases halpha

theorem lowered_ascii (c : Char) (hc : c ≠ 'Σ') :
    ∀ d ∈ [c.toLower], [d.toLower] = [d] ∧ d ≠ 'Σ' := by
  intro d hd
  rw [mem_singleton.mp hd]
  by_cases hsmall : c.toNat < 128
  · exact forall_ascii (P := fun c => [c.toLower.toLower] = [c.toLower] ∧ c.toLower ≠ 'Σ')
      (by decide) hsmall
  · grind [toLower_large]

theorem space_ascii (c : Char) (h : isSpace c = true) :
    [c.toLower] = [c] ∧ (c.isAlpha || c == 'Σ') = false ∧ false = false := by
  have hlower : c.toLower = c := by
    by_cases hsmall : c.toNat < 128
    · exact forall_ascii (P := fun c => isSpace c = true → c.toLower = c) (by decide) hsmall h
    · exact toLower_large (not_lt.mp hsmall)
  have hsigma : c ≠ 'Σ' := by
    rintro rfl
    exact absurd h (by decide)
  exact ⟨by rw [hlower], by simp [isAlpha_space h, hsigma], rfl⟩

theorem letter_ascii (c : Char) (h : c.isAlpha = true) :
    [c.toLower] = [c.toLower] ∧ (c.isAlpha || c == 'Σ') = true ∧ false = false :=
  ⟨rfl, by simp [h], rfl⟩

theorem punct_ascii (c : Char) (h : ['.', ',', '!'].contains c = true) :
    [c.toLower] = [c] ∧ (c.isAlpha || c == 'Σ') = false ∧ c.isAlphanum = false := by
  have hmem : c ∈ ['.', ',', '!'] := by simpa using h
  simp only [mem_cons, not_mem_nil, or_false] at hmem
  rcases hmem with rfl | rfl | rfl <;> decide

def asciiUnicode : Unicode where
  lowerFull c := [c.toLower]
  cased c := c.isAlpha || c == 'Σ'
  caseIgnorable _ := false
  isAlnum := Char.isAlphanum
  isPunct := ['.', ',', '!'].contains
  lowered := lowered_ascii
  sigma := by decide
  letter := letter_ascii
  space := space_ascii
  punct := punct_ascii

/-- Two reports of the same error. -/
theorem fingerprint_identifies_reports :
    computeFingerprint asciiUnicode id "p".toList "  Query FAILED:\n out of memory!".toList =
      computeFingerprint asciiUnicode id "p".toList "query failed: out\tof memory".toList :=
  ((fingerprint_identifies asciiUnicode id Function.injective_id).1 _ _ _ _).mpr
    ⟨rfl, by decide⟩

end Sample

end DbAgent.Fingerprint
