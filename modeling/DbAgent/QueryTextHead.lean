import DbAgent.CutRedaction
import DbAgent.QueryListing

/-! The head of a query's text in the list of queries: the text is cut at a byte and redacted
afterwards. The symbols of both are told apart by the places of their bytes. -/
namespace DbAgent.Queries

open List

open JsonText (Json)
open Redact Scan

section Places

theorem cut_parts (i n : ℕ) (q : List Char) : ∃ before behind piece,
    spreadFrom i (q.map .char) = before ++ behind ∧ spreadFrom i (cutAt n q) = before ++ piece ∧
      (piece = [] ∨ ∃ (j : ℕ) (c : Char) (rest : List (Symbol × Option ℕ)) (bytes : List UInt8),
        behind = (.char c, some j) :: rest ∧
        piece = spreadFrom j (bytes.map .byte) ∧ bytes.length < c.utf8Size) := by
  induction q generalizing i n with
  | nil => exact ⟨[], [], [], rfl, rfl, Or.inl rfl⟩
  | cons c q ih =>
    rw [cutAt]
    split_ifs with hfits
    · obtain ⟨before, behind, piece, htext, hhead, hpiece⟩ := ih (i + c.utf8Size) (n - c.utf8Size)
      refine ⟨(.char c, some i) :: before, behind, piece, ?_, ?_, hpiece⟩
      · exact congrArg (_ :: ·) htext
      · exact congrArg (_ :: ·) hhead
    · refine ⟨[], _, _, rfl, rfl, Or.inr ⟨i, c, _, _, rfl, rfl, ?_⟩⟩
      rw [length_take]
      omega

end Places

section Head

variable (U : Unicode)

def HeadHides (q : List Char) : Prop :=
  ∀ c ∈ spread (q.map .char), c ∉ (string U placed (spread (q.map .char))).1 →
    ∀ s ∈ (string U placed (spread (cutAt 500 q))).1, Apart c s

/-- Every password whose `@` is cut off is in the value of a pair of the head, as far as the head
has it; and the head has a trigger if the text has one and the head shows the value of a pair. -/
structure HeadHarmless (q : List Char) : Prop where
  urls : ∀ h ∈ (url placed.look).findAll (spread (q.map .char)),
    ¬h.third ⊆ spread (cutAt 500 q) → ∀ c ∈ h.second, ∀ s ∈ spread (cutAt 500 q), ¬Apart c s →
      hasTrigger U placed (spread (cutAt 500 q)) = true ∧
        ∃ g ∈ (kv placed.look).findAll (redactURLs placed (spread (cutAt 500 q))), s ∈ g.third
  pairs : hasTrigger U placed (spread (q.map .char)) = true →
    hasTrigger U placed (spread (cutAt 500 q)) = true ∨
      ∀ h ∈ (kv placed.look).findAll (redactURLs placed (spread (q.map .char))),
        ∀ c ∈ h.third, ∀ s ∈ spread (cutAt 500 q), Apart c s

variable {U}

theorem holds_of_piece {j : ℕ} {c : Char} {bytes : List UInt8} (hlen : bytes.length < c.utf8Size)
    {s : Symbol × Option ℕ} (hs : s ∈ spreadFrom j (bytes.map .byte)) :
    (∃ b, s.1 = .byte b) ∧ (∀ m, Holds s m → Holds (.char c, some j) m) ∧ c ≠ '@' := by
  have hmem := mem_map_of_mem (f := Prod.fst) hs
  rw [spreadFrom_fst] at hmem
  obtain ⟨b, -, hb⟩ := mem_map.mp hmem
  obtain ⟨k, hk, hle, hsum⟩ := mem_spreadFrom hs
  have htotal : ((bytes.map Symbol.byte).map size).sum = bytes.length := by
    simp [Function.comp_def, size]
  have hpos := size_pos s.1
  refine ⟨⟨b, hb.symm⟩, ?_, ?_⟩
  · rintro m ⟨k', hk', hle', hlt⟩
    obtain rfl : k = k' := Option.some.inj (hk.symm.trans hk')
    refine ⟨j, rfl, by omega, ?_⟩
    change m < j + c.utf8Size
    omega
  · rintro rfl
    have hone : Char.utf8Size '@' = 1 := by decide
    omega

theorem exists_cut (q : List Char) : ∃ C : Cut placed, C.text = spread (q.map .char) ∧
    C.head = spread (cutAt 500 q) ∧ (∀ c ∈ C.text, ∀ s ∈ C.head, C.Shows c s ↔ ¬Apart c s) ∧
      ∀ s ∈ C.piece, ∃ b, s.1 = .byte b := by
  obtain ⟨before, behind, piece, htext, hhead, hpiece⟩ := cut_parts 0 500 q
  have hinside : ∀ s ∈ piece, (∃ b, s.1 = .byte b) ∧ ∃ d ∈ behind.head?,
      (∀ m, Holds s m → Holds d m) ∧ placed.look d ≠ '@' := by
    intro s hs
    rcases hpiece with rfl | ⟨j, c, rest, bytes, rfl, rfl, hlen⟩
    · cases hs
    · obtain ⟨hb, hholds, hc⟩ := holds_of_piece hlen hs
      exact ⟨hb, _, rfl, hholds, hc⟩
  let C : Cut placed := {
    before := before
    behind := behind
    piece := piece
    piece_look := by
      intro s hs
      obtain ⟨⟨b, hb⟩, -⟩ := hinside s hs
      change s.1.rune = _
      rw [hb]
      rfl
    through := by
      intro hne c hc
      obtain ⟨s, hs⟩ := exists_mem_of_ne_nil _ hne
      grind
    text_distinct := htext ▸ spreadFrom_distinct 0 _
    head_distinct := hhead ▸ spreadFrom_distinct 0 _ }
  refine ⟨C, htext.symm, hhead.symm, ?_, fun s hs => (hinside s hs).1⟩
  intro c hc s hs
  have hself (x : Symbol × Option ℕ) (hx : x ∈ C.head) : ∃ m, Holds x m := by
    rw [show C.head = spreadFrom 0 (cutAt 500 q) from hhead.symm] at hx
    exact holds_self hx
  have hsame (x : Symbol × Option ℕ) (hx : x ∈ C.text) (m : ℕ) (hcm : Holds c m)
      (hxm : Holds x m) : c = x := by
    rw [show C.text = spreadFrom 0 (q.map .char) from htext.symm] at hc hx
    exact eq_of_holds hc hx hcm hxm
  constructor
  · rintro (⟨-, rfl⟩ | ⟨hpiece, hbehind⟩) hapart
    · obtain ⟨m, hm⟩ := hself c hs
      exact hapart m hm hm
    · obtain ⟨m, hm⟩ := hself s hs
      obtain ⟨-, d, hd, hholds, -⟩ := hinside s hpiece
      obtain rfl : d = c := Option.some.inj (hd.symm.trans hbehind)
      exact hapart m (hholds m hm) hm
  · intro hshare
    rw [Apart, not_forall] at hshare
    obtain ⟨m, hm⟩ := hshare
    rw [Classical.not_imp, not_not] at hm
    rcases mem_append.mp hs with hbefore | hpiece
    · exact Or.inl ⟨hbefore, hsame s (mem_append_left _ hbefore) m hm.1 hm.2⟩
    · obtain ⟨-, d, hd, hholds, -⟩ := hinside s hpiece
      have hmem : d ∈ C.text := mem_append_right _ (mem_of_mem_head? hd)
      rw [hsame d hmem m hm.1 (hholds m hm.2)]
      exact Or.inr ⟨hpiece, hd⟩

theorem apart_mark {c s : Symbol × Option ℕ} (hs : s ∈ placed.mark) : Apart c s := by
  rintro m - ⟨i, hi, -⟩
  obtain ⟨d, -, rfl⟩ := mem_map.mp hs
  cases hi

theorem headHides_iff (q : List Char) : HeadHides U q ↔ HeadHarmless U q := by
  obtain ⟨C, htext, hhead, hshows, hbytes⟩ := exists_cut q
  have hhides : C.Hides U ↔ HeadHides U q := by
    rw [HeadHides, ← htext, ← hhead]
    constructor
    · intro h c hc hgone s hs
      rcases mem_string hs with hmem | hmark
      · by_contra hshare
        exact h c s ((hshows c hc s hmem).mpr hshare) hgone hs
      · exact apart_mark hmark
    · intro h c s hshow hgone hs
      exact (hshows c hshow.mem_text s hshow.mem_head).mp hshow (h c hshow.mem_text hgone s hs)
  -- what is found in the text or in its redacted form is in the text, or has no place
  have hshare (c s : Symbol × Option ℕ) (hc : c ∈ C.text ∨ c ∈ placed.mark) :
      C.Shows c s ↔ s ∈ C.head ∧ ¬Apart c s := by
    rcases hc with hc | hc
    · constructor
      · intro hshow
        exact ⟨hshow.mem_head, (hshows c hc s hshow.mem_head).mp hshow⟩
      · grind
    · constructor
      · intro hshow
        exact absurd hc (C.distinct_text.fresh c hshow.mem_text)
      · rintro ⟨-, hnot⟩
        exact absurd (apart_mark hc).symm hnot
  have hurl {h : Hit (Symbol × Option ℕ)} (hh : h ∈ (url placed.look).findAll C.text) :
      (h.third ⊆ C.before ↔ h.third ⊆ C.head) ∧ ∀ c ∈ h.second, c ∈ C.text := by
    obtain ⟨u, hu, rfl, a, rest, heq⟩ := url_of_mem hh
    refine ⟨⟨fun hsub => subset_append_of_subset_left _ hsub, ?_⟩, ?_⟩
    · intro hsub c hc
      rcases mem_append.mp (hsub hc) with hin | hin
      · exact hin
      · obtain rfl : c = u.sign := mem_singleton.mp hc
        have hlook := C.piece_look u.sign hin
        rw [hu.sign] at hlook
        exact absurd hlook (by decide)
    · intro c hc
      rw [heq]
      simp [Hit.text, hc]
  have hkv {h : Hit (Symbol × Option ℕ)}
      (hh : h ∈ (kv placed.look).findAll (redactURLs placed C.text)) :
      ∀ c ∈ h.third, c ∈ C.text ∨ c ∈ placed.mark := by
    intro c hc
    obtain ⟨p, -, rfl, a, rest, heq, -⟩ := kv_of_mem hh
    apply mem_redactURLs
    rw [heq]
    simp [Hit.text, hc]
  rw [← hhides, Cut.hides_iff]
  constructor
  · intro h
    constructor
    · rw [← htext, ← hhead]
      intro g hg hcut c hc s hs hnot
      have hshow := (hshare c s (Or.inl ((hurl hg).2 c hc))).mpr ⟨hs, hnot⟩
      exact h.urls g hg (fun hsub => hcut ((hurl hg).1.mp hsub)) c hc s hshow
    · rw [← htext, ← hhead]
      intro htrigger
      refine (h.pairs htrigger).imp_right fun hnone g hg c hc s hs => ?_
      grind
  · intro h
    constructor
    · intro g hg hcut c hc s hshow
      obtain ⟨hs, hnot⟩ := (hshare c s (Or.inl ((hurl hg).2 c hc))).mp hshow
      have hurls := h.urls
      grind
    · intro htrigger
      have hpairs := h.pairs
      grind

end Head

section Listed

variable {G : Go} {U : Unicode}

theorem listRows_mem {f : Filters} {limit : ℤ} {items : List (Json ℚ)} {out rows : List QueryRow}
    (h : listRows G f limit items out = .ok rows) {row : QueryRow} (hrow : row ∈ rows) :
    row ∈ out ∨ ∃ src, .obj src ∈ items ∧ mapV1QueryRow G src = .ok row := by
  induction items generalizing out with
  | nil =>
    rw [← Except.ok.inj h] at hrow
    exact Or.inl hrow
  | cons item items ih =>
    cases item with
    | obj src => grind [listRows, mapV1QueryRow]
    | null => cases h
    | bool b => cases h
    | num n => cases h
    | str s => cases h
    | arr xs => cases h

theorem mem_of_goSlice {type : Container} {elems : List (GoValue ℚ)} {i : ℕ} {x : GoValue ℚ}
    (h : (goSlice type elems).child (.index i) = some x) : x ∈ elems := by
  grind [goSlice, GoValue.child, get_mem]

theorem lookup_filter {l : List (List Symbol × List Symbol)} (hl : (l.map Prod.fst).Nodup)
    (p : List Symbol × List Symbol → Bool) (k : List Symbol) :
    (l.filter p).lookup k = (l.lookup k).filter fun v => p (k, v) := by
  induction l with
  | nil => rfl
  | cons kv l ih => grind

def shownHead (U : Unicode) (q : String) : Option (GoValue ℚ) :=
  if q = "" then none
  else some (.string ((string U placed (spread (cutAt 500 q.toList))).1.map Prod.fst))

theorem get_head {src : Object} {row : QueryRow} (h : mapV1QueryRow G src = .ok row) :
    get (value U (goMap row.fields)).1 "query_text_head" = shownHead U (getString src "query") := by
  have hcut : row.queryTextHead = cutAt 500 (getString src "query").toList := by
    rw [mapV1QueryRow] at h
    split_ifs at h
    rw [← Except.ok.inj h]
  have hnil (q : String) : cutAt 500 q.toList = [] ↔ q = "" := by
    rw [← String.toList_eq_nil_iff]
    cases q.toList with
    | nil => exact iff_of_true rfl rfl
    | cons c cs =>
      have hfits : c.utf8Size ≤ 500 := c.utf8Size_le_four.trans (by decide)
      rw [cutAt, if_pos hfits]
      simp
  have hmap (t : List Symbol) : (string U placed (spread t)).1.map Prod.fst =
      (string U goString t).1 := by
    have hmark : placed.mark.map Prod.fst = goString.mark := map_map.trans (map_id _)
    have hplain := string_map (U := U) (A := placed) (B := goString) Prod.fst (fun _ => rfl) hmark
      (spread t)
    rw [spread, spreadFrom_fst] at hplain
    exact hplain
  have hlookup : row.fields.lookup (keyOf "query_text_head") =
      (some row.queryTextHead).filter fun t => t ≠ [] := by
    rw [QueryRow.fields, lookup_append, lookup_filter]
    · rfl
    · change (fieldNames.drop 2).Nodup
      decide
  rw [get_field row (by decide), hlookup, hcut, shownHead, hmap]
  grind

/-- No byte of a secret of a query's text is shown at its place in the head of it if and only if
the cut is harmless; and such heads are what `presto_list_queries` returns. -/
theorem query_text_head_hides_iff (U : Unicode) :
    (∀ q : String, HeadHides U q.toList ↔ HeadHarmless U q.toList) ∧
    ∀ (G : Go) (items : List (Json ℚ)) (args : Object) (data : GoValue ℚ) (redacted : Bool),
      toolPrestoListQueries G U (.ok (.arr items)) args = .ok (data, redacted) →
      ∀ i x, data.child (.index i) = some x → ∃ src, .obj src ∈ items ∧
        get x "query_text_head" = shownHead U (getString src "query") := by
  refine ⟨fun q => headHides_iff q.toList, ?_⟩
  intro G items args data redacted h i x hx
  cases hsince : parseSinceDuration (getStringDefault args "since" "1h") with
  | error e =>
    simp only [toolPrestoListQueries, hsince] at h
    cases h
  | ok duration =>
    rw [toolPrestoListQueries_arr hsince] at h
    cases hrows : listRows G (filtersOf G args duration) (getIntDefault args "limit" 50) items []
      with
    | error e =>
      rw [hrows] at h
      cases h
    | ok rows =>
      rw [hrows] at h
      have hdata : data = (redactRows U rows).1 := congrArg Prod.fst (Except.ok.inj h).symm
      rw [hdata, redactRows_data] at hx
      obtain ⟨row, hrow, rfl⟩ := mem_map.mp (mem_of_goSlice hx)
      rcases listRows_mem hrows hrow with hnone | ⟨src, hsrc, hmap⟩
      · cases hnone
      · exact ⟨src, hsrc, get_head hmap⟩

def cutQuery : List Char := List.replicate 490 ' ' ++ "x://u:secret@h".toList

theorem cut_password_shown :
    (string sampleUnicode goString (cutAt 500 cutQuery)).1 =
      (List.replicate 490 ' ' ++ "x://u:secr".toList).map .char ∧
    ¬HeadHides sampleUnicode cutQuery := by
  refine ⟨by decide +kernel, ?_⟩
  intro h
  have htext : (Symbol.char 's', some 496) ∈ spread (cutQuery.map .char) := by decide +kernel
  have hgone : (Symbol.char 's', some 496) ∉
      (string sampleUnicode placed (spread (cutQuery.map .char))).1 := by decide +kernel
  have hshown : (Symbol.char 's', some 496) ∈
      (string sampleUnicode placed (spread (cutAt 500 cutQuery))).1 := by decide +kernel
  have hholds : Holds (.char 's', some 496) 496 := ⟨496, rfl, by decide, by decide⟩
  exact h _ htext hgone _ hshown 496 hholds hholds

end Listed

end DbAgent.Queries
