import Mathlib.Data.List.Sort
import Mathlib.Data.Nat.Notation

/-! Queries with an order and a limit, and lists that are read page by page: each
page is cut off in front of a surplus row, and the last row of a page says where
the next one begins. -/
namespace DbAgent.KeysetPaging

open List

universe u v

section Queries

variable {ρ : Type u} {τ : Type v} [LinearOrder τ]

/-- `a` may stand before `b` in a result that is ordered by these columns, each
descending. -/
def precedes : List (ρ → τ) → ρ → ρ → Bool
  | [], _, _ => true
  | f :: fs, a, b => decide (f b < f a) || (decide (f b = f a) && precedes fs a b)

/-- `SELECT * WHERE holds ORDER BY orderBy LIMIT limit`. -/
structure Query (ρ : Type u) (τ : Type v) where
  holds : ρ → Bool
  orderBy : List (ρ → τ)
  limit : ℕ

def Answers (table : List ρ) (q : Query ρ τ) (rows : List ρ) : Prop :=
  ∃ sorted : List ρ, sorted.Perm (table.filter q.holds) ∧
    sorted.Pairwise (fun a b => precedes q.orderBy a b = true) ∧ rows = sorted.take q.limit

theorem precedes_cons (f : ρ → τ) (fs : List (ρ → τ)) (a b : ρ) :
    precedes (f :: fs) a b = true ↔ f b < f a ∨ (f b = f a ∧ precedes fs a b = true) := by
  simp [precedes]

theorem precedes_total (fs : List (ρ → τ)) (a b : ρ) :
    precedes fs a b = true ∨ precedes fs b a = true := by
  induction fs with
  | nil => exact .inl rfl
  | cons f fs ih => grind [precedes_cons]

theorem precedes_trans (fs : List (ρ → τ)) {a b c : ρ} (hab : precedes fs a b = true)
    (hbc : precedes fs b c = true) : precedes fs a c = true := by
  induction fs with
  | nil => rfl
  | cons f fs ih => grind [precedes_cons]

theorem precedes_append (fs gs : List (ρ → τ)) {a b : ρ} (h : precedes (fs ++ gs) a b = true) :
    precedes fs a b = true := by
  induction fs with
  | nil => rfl
  | cons f fs ih => grind [precedes_cons]

def tieBroken (ties : List (ρ → τ)) (table : List ρ) (q : Query ρ τ) : List ρ :=
  (table.filter q.holds).insertionSort (fun a b => precedes (q.orderBy ++ ties) a b = true)

theorem tieBroken_perm (ties : List (ρ → τ)) (table : List ρ) (q : Query ρ τ) :
    (tieBroken ties table q).Perm (table.filter q.holds) :=
  perm_insertionSort _ _

theorem tieBroken_sorted (ties : List (ρ → τ)) (table : List ρ) (q : Query ρ τ) :
    (tieBroken ties table q).Pairwise
      (fun a b => precedes (q.orderBy ++ ties) a b = true) := by
  have htotal : Std.Total (fun a b : ρ => precedes (q.orderBy ++ ties) a b = true) :=
    ⟨precedes_total _⟩
  have htrans : IsTrans ρ (fun a b => precedes (q.orderBy ++ ties) a b = true) :=
    ⟨fun _ _ _ => precedes_trans _⟩
  exact pairwise_insertionSort _ _

theorem answers_tieBroken (ties : List (ρ → τ)) (table : List ρ) (q : Query ρ τ) :
    Answers table q ((tieBroken ties table q).take q.limit) :=
  ⟨_, tieBroken_perm ties table q,
    (tieBroken_sorted ties table q).imp fun h => precedes_append _ _ h, rfl⟩

end Queries

section Cutting

variable {ρ : Type u} {γ : Type v}

structure Page (ρ : Type u) (γ : Type v) where
  items : List ρ
  nextCursor : Option γ

/-- `rows[:limit]`, with the cursor of the last of them if there are more. -/
def cut (cursor : ρ → γ) (limit : ℕ) (rows : List ρ) : Page ρ γ where
  items := rows.take limit
  nextCursor := if limit < rows.length then (rows.take limit).getLast?.map cursor else none

theorem cut_take (cursor : ρ → γ) {limit m : ℕ} (h : limit < m) (rows : List ρ) :
    cut cursor limit (rows.take m) = cut cursor limit rows := by
  have htake : (rows.take m).take limit = rows.take limit := by grind
  have hlength : limit < (rows.take m).length ↔ limit < rows.length := by
    rw [length_take]
    omega
  simp only [cut, htake, hlength]

theorem cut_last (cursor : ρ → γ) {limit : ℕ} {rows : List ρ} (h : rows.length ≤ limit) :
    cut cursor limit rows = ⟨rows, none⟩ := by
  simp only [cut, take_of_length_le h, Nat.not_lt.mpr h, if_false]

theorem cut_more (cursor : ρ → γ) (pre : List ρ) (x : ρ) {post : List ρ} (h : post ≠ []) :
    cut cursor (pre.length+1) (pre ++ x :: post) = ⟨pre ++ [x], some (cursor x)⟩ := by
  have htake : (pre ++ x :: post).take (pre.length+1) = pre ++ [x] := by grind
  have hlength : pre.length+1 < (pre ++ x :: post).length := by
    have hpost := length_pos_of_ne_nil h
    rw [length_append, length_cons]
    omega
  simp only [cut, htake, hlength, if_true, List.getLast?_concat, Option.map_some]

theorem exists_cut {limit : ℕ} {rows : List ρ} (hpos : 0 < limit) (h : limit < rows.length) :
    ∃ pre x post, rows = pre ++ x :: post ∧ pre.length+1 = limit ∧ post ≠ [] := by
  have hlt : limit-1 < rows.length := by omega
  refine ⟨rows.take (limit-1), rows[limit-1], rows.drop limit, ?_, ?_, ?_⟩
  · grind [drop_eq_getElem_cons, take_append_drop]
  · grind
  · simp_all

end Cutting

section Following

variable {ρ γ ℓ ε : Type}

/-- Follow the cursors to the end, with a limit for each page; `none` if a call
fails or there are more pages than the fuel. -/
def follow (fetch : Option γ → ℓ → Except ε (Page ρ γ)) :
    (ℕ → ℓ) → ℕ → Option γ → Option (List (List ρ))
  | _, 0, _ => none
  | limits, fuel+1, cursor =>
    match fetch cursor (limits 0) with
    | .error _ => none
    | .ok page =>
      match page.nextCursor with
      | none => some [page.items]
      | some next =>
        (follow fetch (fun i => limits (i+1)) fuel (some next)).map (page.items :: ·)

/-- The pages are the rows, each once, in the order of `before`, and all but the
last are full. -/
structure Exact (size : ℓ → ℕ) (before : ρ → ρ → Prop) (limits : ℕ → ℓ) (rows : List ρ)
    (pages : List (List ρ)) : Prop where
  perm : pages.flatten.Perm rows
  ordered : pages.flatten.Pairwise before
  full : ∀ i items, pages[i]? = some items → i+1 < pages.length → items.length = size (limits i)

variable {limits : ℕ → ℓ}

theorem Exact.imp {size : ℓ → ℕ} {before before' : ρ → ρ → Prop} {rows : List ρ}
    {pages : List (List ρ)} (h : Exact size before limits rows pages)
    (himp : ∀ a b, before a b → before' a b) : Exact size before' limits rows pages :=
  ⟨h.perm, h.ordered.imp fun hab => himp _ _ hab, h.full⟩

variable {fetch : Option γ → ℓ → Except ε (Page ρ γ)}

theorem follow_end {cursor : Option γ} {items : List ρ} (fuel : ℕ)
    (h : fetch cursor (limits 0) = .ok ⟨items, none⟩) :
    follow fetch limits (fuel+1) cursor = some [items] := by
  simp only [follow, h]

theorem follow_next {cursor : Option γ} {items : List ρ} {next : γ} (fuel : ℕ)
    (h : fetch cursor (limits 0) = .ok ⟨items, some next⟩) :
    follow fetch limits (fuel+1) cursor =
      (follow fetch (fun i => limits (i+1)) fuel (some next)).map (items :: ·) := by
  simp only [follow, h]

theorem exact_end (size : ℓ → ℕ) {before : ρ → ρ → Prop} (limits : ℕ → ℓ) {rows : List ρ}
    (h : rows.Pairwise before) : Exact size before limits rows [rows] := by
  refine ⟨by simp, by simpa using h, ?_⟩
  grind

theorem exact_next {size : ℓ → ℕ} {before : ρ → ρ → Prop} {rows items rest : List ρ}
    {pages : List (List ρ)} (h : Exact size before (fun i => limits (i+1)) rest pages)
    (hperm : (items ++ rest).Perm rows) (hitems : items.Pairwise before)
    (hrest : ∀ a ∈ items, ∀ b ∈ rest, before a b) (hfull : items.length = size (limits 0)) :
    Exact size before limits rows (items :: pages) := by
  refine ⟨?_, ?_, ?_⟩
  · rw [flatten_cons]
    exact (h.perm.append_left items).trans hperm
  · rw [flatten_cons, pairwise_append]
    exact ⟨hitems, h.ordered, fun a ha b hb => hrest a ha b (h.perm.mem_iff.mp hb)⟩
  · intro i items' hi hlt
    cases i with
    | zero => grind
    | succ i =>
      apply h.full i items'
      · simpa using hi
      · simpa using hlt

/-- The rule for lists that are read page by page: if a call in a situation `R` gives
rows that come first, and, if there are more, a cursor that is in the situation of the
others, then the whole is read. -/
theorem follow_exact (size : ℓ → ℕ) (before : ρ → ρ → Prop)
    (R : (ℕ → ℓ) → Option γ → List ρ → Prop)
    (hstep : ∀ limits cursor rows, R limits cursor rows →
      (∃ items, fetch cursor (limits 0) = .ok ⟨items, none⟩ ∧ items.Perm rows ∧
        items.Pairwise before) ∨
      ∃ items next rest, fetch cursor (limits 0) = .ok ⟨items, some next⟩ ∧
        (items ++ rest).Perm rows ∧ items ≠ [] ∧ items.length = size (limits 0) ∧
        items.Pairwise before ∧ (∀ a ∈ items, ∀ b ∈ rest, before a b) ∧
        R (fun i => limits (i+1)) (some next) rest)
    (limits : ℕ → ℓ) (cursor : Option γ) (rows : List ρ) (h : R limits cursor rows) :
    ∃ fuel pages, follow fetch limits fuel cursor = some pages ∧
      Exact size before limits rows pages := by
  induction hn : rows.length using Nat.strongRecOn generalizing limits cursor rows with
  | ind n ih =>
    rcases hstep limits cursor rows h with ⟨items, hfetch, hperm, hitems⟩ |
      ⟨items, next, rest, hfetch, hperm, hne, hfull, hitems, hrest, hR⟩
    · refine ⟨1, [items], follow_end 0 hfetch, ?_⟩
      have hexact := exact_end size limits hitems
      exact ⟨hexact.perm.trans hperm, hexact.ordered, hexact.full⟩
    · have hlength : rest.length < n := by
        have hcount := hperm.length_eq
        have hpos := length_pos_of_ne_nil hne
        rw [length_append] at hcount
        omega
      obtain ⟨fuel, pages, hpages, hexact⟩ := ih rest.length hlength _ _ rest hR rfl
      refine ⟨fuel+1, items :: pages, ?_, exact_next hexact hperm hitems hrest hfull⟩
      rw [follow_next fuel hfetch, hpages, Option.map_some]

end Following

section Keysets

variable {ρ τ γ ℓ ε : Type} [LinearOrder τ] (time rank : ρ → τ)

def position (r : ρ) : τ × τ := (time r, rank r)

/-- `time < c_time OR (time = c_time AND rank < c_rank)`. -/
def behind (c : τ × τ) (r : ρ) : Bool :=
  decide (time r < c.1) || (decide (time r = c.1) && decide (rank r < c.2))

def after (c : Option (τ × τ)) (r : ρ) : Bool := c.elim true (fun c => behind time rank c r)

variable {time rank}

theorem behind_iff (c : τ × τ) (r : ρ) :
    behind time rank c r = true ↔ time r < c.1 ∨ (time r = c.1 ∧ rank r < c.2) := by
  simp [behind]

theorem not_behind_self (r : ρ) : behind time rank (position time rank r) r = false := by
  simp [behind, position]

variable {c : Option (τ × τ)}

theorem after_trans {x r : ρ} (hx : after time rank c x = true)
    (hr : behind time rank (position time rank x) r = true) : after time rank c r = true := by
  cases c with
  | none => rfl
  | some c =>
    apply (behind_iff c r).mpr
    obtain hx | ⟨hx, hxrank⟩ := (behind_iff c x).mp hx
    · obtain hr | ⟨hr, -⟩ := (behind_iff _ r).mp hr
      · exact .inl (hr.trans hx)
      · exact .inl (hr.trans_lt hx)
    · obtain hr | ⟨hr, hrrank⟩ := (behind_iff _ r).mp hr
      · exact .inl (hr.trans_eq hx)
      · exact .inr ⟨hr.trans hx, hrrank.trans hxrank⟩

variable (time rank) in
def remaining (table : List ρ) (holds : ρ → Bool) (c : Option (τ × τ)) : List ρ :=
  table.filter (fun r => holds r && after time rank c r)

theorem mem_remaining {table : List ρ} {holds : ρ → Bool} {r : ρ} :
    r ∈ remaining time rank table holds c ↔
      r ∈ table ∧ holds r = true ∧ after time rank c r = true := by
  simp [remaining]

theorem remaining_none (table : List ρ) (holds : ρ → Bool) :
    remaining time rank table holds none = table.filter holds := by
  simp [remaining, after]

theorem remaining_next {table : List ρ} {holds : ρ → Bool} {x : ρ}
    (hx : after time rank c x = true) :
    remaining time rank table holds (some (position time rank x)) =
      (remaining time rank table holds c).filter (behind time rank (position time rank x)) := by
  unfold remaining
  rw [filter_filter]
  apply filter_congr
  grind [after, after_trans]

theorem filter_split {p : ρ → Bool} {pre post : List ρ} (hpre : ∀ a ∈ pre, p a = false)
    (hpost : ∀ b ∈ post, p b = true) : (pre ++ post).filter p = post := by
  grind [filter_eq_self, filter_eq_nil_iff]

theorem perm_remaining_next {table : List ρ} {holds : ρ → Bool} {pre post : List ρ} {x : ρ}
    (hl : (pre ++ x :: post).Perm (remaining time rank table holds c))
    (hpre : ∀ a ∈ pre, behind time rank (position time rank x) a = false)
    (hpost : ∀ b ∈ post, behind time rank (position time rank x) b = true) :
    post.Perm (remaining time rank table holds (some (position time rank x))) := by
  have hx : after time rank c x = true := (mem_remaining.mp (hl.mem_iff.mp (by simp))).2.2
  have hpre' : ∀ a ∈ pre ++ [x], behind time rank (position time rank x) a = false := by
    intro a ha
    rcases mem_append.mp ha with ha | ha
    · exact hpre a ha
    · rw [mem_singleton.mp ha]
      exact not_behind_self x
  have hsplit : (pre ++ x :: post).filter (behind time rank (position time rank x)) = post := by
    rw [append_cons]
    exact filter_split hpre' hpost
  rw [remaining_next hx, ← hsplit]
  exact hl.filter _

variable (time rank) in
def Stands (table : List ρ) (cursor : ρ → γ) (c : Option γ) (k : Option (τ × τ)) : Prop :=
  (c = none ∧ k = none) ∨ ∃ x ∈ table, c = some (cursor x) ∧ k = some (position time rank x)

variable (time rank) in
/-- A call gives a page of what its cursor leaves, in an order that `ord` allows. -/
def Reads (fetch : Option γ → ℓ → Except ε (Page ρ γ)) (table : List ρ) (holds : ρ → Bool)
    (cursor : ρ → γ) (size : ℓ → ℕ) (ord : ρ → ρ → Prop) : Prop :=
  ∀ c k lim, Stands time rank table cursor c k →
    ∃ l : List ρ, l.Perm (remaining time rank table holds k) ∧ l.Pairwise ord ∧
      fetch c lim = .ok (cut cursor (size lim) l)

variable {fetch : Option γ → ℓ → Except ε (Page ρ γ)} {table : List ρ} {holds : ρ → Bool}
  {cursor : ρ → γ} {size : ℓ → ℕ}

theorem Reads.call {ord : ρ → ρ → Prop} (h : Reads time rank fetch table holds cursor size ord)
    {c : Option γ} {k : Option (τ × τ)} (lim : ℓ) (hpos : 0 < size lim)
    (hc : Stands time rank table cursor c k) :
    (∃ l, fetch c lim = .ok ⟨l, none⟩ ∧ l.Perm (remaining time rank table holds k) ∧
      l.Pairwise ord ∧ l.length ≤ size lim) ∨
    ∃ pre x post, fetch c lim = .ok ⟨pre ++ [x], some (cursor x)⟩ ∧ pre.length+1 = size lim ∧
      post ≠ [] ∧ (pre ++ x :: post).Perm (remaining time rank table holds k) ∧
      (pre ++ x :: post).Pairwise ord ∧
      Stands time rank table cursor (some (cursor x)) (some (position time rank x)) := by
  obtain ⟨l, hperm, hord, hfetch⟩ := h c k lim hc
  by_cases hlast : l.length ≤ size lim
  · grind [cut_last]
  · right
    obtain ⟨pre, x, post, rfl, hlength, hpost⟩ := exists_cut hpos (Nat.lt_of_not_le hlast)
    rw [← hlength, cut_more cursor pre x hpost] at hfetch
    have hx : x ∈ table := (mem_remaining.mp (hperm.mem_iff.mp (by simp))).1
    exact ⟨pre, x, post, hfetch, hlength, hpost, hperm, hord, .inr ⟨x, hx, rfl, rfl⟩⟩

theorem remaining_nodup (hkeys : (table.map (position time rank)).Nodup) (k : Option (τ × τ)) :
    ((remaining time rank table holds k).map (position time rank)).Nodup :=
  hkeys.sublist (filter_sublist.map _)

theorem pairwise_behind {l : List ρ} (hkeys : (l.map (position time rank)).Nodup)
    (hord : l.Pairwise (fun a b => precedes [time, rank] a b = true)) :
    l.Pairwise (fun a b => behind time rank (position time rank a) b = true) := by
  have hne : l.Pairwise (fun a b => position time rank a ≠ position time rank b) :=
    pairwise_map.mp hkeys
  apply (hord.and hne).imp
  rintro a b ⟨hab, hne⟩
  rw [behind_iff]
  rw [precedes_cons, precedes_cons] at hab
  rcases hab with htime | ⟨htime, hrank | ⟨hrank, -⟩⟩
  · exact .inl htime
  · exact .inr ⟨htime, hrank⟩
  · exact absurd (Prod.ext htime.symm hrank.symm) hne

theorem keyset_exact (hkeys : (table.map (position time rank)).Nodup)
    (hpos : ∀ lim, 0 < size lim)
    (h : Reads time rank fetch table holds cursor size
      (fun a b => precedes [time, rank] a b = true)) (limits : ℕ → ℓ) :
    ∃ fuel pages, follow fetch limits fuel none = some pages ∧
      Exact size (fun a b => behind time rank (position time rank a) b = true) limits
        (table.filter holds) pages := by
  refine follow_exact size _ (fun _ c rows => ∃ k, Stands time rank table cursor c k ∧
    rows.Perm (remaining time rank table holds k)) ?_ limits none _
    ⟨none, .inl ⟨rfl, rfl⟩, by rw [remaining_none]⟩
  rintro limits c rows ⟨k, hc, hrows⟩
  rcases h.call (limits 0) (hpos _) hc with ⟨l, hfetch, hperm, hord, -⟩ |
    ⟨pre, x, post, hfetch, hlength, hpost, hperm, hord, hnext⟩
  · have hl : (l.map (position time rank)).Nodup :=
      (hperm.map _).nodup_iff.mpr (remaining_nodup hkeys k)
    exact .inl ⟨l, hfetch, hperm.trans hrows.symm, pairwise_behind hl hord⟩
  · have hl : ((pre ++ x :: post).map (position time rank)).Nodup :=
      (hperm.map _).nodup_iff.mpr (remaining_nodup hkeys k)
    have hstrict := pairwise_behind hl hord
    rw [append_cons] at hstrict
    obtain ⟨hitems, -, hrest⟩ := pairwise_append.mp hstrict
    refine .inr ⟨pre ++ [x], cursor x, post, hfetch, ?_, by simp, by simpa using hlength, hitems,
      hrest, _, hnext, ?_⟩
    · rw [← append_cons]
      exact hperm.trans hrows.symm
    · apply perm_remaining_next hperm
      · -- a row of the page that stood behind its last row would stand behind itself
        intro a ha
        have hax := (pairwise_append.mp hitems).2.2 a ha x (by simp)
        by_contra hxa
        have hself : after time rank (some (position time rank a)) a = true :=
          after_trans hax (Bool.not_eq_false _ |>.mp hxa)
        have hfalse : behind time rank (position time rank a) a = false := not_behind_self a
        exact absurd (hfalse.symm.trans hself) (by simp)
      · simp_all

end Keysets

section Ties

variable {ρ τ γ ℓ ε : Type} [LinearOrder τ]

/-- The number of rows on the pages up to the `k`-th, if they are full. -/
def boundary (size : ℓ → ℕ) : (ℕ → ℓ) → ℕ → ℕ
  | limits, 0 => size (limits 0)
  | limits, k+1 => size (limits 0)+boundary size (fun i => limits (i+1)) k

/-- At the end of each page but the last stands a time that no other row has. The
times are in descending order. -/
def Clean (size : ℓ → ℕ) (limits : ℕ → ℓ) (times : List τ) : Prop :=
  ∀ k t, boundary size limits k < times.length → times[boundary size limits k-1]? = some t →
    times.count t = 1

theorem boundary_pos {size : ℓ → ℕ} (hpos : ∀ lim, 0 < size lim) (limits : ℕ → ℓ) (k : ℕ) :
    0 < boundary size limits k := by
  cases k with
  | zero => exact hpos _
  | succ k => exact Nat.add_pos_left (hpos _) _

theorem size_le_boundary (size : ℓ → ℕ) (limits : ℕ → ℓ) (k : ℕ) :
    size (limits 0) ≤ boundary size limits k := by
  cases k with
  | zero => exact Nat.le_refl _
  | succ k => exact Nat.le_add_right _ _

variable {limits : ℕ → ℓ}

theorem clean_end {size : ℓ → ℕ} {times : List τ} (h : times.length ≤ size (limits 0)) :
    Clean size limits times := by
  intro k t hk
  have hsize := size_le_boundary size limits k
  omega

theorem clean_next {size : ℓ → ℕ} (hpos : ∀ lim, 0 < size lim) {pre post : List τ} {t : τ}
    (hlength : pre.length+1 = size (limits 0)) (hpost : post ≠ []) (hpre : ∀ a ∈ pre, t ≤ a)
    (hle : ∀ b ∈ post, b ≤ t) :
    Clean size limits (pre ++ t :: post) ↔
      (pre ++ t :: post).count t = 1 ∧ Clean size (fun i => limits (i+1)) post := by
  have hindex (k : ℕ) : (pre ++ t :: post)[boundary size limits (k+1)-1]? =
      post[boundary size (fun i => limits (i+1)) k-1]? := by
    have hk := boundary_pos hpos (fun i => limits (i+1)) k
    have heq : boundary size limits (k+1)-1 =
        pre.length+(boundary size (fun i => limits (i+1)) k-1+1) := by
      rw [boundary, ← hlength]
      omega
    rw [heq, List.getElem?_append_right (Nat.le_add_right _ _), Nat.add_sub_cancel_left,
      List.getElem?_cons_succ]
  have hlt (k : ℕ) : boundary size limits (k+1) < (pre ++ t :: post).length ↔
      boundary size (fun i => limits (i+1)) k < post.length := by
    rw [boundary, ← hlength, length_append, length_cons]
    omega
  constructor
  · intro h
    refine ⟨?_, ?_⟩
    · apply h 0 t
      · grind [length_pos_of_ne_nil, boundary, length_append]
      · rw [boundary, ← hlength, Nat.add_sub_cancel, List.getElem?_append_right (Nat.le_refl _),
          Nat.sub_self, List.getElem?_cons_zero]
    · intro k u hk hu
      have htotal := h (k+1) u ((hlt k).mpr hk) ((hindex k).trans hu)
      grind
  · rintro ⟨hone, hclean⟩ k u hk hu
    cases k with
    | zero =>
      rw [boundary, ← hlength, Nat.add_sub_cancel, List.getElem?_append_right (Nat.le_refl _),
        Nat.sub_self, List.getElem?_cons_zero] at hu
      grind
    | succ k =>
      rw [hindex] at hu
      have hu' := hclean k u ((hlt k).mp hk) hu
      -- the time stands behind that of the first page's end, and so not before it
      have hmem := mem_of_getElem? hu
      have hne : t ≠ u := by
        rintro rfl
        rw [count_append, count_cons_self] at hone
        omega
      have hnotin : u ∉ pre := by
        intro hin
        exact hne (le_antisymm (hpre u hin) (hle u hmem))
      grind

variable (time rank : ρ → τ)

def times (rows : List ρ) : List τ := (rows.map time).insertionSort (· ≥ ·)

variable {time rank}

theorem times_eq {rows l : List ρ} (hperm : l.Perm rows)
    (hord : l.Pairwise (fun a b => time b ≤ time a)) : times time rows = l.map time := by
  apply List.Perm.eq_of_pairwise' (r := (· ≥ ·))
  · exact pairwise_insertionSort _ _
  · grind
  · exact (perm_insertionSort _ _).trans (hperm.map time).symm

variable {fetch : Option γ → ℓ → Except ε (Page ρ γ)} {table : List ρ} {holds : ρ → Bool}
  {cursor : ρ → γ} {size : ℓ → ℕ}

variable {pre post : List ρ} {x : ρ}

theorem clean_page (hpos : ∀ lim, 0 < size lim) (hlength : pre.length+1 = size (limits 0))
    (hpost : post ≠ []) (hord : (pre ++ x :: post).Pairwise (fun a b => time b ≤ time a)) :
    Clean size limits ((pre ++ x :: post).map time) ↔
      ((pre ++ x :: post).map time).count (time x) = 1 ∧
        Clean size (fun i => limits (i+1)) (post.map time) := by
  obtain ⟨-, hposts, hpres⟩ := pairwise_append.mp hord
  rw [map_append, map_cons]
  apply clean_next hpos
  · grind
  · simpa using hpost
  · grind
  · simp_all

theorem separates_of_unique (hord : (pre ++ x :: post).Pairwise (fun a b => time b ≤ time a))
    (hone : ((pre ++ x :: post).map time).count (time x) = 1) :
    (∀ a ∈ pre, time x < time a) ∧ ∀ b ∈ post, time b < time x := by
  obtain ⟨-, hpost, hpre⟩ := pairwise_append.mp hord
  rw [map_append, map_cons, count_append, count_cons_self] at hone
  have hpre' : time x ∉ pre.map time := count_eq_zero.mp (by omega)
  have hpost' : time x ∉ post.map time := count_eq_zero.mp (by omega)
  constructor
  · intro a ha
    exact lt_of_le_of_ne (hpre a ha x mem_cons_self) fun h => hpre' (h ▸ mem_map_of_mem ha)
  · intro b hb
    exact lt_of_le_of_ne ((pairwise_cons.mp hpost).1 b hb) fun h => hpost' (h ▸ mem_map_of_mem hb)

variable {k : Option (τ × τ)}

theorem perm_next_of_separated (hperm : (pre ++ x :: post).Perm (remaining time rank table holds k))
    (hpre : ∀ a ∈ pre, time x < time a) (hpost : ∀ b ∈ post, time b < time x) :
    post.Perm (remaining time rank table holds (some (position time rank x))) := by
  grind [perm_remaining_next, behind, position]

theorem clean_exact (hpos : ∀ lim, 0 < size lim)
    (h : Reads time rank fetch table holds cursor size (fun a b => time b ≤ time a))
    (limits : ℕ → ℓ) (hclean : Clean size limits (times time (table.filter holds))) :
    ∃ fuel pages, follow fetch limits fuel none = some pages ∧
      Exact size (fun a b => time b ≤ time a) limits (table.filter holds) pages := by
  refine follow_exact size _ (fun limits c rows => Clean size limits (times time rows) ∧
    ∃ k, Stands time rank table cursor c k ∧ rows.Perm (remaining time rank table holds k)) ?_
    limits none _ ⟨hclean, none, .inl ⟨rfl, rfl⟩, by rw [remaining_none]⟩
  rintro limits c rows ⟨hclean, k, hc, hrows⟩
  rcases h.call (limits 0) (hpos _) hc with ⟨l, hfetch, hperm, hord, -⟩ |
    ⟨pre, x, post, hfetch, hlength, hpost, hperm, hord, hnext⟩
  · exact .inl ⟨l, hfetch, hperm.trans hrows.symm, hord⟩
  · have hl := hperm.trans hrows.symm
    have hord' := hord
    rw [append_cons] at hord'
    obtain ⟨hitems, hpostord, hrest⟩ := pairwise_append.mp hord'
    rw [times_eq hl hord, clean_page hpos hlength hpost hord] at hclean
    obtain ⟨hone, hclean⟩ := hclean
    obtain ⟨hpres, hposts⟩ := separates_of_unique hord hone
    refine .inr ⟨pre ++ [x], cursor x, post, hfetch, ?_, by simp, by simpa using hlength, hitems,
      hrest, ?_, _, hnext, ?_⟩
    · rw [← append_cons]
      exact hl
    · rw [times_eq (List.Perm.refl post) hpostord]
      exact hclean
    · exact perm_next_of_separated hperm hpres hposts

variable (time rank) in
def Ascending (a b : ρ) : Prop := time b < time a ∨ (time b = time a ∧ rank a ≤ rank b)

theorem Ascending.time_le {a b : ρ} (h : Ascending time rank a b) : time b ≤ time a :=
  h.elim le_of_lt (fun h => h.1.le)

theorem mem_remaining_of_next {x z : ρ} (hx : x ∈ remaining time rank table holds k)
    (hz : z ∈ remaining time rank table holds (some (position time rank x))) :
    z ∈ remaining time rank table holds k := by
  obtain ⟨hin, hholds, hbehind⟩ := mem_remaining.mp hz
  exact mem_remaining.mpr ⟨hin, hholds, after_trans (mem_remaining.mp hx).2.2 hbehind⟩

theorem Ascending.not_behind {x y : ρ} (h : Ascending time rank x y) (htime : time y = time x) :
    behind time rank (position time rank x) y = false := by
  rw [Bool.eq_false_iff, Ne, behind_iff]
  rintro (hlt | ⟨-, hlt⟩)
  · exact hlt.ne htime
  · exact h.elim (fun hlt' => hlt'.ne htime) (fun hle => hle.2.not_gt hlt)

theorem Ascending.behind {x y : ρ} (h : Ascending time rank y x) (htime : time y = time x)
    (hne : position time rank y ≠ position time rank x) :
    behind time rank (position time rank x) y = true := by
  rw [behind_iff]
  rcases h with hlt | ⟨-, hle⟩
  · grind
  · exact .inr ⟨htime, lt_of_le_of_ne hle (fun heq => hne (Prod.ext htime heq))⟩

theorem follow_mem {ord : ρ → ρ → Prop} (hpos : ∀ lim, 0 < size lim)
    (h : Reads time rank fetch table holds cursor size ord) (fuel : ℕ) (limits : ℕ → ℓ)
    (c : Option γ) (k : Option (τ × τ)) (pages : List (List ρ))
    (hc : Stands time rank table cursor c k) (hpages : follow fetch limits fuel c = some pages) :
    ∀ r ∈ pages.flatten, r ∈ remaining time rank table holds k := by
  induction fuel generalizing limits c k pages with
  | zero => cases hpages
  | succ fuel ih =>
    rcases h.call (limits 0) (hpos _) hc with ⟨l, hfetch, hperm, -⟩ |
      ⟨pre, x, post, hfetch, -, -, hperm, -, hnext⟩
    · rw [follow_end fuel hfetch] at hpages
      grind
    · rw [follow_next fuel hfetch] at hpages
      obtain ⟨pages', hpages', rfl⟩ := Option.map_eq_some_iff.mp hpages
      intro r hr
      rw [flatten_cons] at hr
      rcases mem_append.mp hr with hr | hr
      · grind
      · have hx := hperm.mem_iff.mp (show x ∈ pre ++ x :: post by simp)
        exact mem_remaining_of_next hx (ih _ _ _ _ hnext hpages' r hr)

theorem follow_first {ord : ρ → ρ → Prop} (hpos : ∀ lim, 0 < size lim)
    (h : Reads time rank fetch table holds cursor size ord) {fuel : ℕ} {c : Option γ}
    {pages : List (List ρ)} (hc : Stands time rank table cursor c k)
    (hpages : follow fetch limits fuel c = some pages) {y : ρ}
    (hy : y ∈ remaining time rank table holds k) :
    ∃ z ∈ pages.flatten, z ∈ remaining time rank table holds k ∧ (z = y ∨ ord z y) := by
  -- the first of the rows that the call reads, which is on its page
  have hfirst {l items : List ρ} {pages' : List (List ρ)}
      (hperm : l.Perm (remaining time rank table holds k)) (hord : l.Pairwise ord)
      (hitems : items.head? = l.head?) :
      ∃ z ∈ (items :: pages').flatten,
        z ∈ remaining time rank table holds k ∧ (z = y ∨ ord z y) := by
    have hyl := hperm.mem_iff.mpr hy
    cases l with
    | nil => cases hyl
    | cons z l =>
      have hz : z ∈ items := mem_of_mem_head? hitems
      refine ⟨z, mem_flatten.mpr ⟨items, mem_cons_self, hz⟩, hperm.mem_iff.mp mem_cons_self, ?_⟩
      rcases mem_cons.mp hyl with rfl | hyl
      · exact .inl rfl
      · exact .inr ((pairwise_cons.mp hord).1 y hyl)
  cases fuel with
  | zero => cases hpages
  | succ fuel =>
    rcases h.call (limits 0) (hpos _) hc with ⟨l, hfetch, hperm, hord, -⟩ |
      ⟨pre, x, post, hfetch, -, -, hperm, hord, -⟩
    · rw [follow_end fuel hfetch] at hpages
      grind
    · rw [follow_next fuel hfetch] at hpages
      obtain ⟨pages', -, rfl⟩ := Option.map_eq_some_iff.mp hpages
      apply hfirst hperm hord
      cases pre <;> rfl

theorem count_time_eq_one (hpre : ∀ y ∈ pre, time y ≠ time x)
    (hpost : ∀ y ∈ post, time y ≠ time x) :
    ((pre ++ x :: post).map time).count (time x) = 1 := by
  have hnotin {l : List ρ} (hl : ∀ y ∈ l, time y ≠ time x) : time x ∉ l.map time := by
    intro hin
    obtain ⟨y, hy, heq⟩ := mem_map.mp hin
    exact hl y hy heq
  grind

/-- With ascending ties, a page whose end shares its time with another row loses that
row, if it stands behind, or reads one again. -/
theorem unique_of_exact (hkeys : (table.map (position time rank)).Nodup)
    (hpos : ∀ lim, 0 < size lim)
    (h : Reads time rank fetch table holds cursor size (Ascending time rank)) {fuel : ℕ}
    {pages : List (List ρ)} (hperm : (pre ++ x :: post).Perm (remaining time rank table holds k))
    (hord : (pre ++ x :: post).Pairwise (Ascending time rank))
    (hnext : Stands time rank table cursor (some (cursor x)) (some (position time rank x)))
    (hpages : follow fetch limits fuel (some (cursor x)) = some pages)
    (hexact : (pre ++ [x] ++ pages.flatten).Perm (remaining time rank table holds k)) :
    ((pre ++ x :: post).map time).count (time x) = 1 := by
  have hnodup : (remaining time rank table holds k).Nodup :=
    List.Nodup.of_map _ (remaining_nodup hkeys k)
  have hread := hexact.nodup_iff.mpr hnodup
  have hrows := hperm.nodup_iff.mpr hnodup
  rw [append_cons] at hrows
  have hafter : ∀ r ∈ pages.flatten, behind time rank (position time rank x) r = true := by
    intro r hr
    exact (mem_remaining.mp (follow_mem hpos h fuel limits _ _ pages hnext hpages r hr)).2.2
  obtain ⟨-, hxpost, hprex⟩ := pairwise_append.mp hord
  have hnot : ∀ y ∈ post, time y = time x → y ∉ pages.flatten := by
    intro y hy htime hin
    have hfalse := ((pairwise_cons.mp hxpost).1 y hy).not_behind htime
    rw [hafter y hin] at hfalse
    cases hfalse
  apply count_time_eq_one
  · intro y hy htime
    -- the cursor reaches `y`, so the next page begins with a row that is read again
    have hyx : position time rank y ≠ position time rank x := by
      have hpairs := pairwise_map.mp ((hperm.map _).nodup_iff.mpr
        (remaining_nodup hkeys k))
      exact (pairwise_append.mp hpairs).2.2 y hy x mem_cons_self
    have hyin := mem_remaining.mp (hperm.mem_iff.mp (mem_append_left (x :: post) hy))
    have hyleft : y ∈ remaining time rank table holds (some (position time rank x)) :=
      mem_remaining.mpr
        ⟨hyin.1, hyin.2.1, (hprex y hy x mem_cons_self).behind htime hyx⟩
    obtain ⟨z, hz, hzleft, hzy⟩ := follow_first hpos h hnext hpages hyleft
    have hztime : time z = time x := by
      apply le_antisymm
      · exact ((behind_iff _ z).mp (hafter z hz)).elim le_of_lt (fun h => h.1.le)
      · rw [← htime]
        exact hzy.elim (fun heq => heq ▸ le_rfl) Ascending.time_le
    have hzk : z ∈ pre ++ x :: post := by
      have hx := hperm.mem_iff.mp (show x ∈ pre ++ x :: post by simp)
      exact hperm.mem_iff.mpr (mem_remaining_of_next hx hzleft)
    grind
  · intro y hy htime
    -- the cursor does not reach `y`, and it is not on the page
    have hyin : y ∈ pre ++ [x] ++ pages.flatten := by
      apply hexact.mem_iff.mpr
      apply hperm.mem_iff.mp
      simp [hy]
    grind

/-- If the database lets the ties ascend, every row is read once only if each page ends
cleanly. -/
theorem exact_clean (hkeys : (table.map (position time rank)).Nodup)
    (hpos : ∀ lim, 0 < size lim)
    (h : Reads time rank fetch table holds cursor size (Ascending time rank)) (fuel : ℕ)
    (limits : ℕ → ℓ) (c : Option γ) (k : Option (τ × τ)) (pages : List (List ρ))
    (hc : Stands time rank table cursor c k) (hpages : follow fetch limits fuel c = some pages)
    (hexact : pages.flatten.Perm (remaining time rank table holds k)) :
    Clean size limits (times time (remaining time rank table holds k)) := by
  induction fuel generalizing limits c k pages with
  | zero => cases hpages
  | succ fuel ih =>
    rcases h.call (limits 0) (hpos _) hc with ⟨l, hfetch, hperm, hord, hlast⟩ |
      ⟨pre, x, post, hfetch, hlength, hpost, hperm, hord, hnext⟩
    · rw [times_eq hperm (hord.imp Ascending.time_le)]
      exact clean_end (by rwa [length_map])
    · have hdesc := hord.imp Ascending.time_le
      rw [follow_next fuel hfetch] at hpages
      obtain ⟨pages', hpages', rfl⟩ := Option.map_eq_some_iff.mp hpages
      rw [flatten_cons] at hexact
      have hone := unique_of_exact hkeys hpos h hperm hord hnext hpages' hexact
      obtain ⟨hpres, hposts⟩ := separates_of_unique hdesc hone
      have hleft : post.Perm (remaining time rank table holds (some (position time rank x))) :=
        perm_next_of_separated hperm hpres hposts
      have hrest : pages'.flatten.Perm post := by
        rw [append_cons] at hperm
        exact (perm_append_left_iff _).mp (hexact.trans hperm.symm)
      rw [times_eq hperm hdesc, clean_page hpos hlength hpost hdesc]
      refine ⟨hone, ?_⟩
      have hpostdesc := (pairwise_cons.mp (pairwise_append.mp hdesc).2.1).2
      rw [← times_eq hleft hpostdesc]
      exact ih _ _ _ _ hnext hpages' (hrest.trans hleft)

end Ties

end DbAgent.KeysetPaging
