import Mathlib.Logic.Function.Basic
import Mathlib.Data.List.Basic

/-! Labelled transition systems with a partial step function. A move that is
disabled in a state gives `none`, so a run is a list of enabled moves. -/
namespace DbAgent.Transition

open List

universe u v

structure System (σ : Type u) (ε : Type v) where
  init : σ → Prop
  step : σ → ε → Option σ

variable {σ : Type u} {ε : Type v}

/-- The states reached from an initial state by moves that all satisfy `ok`
in the state in which they are taken. -/
inductive System.ReachVia (S : System σ ε) (ok : σ → ε → Prop) : σ → Prop
  | init {s : σ} (h : S.init s) : S.ReachVia ok s
  | step {s t : σ} {e : ε} (h : S.ReachVia ok s) (he : ok s e)
      (hs : S.step s e = some t) : S.ReachVia ok t

def System.Reachable (S : System σ ε) (s : σ) : Prop :=
  S.ReachVia (fun _ _ => True) s

variable (S : System σ ε)

theorem reachVia_invariant (ok : σ → ε → Prop) (P : σ → Prop)
    (hinit : ∀ s, S.init s → P s)
    (hstep : ∀ s e t, S.ReachVia ok s → ok s e → P s → S.step s e = some t → P t)
    (s : σ) (hs : S.ReachVia ok s) : P s := by
  induction hs with
  | init h => exact hinit _ h
  | step h he hs ih => exact hstep _ _ _ h he ih hs

theorem reachable_invariant (P : σ → Prop)
    (hinit : ∀ s, S.init s → P s)
    (hstep : ∀ s e t, P s → S.step s e = some t → P t)
    (s : σ) (hs : S.Reachable s) : P s := by
  apply reachVia_invariant S _ P hinit _ s hs
  grind

theorem reachVia_reachable (ok : σ → ε → Prop) (s : σ)
    (hs : S.ReachVia ok s) : S.Reachable s := by
  induction hs with
  | init h => exact .init h
  | step _ _ hs ih => exact .step ih trivial hs

def System.run (S : System σ ε) : σ → List ε → Option σ
  | s, [] => some s
  | s, e :: es => (S.step s e).bind (fun t => S.run t es)

theorem run_reachVia (ok : σ → ε → Prop) (es : List ε) (s t : σ)
    (hs : S.ReachVia ok s) (hok : ∀ e ∈ es, ∀ r, ok r e) (hr : S.run s es = some t) :
    S.ReachVia ok t := by
  induction es generalizing s with
  | nil =>
    simp only [System.run, Option.some.injEq] at hr
    exact hr ▸ hs
  | cons e es ih =>
    simp only [System.run] at hr
    obtain ⟨r, hr1, hr2⟩ := Option.bind_eq_some_iff.mp hr
    have hrest : ∀ e' ∈ es, ∀ r, ok r e' := fun e' he' => hok e' (mem_cons_of_mem e he')
    exact ih r (.step hs (hok e mem_cons_self s) hr1) hrest hr2

theorem run_reachable (es : List ε) (s t : σ) (hs : S.Reachable s)
    (hr : S.run s es = some t) : S.Reachable t :=
  run_reachVia S _ es s t hs (fun _ _ _ => trivial) hr

theorem run_append (es fs : List ε) (s : σ) :
    S.run s (es ++ fs) = (S.run s es).bind (fun t => S.run t fs) := by
  induction es generalizing s with
  | nil => rfl
  | cons e es ih =>
    simp only [cons_append, System.run]
    cases S.step s e with
    | none => rfl
    | some t => exact ih t

theorem run_invariant (ok : ε → Prop) (P : σ → Prop)
    (hstep : ∀ s e t, ok e → P s → S.step s e = some t → P t) (es : List ε) (s t : σ)
    (hok : ∀ e ∈ es, ok e) (hs : P s) (hr : S.run s es = some t) : P t := by
  induction es generalizing s with
  | nil =>
    obtain rfl := Option.some.inj hr
    exact hs
  | cons e es ih =>
    obtain ⟨r, hr1, hr2⟩ := Option.bind_eq_some_iff.mp hr
    grind

/-- Every state that a list of moves goes through satisfies `P`. -/
def System.Along (S : System σ ε) (P : σ → Prop) : σ → List ε → Prop
  | s, [] => P s
  | s, e :: es => P s ∧ ∀ t, S.step s e = some t → S.Along P t es

/-- Every move of a list satisfies `ok` in the state in which it is taken. -/
def System.Allowed (S : System σ ε) (ok : σ → ε → Prop) : σ → List ε → Prop
  | _, [] => True
  | s, e :: es => ∀ t, S.step s e = some t → ok s e ∧ S.Allowed ok t es

/-- If `ok` says exactly which moves keep `P`, the runs along which `P` holds are those
of moves that are `ok`. -/
theorem along_iff_allowed (P : σ → Prop) (ok : σ → ε → Prop)
    (hstep : ∀ s e t, P s → S.step s e = some t → (P t ↔ ok s e)) (es : List ε) (s : σ)
    (hs : P s) : S.Along P s es ↔ S.Allowed ok s es := by
  induction es generalizing s with
  | nil => exact ⟨fun _ => trivial, fun _ => hs⟩
  | cons e es ih =>
    constructor
    · rintro ⟨-, halong⟩ t ht
      have hp : P t := by
        cases es with
        | nil => exact halong t ht
        | cons => exact (halong t ht).1
      grind
    · intro hok
      refine ⟨hs, ?_⟩
      intro t ht
      obtain ⟨he, hrest⟩ := hok t ht
      grind

theorem run_rank (ok : ε → Prop) (counts : ε → Bool) (P : σ → Prop)
    (rank : σ → ℕ)
    (hstep : ∀ s e t, ok e → P s → S.step s e = some t →
      P t ∧ rank t + (if counts e then 1 else 0) ≤ rank s)
    (es : List ε) (s t : σ) (hok : ∀ e ∈ es, ok e) (hs : P s) (hr : S.run s es = some t) :
    rank t + es.countP counts ≤ rank s := by
  induction es generalizing s with
  | nil =>
    obtain rfl := Option.some.inj hr
    exact Nat.le_refl _
  | cons e es ih =>
    obtain ⟨r, hr1, hr2⟩ := Option.bind_eq_some_iff.mp hr
    grind

theorem run_to_end (ok : ε → Prop) (P done : σ → Prop) (rank : σ → ℕ)
    (hgo : ∀ s, P s → ¬ done s → ∃ es t, (∀ e ∈ es, ok e) ∧ S.run s es = some t ∧ P t ∧
      rank t < rank s)
    (s : σ) (hs : P s) :
    ∃ es t, (∀ e ∈ es, ok e) ∧ S.run s es = some t ∧ P t ∧ done t := by
  induction hn : rank s using Nat.strongRecOn generalizing s with
  | ind n ih =>
    by_cases hd : done s
    · exact ⟨[], s, fun _ he => absurd he not_mem_nil, rfl, hs, hd⟩
    · obtain ⟨es, t, hok, hr, hp, hlt⟩ := hgo s hs hd
      obtain ⟨fs, u, hok', hr', hpu, hdu⟩ := ih (rank t) (hn ▸ hlt) t hp rfl
      refine ⟨es ++ fs, u, ?_, ?_, hpu, hdu⟩
      · grind
      · rw [run_append, hr]
        exact hr'

/-- Every entry of a history satisfies `P` with what stands before it. -/
def AtEach {α : Type u} (P : List α → α → Prop) (h : List α) : Prop :=
  ∀ pre c post, h = pre ++ c :: post → P pre c

theorem atEach_nil {α : Type u} (P : List α → α → Prop) : AtEach P [] := by
  intro pre c post h
  simp at h

theorem atEach_append {α : Type u} {P : List α → α → Prop} {h : List α} {c : α} :
    AtEach P (h ++ [c]) ↔ AtEach P h ∧ P h c := by
  constructor
  · intro hp
    refine ⟨?_, hp h c [] rfl⟩
    intro pre d post heq
    apply hp pre d (post ++ [c])
    grind
  · rintro ⟨hp, hc⟩ pre d post heq
    -- the entry in question is the last one, or stands in the history before it
    rcases eq_nil_or_concat post with rfl | ⟨post', last, rfl⟩
    · simp_all
    · rw [concat_eq_append, ← cons_append, ← append_assoc] at heq
      exact hp pre d post' (append_inj' heq rfl).1

end DbAgent.Transition
