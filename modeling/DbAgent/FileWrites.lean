import Mathlib.Data.List.Induction
import DbAgent.TransitionSystem

/-! A program that writes whole files one after the other, and the directories
it can leave behind when it is stopped: each file is truncated when it is
opened, and then grows by arbitrary portions of its content. -/
namespace DbAgent.FileWrites

open Transition

variable {φ β : Type}

abbrev Dir (φ β : Type) := φ → Option (List β)

/-- How far the program has got: the directory, the open file with what is still
to be written to it, and the files that are not open yet. -/
structure Writer (φ β : Type) where
  dir : Dir φ β
  current : Option (φ × List β)
  pending : List (φ × List β)

inductive WriteEvent where
  | openFile
  | write (n : ℕ)
  | close

variable [DecidableEq φ]

def Writer.step (w : Writer φ β) : WriteEvent → Option (Writer φ β)
  | .openFile =>
    match w.current, w.pending with
    | none, (f, content) :: rest =>
      some ⟨Function.update w.dir f (some []), some (f, content), rest⟩
    | _, _ => none
  | .write n =>
    match w.current with
    | some (f, left) =>
      if n ≤ left.length then
        some { w with
          dir := Function.update w.dir f (some ((w.dir f).getD [] ++ left.take n))
          current := some (f, left.drop n) }
      else none
    | none => none
  | .close =>
    match w.current with
    | some (_, []) => some { w with current := none }
    | _ => none

/-- The program that writes `files` into the directory `base`. -/
def writer (base : Dir φ β) (files : List (φ × List β)) : System (Writer φ β) WriteEvent where
  init w := w = ⟨base, none, files⟩
  step w e := w.step e

def writeAll (base : Dir φ β) (files : List (φ × List β)) : Dir φ β :=
  files.foldl (fun d file => Function.update d file.1 (some file.2)) base

theorem writeAll_append (base : Dir φ β) (files : List (φ × List β)) (f : φ) (content : List β) :
    writeAll base (files ++ [(f, content)]) =
      Function.update (writeAll base files) f (some content) := by
  simp [writeAll]

inductive Progress (base : Dir φ β) (files : List (φ × List β)) (w : Writer φ β) : Prop
  | between (done : List (φ × List β)) (hcurrent : w.current = none)
      (hfiles : files = done ++ w.pending) (hdir : w.dir = writeAll base done)
  | inside (done : List (φ × List β)) (f : φ) (part left : List β)
      (hcurrent : w.current = some (f, left))
      (hfiles : files = done ++ (f, part ++ left) :: w.pending)
      (hdir : w.dir = Function.update (writeAll base done) f (some part))

variable {base : Dir φ β} {files : List (φ × List β)}

theorem progress_step (w w' : Writer φ β) (e : WriteEvent) (h : Progress base files w)
    (hs : w.step e = some w') :
    Progress base files w' := by
  cases e with
  | openFile =>
    simp only [Writer.step] at hs
    split at hs
    · rename_i f content rest hcurrent hpending
      cases hs
      cases h with
      | between done _ hfiles hdir =>
        rw [hpending] at hfiles
        exact .inside done f [] content rfl hfiles (by rw [hdir])
      | inside done f' part left hcurrent' => grind
    · cases hs
  | write n =>
    simp only [Writer.step] at hs
    split at hs
    · rename_i f left hcurrent
      split_ifs at hs
      cases hs
      cases h with
      | between done hnone => grind
      | inside done f' part left' hcurrent' hfiles hdir =>
        rw [hcurrent] at hcurrent'
        cases hcurrent'
        refine .inside done f (part ++ left.take n) (left.drop n) rfl ?_ ?_
        · simp_all
        · simp_all
    · cases hs
  | close =>
    simp only [Writer.step] at hs
    split at hs
    · rename_i f hcurrent
      cases hs
      cases h with
      | between done hnone => grind
      | inside done f' part left hcurrent' hfiles hdir =>
        rw [hcurrent] at hcurrent'
        cases hcurrent'
        rw [List.append_nil] at hfiles
        refine .between (done ++ [(f, part)]) rfl ?_ ?_
        · grind
        · rw [hdir, writeAll_append]
    · cases hs

theorem progress_reachable (w : Writer φ β) (h : (writer base files).Reachable w) :
    Progress base files w := by
  apply reachable_invariant (writer base files) (Progress base files) _ _ w h
  · rintro w rfl
    exact .between [] rfl rfl rfl
  · exact fun w e w' hw hs => progress_step w w' e hw hs

/-- A directory that the program can leave: some first files are complete, and
the next one, if it was begun, holds a beginning of its content. -/
inductive Torn (base : Dir φ β) (files : List (φ × List β)) (d : Dir φ β) : Prop
  | between (done rest : List (φ × List β)) (hfiles : files = done ++ rest)
      (hdir : d = writeAll base done)
  | inside (done rest : List (φ × List β)) (f : φ) (part left : List β)
      (hfiles : files = done ++ (f, part ++ left) :: rest)
      (hdir : d = Function.update (writeAll base done) f (some part))

theorem torn_of_reachable (w : Writer φ β) (h : (writer base files).Reachable w) :
    Torn base files w.dir := by
  cases progress_reachable w h with
  | between done _ hfiles hdir => exact .between done _ hfiles hdir
  | inside done f part left _ hfiles hdir => exact .inside done _ f part left hfiles hdir

theorem reachable_writeAll (base : Dir φ β) (files done rest : List (φ × List β))
    (hfiles : files = done ++ rest) :
    (writer base files).Reachable ⟨writeAll base done, none, rest⟩ := by
  induction done using List.reverseRecOn generalizing rest with
  | nil =>
    subst hfiles
    exact .init rfl
  | append_singleton done file ih =>
    obtain ⟨f, content⟩ := file
    have hprev := ih ((f, content) :: rest) (by rw [hfiles, List.append_assoc]; rfl)
    apply run_reachable _ [.openFile, .write content.length, .close] _ _ hprev
    simp [System.run, writer, Writer.step, writeAll_append]

theorem reachable_of_torn (d : Dir φ β) (h : Torn base files d) :
    ∃ w, (writer base files).Reachable w ∧ w.dir = d := by
  cases h with
  | between done rest hfiles hdir =>
    exact ⟨_, reachable_writeAll base files done rest hfiles, hdir.symm⟩
  | inside done rest f part left hfiles hdir =>
    have hprev := reachable_writeAll base files done ((f, part ++ left) :: rest) hfiles
    refine ⟨⟨d, some (f, left), rest⟩, ?_, rfl⟩
    apply run_reachable _ [.openFile, .write part.length] _ _ hprev
    simp [System.run, writer, Writer.step, hdir]

end DbAgent.FileWrites
