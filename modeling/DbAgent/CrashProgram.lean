import Mathlib.Data.Nat.Notation
import Mathlib.Logic.Function.Basic

/-! Programs made of atomic operations on a state, which may be killed between
any two of them. The files of a directory are such a state. -/
namespace DbAgent.CrashProgram

/-- The operations a program has on states `σ`, with what each of them answers. -/
structure Interface (σ : Type) where
  Op : Type
  Answer : Op → Type
  perform : (o : Op) → σ → Answer o × σ

inductive Prog {σ : Type} (I : Interface σ) (ε α : Type) : Type where
  | done (r : Except ε α)
  | op (o : I.Op) (next : I.Answer o → Prog I ε α)

open Prog

variable {σ ε α β : Type} {I : Interface σ}

namespace Prog

protected def bind : Prog I ε α → (α → Prog I ε β) → Prog I ε β
  | done (.ok a), f => f a
  | done (.error e), _ => done (.error e)
  | op o next, f => op o fun a => (next a).bind f

instance : Monad (Prog I ε) where
  pure a := done (.ok a)
  bind := Prog.bind

def call (o : I.Op) : Prog I ε (I.Answer o) := op o fun a => done (.ok a)

def raise (e : ε) : Prog I ε α := done (.error e)

def exec : Prog I ε α → σ → Except ε α × σ
  | done r, s => (r, s)
  | op o next, s => (next (I.perform o s).1).exec (I.perform o s).2

/-- The state in which the program is left if it is killed behind its first `n`
operations, or has ended by then. -/
def stopAfter : Prog I ε α → ℕ → σ → σ
  | done _, _, s => s
  | op _ _, 0, s => s
  | op o next, n + 1, s => (next (I.perform o s).1).stopAfter n (I.perform o s).2

/-- Every operation that the program may come to keeps `P`. -/
def Keeps (P : σ → Prop) : Prog I ε α → Prop
  | done _ => True
  | op o next => (∀ s, P s → P (I.perform o s).2) ∧ ∀ a, (next a).Keeps P

@[simp]
theorem pure_eq (a : α) : (pure a : Prog I ε α) = done (.ok a) := rfl

@[simp]
theorem exec_done (r : Except ε α) (s : σ) : (done r : Prog I ε α).exec s = (r, s) := rfl

@[simp]
theorem exec_raise (e : ε) (s : σ) : (raise e : Prog I ε α).exec s = (.error e, s) := rfl

@[simp]
theorem stopAfter_zero (p : Prog I ε α) (s : σ) : p.stopAfter 0 s = s := by
  cases p <;> rfl

theorem call_bind {o : I.Op} {s t : σ} {a : I.Answer o} (h : I.perform o s = (a, t))
    (k : I.Answer o → Prog I ε α) :
    (call o >>= k).exec s = (k a).exec t ∧
      ∀ n, (call o >>= k).stopAfter (n+1) s = (k a).stopAfter n t := by
  have hexec : (call o >>= k).exec s = (k (I.perform o s).1).exec (I.perform o s).2 := rfl
  have hstop (n : ℕ) : (call o >>= k).stopAfter (n+1) s =
      (k (I.perform o s).1).stopAfter n (I.perform o s).2 := rfl
  grind

variable {p : Prog I ε α}

theorem exec_bind_ok {s t : σ} {a : α} (h : p.exec s = (.ok a, t)) (f : α → Prog I ε β) :
    (p >>= f).exec s = (f a).exec t := by
  induction p generalizing s with
  | done r =>
    cases h
    rfl
  | op o next ih => exact ih _ h

theorem exec_bind_error {s t : σ} {e : ε} (h : p.exec s = (.error e, t)) (f : α → Prog I ε β) :
    (p >>= f).exec s = (.error e, t) := by
  induction p generalizing s with
  | done r =>
    cases h
    rfl
  | op o next ih => exact ih _ h

variable {P : σ → Prop}

theorem keeps_bind {f : α → Prog I ε β} (hp : p.Keeps P) (hf : ∀ a, (f a).Keeps P) :
    (p >>= f).Keeps P := by
  induction p with
  | done r =>
    cases r with
    | ok a => exact hf a
    | error e => trivial
  | op o next ih => exact ⟨hp.1, fun a => ih a (hp.2 a)⟩

theorem keeps_exec (hp : p.Keeps P) {s : σ} (hs : P s) :
    P (p.exec s).2 := by
  induction p generalizing s with
  | done r => exact hs
  | op o next ih => exact ih _ (hp.2 _) (hp.1 s hs)

theorem keeps_stopAfter (hp : p.Keeps P) (n : ℕ) {s : σ} (hs : P s) : P (p.stopAfter n s) := by
  induction p generalizing n s with
  | done r => exact hs
  | op o next ih =>
    cases n with
    | zero => exact hs
    | succ n => exact ih _ (hp.2 _) n (hp.1 s hs)

end Prog

section Files

variable {φ γ : Type}

abbrev Directory (φ γ : Type) := φ → Option γ

/-- The calls on the files of a directory. A file that is opened for writing is
empty, `create` fails where the file exists, and `replace` is atomic. -/
inductive FileOp (φ γ : Type) where
  | stat (f : φ)
  | read (f : φ)
  | mkdir
  | create (f : φ)
  | truncate (f : φ)
  | write (f : φ) (content : γ)
  | chmod (f : φ)
  | replace (src dst : φ)

def FileOp.Answer : FileOp φ γ → Type
  | .stat _ => Bool
  | .read _ => Option γ
  | .create _ => Bool
  | _ => Unit

variable [DecidableEq φ] [EmptyCollection γ]

/-- The directory behind `replace`. -/
def moved (src dst : φ) (d : Directory φ γ) : Directory φ γ :=
  Function.update (Function.update d dst (d src)) src none

/-- The directory can be written to. -/
def FileOp.perform : (o : FileOp φ γ) → Directory φ γ → o.Answer × Directory φ γ
  | .stat f, d => ((d f).isSome, d)
  | .read f, d => (d f, d)
  | .mkdir, d => ((), d)
  | .create f, d =>
    if (d f).isSome then (false, d) else (true, Function.update d f (some ∅))
  | .truncate f, d => ((), Function.update d f (some ∅))
  | .write f content, d => ((), Function.update d f (some content))
  | .chmod _, d => ((), d)
  | .replace src dst, d => ((), moved src dst d)

variable (φ γ)

def fileSystem : Interface (Directory φ γ) where
  Op := FileOp φ γ
  Answer := FileOp.Answer
  perform := FileOp.perform

variable {φ γ}

abbrev FileProg (φ γ ε α : Type) [DecidableEq φ] [EmptyCollection γ] :=
  Prog (fileSystem φ γ) ε α

def pathExists (f : φ) : FileProg φ γ ε Bool := .call (I := fileSystem φ γ) (.stat f)

def readFile (f : φ) : FileProg φ γ ε (Option γ) := .call (I := fileSystem φ γ) (.read f)

def mkdir : FileProg φ γ ε Unit := .call (I := fileSystem φ γ) .mkdir

def create (f : φ) : FileProg φ γ ε Bool := .call (I := fileSystem φ γ) (.create f)

def truncate (f : φ) : FileProg φ γ ε Unit := .call (I := fileSystem φ γ) (.truncate f)

def write (f : φ) (content : γ) : FileProg φ γ ε Unit :=
  .call (I := fileSystem φ γ) (.write f content)

def chmod (f : φ) : FileProg φ γ ε Unit := .call (I := fileSystem φ γ) (.chmod f)

def replace (src dst : φ) : FileProg φ γ ε Unit :=
  .call (I := fileSystem φ γ) (.replace src dst)

section Operations

-- The calls, each as an operation.
variable (f g : φ) (content : γ) (d : Directory φ γ)

@[simp]
theorem pathExists_bind (k : Bool → FileProg φ γ ε α) :
    (pathExists f >>= k).exec d = (k (d f).isSome).exec d ∧
      ∀ n, (pathExists f >>= k).stopAfter (n+1) d = (k (d f).isSome).stopAfter n d :=
  call_bind (I := fileSystem φ γ) (o := .stat f) rfl k

@[simp]
theorem readFile_bind (k : Option γ → FileProg φ γ ε α) :
    (readFile f >>= k).exec d = (k (d f)).exec d ∧
      ∀ n, (readFile f >>= k).stopAfter (n+1) d = (k (d f)).stopAfter n d :=
  call_bind (I := fileSystem φ γ) (o := .read f) rfl k

@[simp]
theorem mkdir_bind (k : Unit → FileProg φ γ ε α) :
    (mkdir >>= k).exec d = (k ()).exec d ∧
      ∀ n, (mkdir >>= k).stopAfter (n+1) d = (k ()).stopAfter n d :=
  call_bind (I := fileSystem φ γ) (o := .mkdir) rfl k

theorem create_bind_new (k : Bool → FileProg φ γ ε α) (hf : d f = none) :
    (create f >>= k).exec d = (k true).exec (Function.update d f (some ∅)) ∧
      ∀ n, (create f >>= k).stopAfter (n+1) d =
        (k true).stopAfter n (Function.update d f (some ∅)) := by
  have hnew : ¬(d f).isSome := by simp [hf]
  have hperform : FileOp.perform (.create f) d = (true, Function.update d f (some ∅)) :=
    if_neg hnew
  exact call_bind (I := fileSystem φ γ) (o := .create f) hperform k

theorem create_bind_old (k : Bool → FileProg φ γ ε α) (hf : (d f).isSome) :
    (create f >>= k).exec d = (k false).exec d ∧
      ∀ n, (create f >>= k).stopAfter (n+1) d = (k false).stopAfter n d := by
  have hperform : FileOp.perform (.create f) d = (false, d) := if_pos hf
  exact call_bind (I := fileSystem φ γ) (o := .create f) hperform k

@[simp]
theorem truncate_bind (k : Unit → FileProg φ γ ε α) :
    (truncate f >>= k).exec d = (k ()).exec (Function.update d f (some ∅)) ∧
      ∀ n, (truncate f >>= k).stopAfter (n+1) d =
        (k ()).stopAfter n (Function.update d f (some ∅)) :=
  call_bind (I := fileSystem φ γ) (o := .truncate f) rfl k

@[simp]
theorem write_bind (k : Unit → FileProg φ γ ε α) :
    (write f content >>= k).exec d = (k ()).exec (Function.update d f (some content)) ∧
      ∀ n, (write f content >>= k).stopAfter (n+1) d =
        (k ()).stopAfter n (Function.update d f (some content)) :=
  call_bind (I := fileSystem φ γ) (o := .write f content) rfl k

@[simp]
theorem chmod_bind (k : Unit → FileProg φ γ ε α) :
    (chmod f >>= k).exec d = (k ()).exec d ∧
      ∀ n, (chmod f >>= k).stopAfter (n+1) d = (k ()).stopAfter n d :=
  call_bind (I := fileSystem φ γ) (o := .chmod f) rfl k

@[simp]
theorem replace_bind (k : Unit → FileProg φ γ ε α) :
    (replace f g >>= k).exec d = (k ()).exec (moved f g d) ∧
      ∀ n, (replace f g >>= k).stopAfter (n+1) d = (k ()).stopAfter n (moved f g d) :=
  call_bind (I := fileSystem φ γ) (o := .replace f g) rfl k

@[simp]
theorem replace_exec : (replace f g : FileProg φ γ ε Unit).exec d = (.ok (), moved f g d) := rfl

end Operations

end Files

end DbAgent.CrashProgram
