import Mathlib.Logic.Function.Basic
import DbAgent.PyJson

/-! A row of `platforms`, and what the consumption of a bootstrap token reads and
writes in its configuration. -/
namespace DbAgent.Registry

open JsonText Py

/-- `platforms.config`, a JSON object. -/
abbrev Config := String → Option (Json Number)

/-- The columns of `platforms` that change after the row was created, the status
apart. -/
structure Platform where
  displayName : Option String
  config : Config

inductive RegistryError where
  | platformNotFound
  | invalidToken
  | other (message : String)
  deriving DecidableEq, Repr

/-- `storedToken, _ := plat.Config["bootstrap_token"].(string)`. -/
def storedToken (config : Config) : String :=
  match config "bootstrap_token" with
  | some (.str s) => s
  | _ => ""

/-- `consumed, _ := plat.Config["bootstrap_token_consumed"].(bool)`. -/
def consumed (config : Config) : Bool :=
  match config "bootstrap_token_consumed" with
  | some (.bool b) => b
  | _ => false

/-- The configuration with the token marked as used. Decoding into an `any` and
encoding again turns every number into a `float64`. -/
def markConsumed (float64 : Number → Number) (config : Config) : Config :=
  Function.update (fun k => (config k).map (Json.bindNum fun n => .num (float64 n)))
    "bootstrap_token_consumed" (some (.bool true))

/-- The check of `ConsumeBootstrapToken` on the row it has locked, and the
configuration it writes. -/
def consumeToken (float64 : Number → Number) (config : Config) (token : String) :
    Except RegistryError Config :=
  if consumed config = true ∨ storedToken config = "" ∨ storedToken config ≠ token then
    .error .invalidToken
  else .ok (markConsumed float64 config)

theorem consumeToken_ok (float64 : Number → Number) (config config' : Config)
    (token : String) (h : consumeToken float64 config token = .ok config') :
    consumed config = false ∧ storedToken config = token ∧ token ≠ "" ∧
      config' = markConsumed float64 config := by
  unfold consumeToken at h
  grind

@[simp]
theorem consumed_markConsumed (float64 : Number → Number) (config : Config) :
    consumed (markConsumed float64 config) = true := by
  simp [consumed, markConsumed]

@[simp]
theorem storedToken_markConsumed (float64 : Number → Number) (config : Config) :
    storedToken (markConsumed float64 config) = storedToken config := by
  have hne : "bootstrap_token" ≠ "bootstrap_token_consumed" := by decide
  have hget : markConsumed float64 config "bootstrap_token" =
      (config "bootstrap_token").map (Json.bindNum fun n => .num (float64 n)) :=
    Function.update_of_ne hne _ _
  unfold storedToken
  rw [hget]
  cases config "bootstrap_token" with
  | none => rfl
  | some v => cases v <;> rfl

end DbAgent.Registry
