import Rulebook.Value

/-!
# Hosts

A host resolves variables and performs consequences. Evaluation knows nothing else of the program
that it runs in.

## Main definitions

* `Response`: what a host reports about a consequence
* `Host`: the services of a host, as functions of its state
* `Environment`: variables and a log of actions, and a host that keeps them
* `Host.scripted`: a host with ready-made responses to some actions
-/

namespace Rulebook

/-- What a host reports about a consequence. An action that it does not know is not handled, and
counts as a success without effect. -/
structure Response where
  handled : Bool
  success : Bool
  value : Value
  message : Option String

namespace Response

/-- The response of a host that does not know the action. -/
def unhandled : Response := ⟨false, true, .null, none⟩

/-- A success with a value. -/
def ok (value : Value) : Response := ⟨true, true, value, none⟩

/-- A failure with its reason. -/
def failed (message : String) : Response := ⟨true, false, .null, some message⟩

end Response

/-- The services of a host with states in `σ`. Storing a variable returns the value it had. -/
structure Host (σ : Type) where
  read : String → σ → Value × σ
  store : String → Value → σ → Option Value × σ
  perform : String → ConsequenceKind → σ → Response × σ

/-- The values of variables, and the actions performed so far in order. -/
structure Environment where
  bindings : Dict Value := []
  performed : Array (String × ConsequenceKind) := #[]

namespace Environment

/-- Sets a variable. -/
def set (env : Environment) (name : String) (value : Value) : Environment :=
  { env with bindings := env.bindings.insert name value }

/-- The value of a variable that is set. -/
def get? (env : Environment) (name : String) : Option Value :=
  env.bindings.find? name

/-- A host that keeps an environment. Variables that are not set are null. Failing is the only
action that fails; all others return their name. -/
def host : Host Environment where
  read name env := ((env.get? name).getD .null, env)
  store name value env := (env.get? name, env.set name value)
  perform action kind env :=
    let env := { env with performed := env.performed.push (action, kind) }
    if kind = .verdict .fail then (.failed ("'" ++ action ++ "' failed"), env)
    else (.ok (.string action), env)

end Environment

namespace Host

variable {σ : Type}

/-- A host that gives ready-made responses to some actions, so that these do not reach the host
below. -/
def scripted (responses : Dict Response) (h : Host σ) : Host σ :=
  { h with
    perform := fun action kind s =>
      match responses.find? action with
      | some response => (response, s)
      | none => h.perform action kind s }

/-- A host that stores nothing. -/
def readOnly (h : Host σ) : Host σ :=
  { h with store := fun _ _ s => (none, s) }

end Host

end Rulebook
