import Mathlib.Data.List.Basic

/-!
# Computations with a log

A computation that may wait for good, together with the log of what it has done up to then.
Every part of it can only be run with its own log, so the log of the whole says what the whole
has done.
-/

namespace LibNet.Runs

universe u v w

/-- The log of a computation, and what it comes back with if it does not wait for good. -/
structure Logged (Event : Type u) (Value : Type v) where
  log : List Event
  result : Option Value

namespace Logged

variable {Event : Type u} {Value Other : Type v}

/-- Nothing is done. -/
def returns (value : Value) : Logged Event Value := ⟨[], some value⟩

/-- The second computation goes on with what the first comes back with. -/
def andThen (first : Logged Event Value) (next : Value → Logged Event Other) :
    Logged Event Other :=
  match first.result with
  | none => ⟨first.log, none⟩
  | some value => ⟨first.log ++ (next value).log, (next value).result⟩

variable {first : Logged Event Value} {next : Value → Logged Event Other}

theorem andThen_of_none (waits : first.result = none) :
    first.andThen next = ⟨first.log, none⟩ := by
  rw [andThen, waits]

theorem andThen_of_some {value : Value} (ended : first.result = some value) :
    first.andThen next = ⟨first.log ++ (next value).log, (next value).result⟩ := by
  rw [andThen, ended]

/-- Without the logs the computations follow each other as `Option`s do. -/
theorem result_andThen :
    (first.andThen next).result = first.result.bind fun value => (next value).result := by
  cases ended : first.result with
  | none => rw [andThen_of_none ended, Option.bind_none]
  | some value => rw [andThen_of_some ended, Option.bind_some]

/-- A log is what the first has done, and behind it what the second has done if it came to it. -/
theorem log_andThen (Holds : List Event → Prop) (waits : Holds first.log)
    (goes : ∀ value, first.result = some value → Holds (first.log ++ (next value).log)) :
    Holds (first.andThen next).log := by
  cases ended : first.result with
  | none => rwa [andThen_of_none ended]
  | some value =>
      rw [andThen_of_some ended]
      exact goes value ended

variable {Memory : Type w} {play : Memory → Event → Memory}

/-- What a computation leaves is what its log leaves when it is played. -/
def Plays (play : Memory → Event → Memory) (before : Memory) (computation : Logged Event Value)
    (after : Value → Memory) : Prop :=
  ∀ value, computation.result = some value → after value = computation.log.foldl play before

theorem plays_returns {after : Value → Memory} (value : Value) :
    Plays play (after value) (returns value) after := by
  intro other same
  cases same
  rfl

theorem Plays.andThen {before : Memory} {middle : Value → Memory} {after : Other → Memory}
    (here : Plays play before first middle)
    (there : ∀ value, first.result = some value → Plays play (middle value) (next value) after) :
    Plays play before (first.andThen next) after := by
  intro other came
  cases ended : first.result with
  | none =>
      rw [andThen_of_none ended] at came
      cases came
  | some value =>
      rw [andThen_of_some ended] at came ⊢
      rw [there value ended other came, here value ended, List.foldl_append]

end Logged

end LibNet.Runs
