import Capy.JoinShares

namespace Capy.WhenAny

open Function Capy.Join

/-- What a runner has still to do before `final_suspend`. -/
inductive Work (P Exc : Type) where
  | tryWin (r : Results P) (throws : Option Exc)
  | writeWinner (r : Results P) (throws : Option Exc)
  | requestStop (r : Results P) (throws : Option Exc)
  | emplace (r : Results P) (throws : Option Exc)
  | recordError (ec : ErrorCode)
  | recordException (e : Exc)

/-- The members of the state of a `when_any` beside its counter, the calls of
`try_win` in the order of their exchanges, and the failures in the order they
were recorded. -/
structure Shared (n : Nat) (R Exc : Type) where
  hasWinner : Bool := false
  winnerIndex : Nat := 0
  winnerException : Option Exc := none
  result : Option R := none
  lastError : ErrorCode := {}
  lastException : Option Exc := none
  wins : List (Fin n) := []
  failures : List (Fin n × (ErrorCode ⊕ Exc)) := []

variable {n : Nat} {P : Fin n → Type} {R T Exc : Type}

/-- One step of a runner; `keep` makes what is stored of the winner from its
payload, and is absent when nothing is stored. -/
def work (keep : Option (∀ i, P i → R)) (i : Fin n) (x : Shared n R Exc) :
    Work (P i) Exc → Shared n R Exc × Option (Work (P i) Exc)
  | .tryWin r throws =>
      ({ x with hasWinner := true, wins := x.wins ++ [i] },
        if x.hasWinner then none else some (.writeWinner r throws))
  | .writeWinner r throws => ({ x with winnerIndex := i }, some (.requestStop r throws))
  | .requestStop r throws =>
      (x, if keep.isSome then some (.emplace r throws) else none)
  | .emplace _ (some e) => ({ x with winnerException := some e }, none)
  | .emplace r none => ({ x with result := keep.map fun k => k i r.payload }, none)
  | .recordError ec =>
      ({ x with
        lastError := ec
        lastException := none
        failures := x.failures ++ [(i, .inl ec)] }, none)
  | .recordException e =>
      ({ x with
        lastException := some e
        lastError := {}
        failures := x.failures ++ [(i, .inr e)] }, none)

def Work.stops {P Exc : Type} : Work P Exc → Bool
  | .requestStop _ _ => true
  | _ => false

/-- `make_when_any_results_runner` and `make_when_any_results_homogeneous_runner`. -/
def resultsRunner : Completion T Exc → Option (Work T Exc)
  | .returned r throws =>
      if r.ec.isError then some (.recordError r.ec) else some (.tryWin r throws)
  | .threw e => some (.recordException e)

def body (keep : Option (∀ i, P i → R)) :
    Body n (fun i => Completion (P i) Exc) (fun i => Work (P i) Exc) (Shared n R Exc) where
  begin _ := resultsRunner
  step := work keep
  stops _ := Work.stops

abbrev RaceState (P : Fin n → Type) (R Exc : Type) : Type :=
  State (fun i => Completion (P i) Exc) (fun i => Work (P i) Exc) (Shared n R Exc)

/-- The variadic overload keeps the payload as the alternative of its child. -/
def keepVariadic : Option (∀ i, P i → Σ i, P i) := some Sigma.mk

def keepRange : Option (∀ _ : Fin n, T → T) := some fun _ v => v

def keepVoid : Option (∀ _ : Fin n, Unit → Unit) := none

/-- The failure reported when no child won. -/
def failure {A : Type} (x : Shared n R Exc) : Except Exc (ErrorCode ⊕ A) :=
  match x.lastException with
  | some e => .error e
  | none => .ok (.inl x.lastError)

/-- The result of the variadic `when_any`: the exception rethrown, the error code
at index 0, or the winner and its payload. -/
def whenAnyVariadic (x : Shared n (Σ i, P i) Exc) : Except Exc (ErrorCode ⊕ Σ i, P i) :=
  match x.result with
  | some r => .ok (.inr r)
  | none =>
      match x.winnerException with
      | some e => .error e
      | none => failure x

/-- The result of `when_any` over a range; `none` when an empty optional is
dereferenced. -/
def whenAnyRange (x : Shared n T Exc) : Option (Except Exc (ErrorCode ⊕ (Nat × T))) :=
  if x.hasWinner then
    match x.winnerException with
    | some e => some (.error e)
    | none => x.result.map fun v => .ok (.inr (x.winnerIndex, v))
  else some (failure x)

/-- The result of `when_any` over a range of children without payloads. -/
def whenAnyVoid (x : Shared n Unit Exc) : Except Exc (ErrorCode ⊕ Nat) :=
  if x.hasWinner then
    match x.winnerException with
    | some e => .error e
    | none => .ok (.inr x.winnerIndex)
  else failure x

end Capy.WhenAny
