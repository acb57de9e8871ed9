import Capy.JoinShares

namespace Capy.WhenAll

open Function Capy.Join

/-- What a runner has still to do before `final_suspend`. -/
inductive Work (R Exc : Type) where
  | setResult (r : R) (throws : Option Exc) (ec : ErrorCode)
  | recordError (ec : ErrorCode)
  | writeError (ec : ErrorCode)
  | captureException (e : Exc)
  | writeException (e : Exc)
  | requestStop

variable {n : Nat}

/-- The members of the state of a `when_all` beside its counter, and the calls of
`capture_exception` and `record_error` in the order of their exchanges. -/
structure Shared (R : Fin n → Type) (Exc : Type) where
  hasException : Bool := false
  firstException : Option Exc := none
  hasError : Bool := false
  firstError : ErrorCode := {}
  results : ∀ i, Option (R i) := fun _ => none
  exceptions : List (Fin n × Exc) := []
  errors : List (Fin n × ErrorCode) := []

variable {P R : Fin n → Type} {Exc : Type}

def work (i : Fin n) (x : Shared R Exc) :
    Work (R i) Exc → Shared R Exc × Option (Work (R i) Exc)
  | .setResult _ (some e) _ => (x, some (.captureException e))
  | .setResult r none ec =>
      ({ x with results := update x.results i (some r) },
        if ec.isError then some (.recordError ec) else none)
  | .recordError ec =>
      ({ x with hasError := true, errors := x.errors ++ [(i, ec)] },
        if x.hasError then some .requestStop else some (.writeError ec))
  | .writeError ec => ({ x with firstError := ec }, some .requestStop)
  | .captureException e =>
      ({ x with hasException := true, exceptions := x.exceptions ++ [(i, e)] },
        if x.hasException then some .requestStop else some (.writeException e))
  | .writeException e => ({ x with firstException := some e }, some .requestStop)
  | .requestStop => (x, none)

def Work.stops {R Exc : Type} : Work R Exc → Bool
  | .requestStop => true
  | _ => false

def body (begin : ∀ i, Completion (P i) Exc → Option (Work (R i) Exc)) :
    Body n (fun i => Completion (P i) Exc) (fun i => Work (R i) Exc) (Shared R Exc) where
  begin := begin
  step := work
  stops _ := Work.stops

/-- `make_when_all_homogeneous_runner`, for children with a payload. -/
def rangeRunner {T : Type} : Completion T Exc → Option (Work T Exc)
  | .returned r throws =>
      if r.ec.isError then some (.recordError r.ec)
      else some (.setResult r.payload throws r.ec)
  | .threw e => some (.captureException e)

/-- `make_when_all_homogeneous_runner`, for children without a payload. -/
def voidRunner : Completion Unit Exc → Option (Work Unit Exc)
  | .returned r _ => if r.ec.isError then some (.recordError r.ec) else none
  | .threw e => some (.captureException e)

/-- `make_when_all_results_runner`. -/
def resultsRunner {T : Type} : Completion T Exc → Option (Work (Results T) Exc)
  | .returned r throws => some (.setResult r throws r.ec)
  | .threw e => some (.captureException e)

abbrev RangeState (n : Nat) (T Exc : Type) : Type :=
  State (fun _ : Fin n => Completion T Exc) (fun _ => Work T Exc)
    (Shared (fun _ : Fin n => T) Exc)

abbrev VariadicState (P : Fin n → Type) (Exc : Type) : Type :=
  State (fun i => Completion (P i) Exc) (fun i => Work (Results (P i)) Exc)
    (Shared (fun i => Results (P i)) Exc)

def rangeBody (n : Nat) (T Exc : Type) :
    Body n (fun _ => Completion T Exc) (fun _ => Work T Exc)
      (Shared (fun _ : Fin n => T) Exc) :=
  body fun _ => rangeRunner

def voidBody (n : Nat) (Exc : Type) :
    Body n (fun _ => Completion Unit Exc) (fun _ => Work Unit Exc)
      (Shared (fun _ : Fin n => Unit) Exc) :=
  body fun _ => voidRunner

def variadicBody (P : Fin n → Type) (Exc : Type) :
    Body n (fun i => Completion (P i) Exc) (fun i => Work (Results (P i)) Exc)
      (Shared (fun i => Results (P i)) Exc) :=
  body fun _ => resultsRunner

/-- Dereference every optional; `none` when one has no value. -/
def engaged (results : ∀ i, Option (R i)) : Option (∀ i, R i) :=
  if h : ∀ i, (results i).isSome = true then some fun i => (results i).get (h i) else none

/-- The result of `when_all` over a range: the exception rethrown, or the error
code and the values. It is `none` when an empty optional is dereferenced. -/
def whenAllRange {T : Type} (x : Shared (fun _ : Fin n => T) Exc) :
    Option (Except Exc (ErrorCode × List T)) :=
  match x.firstException with
  | some e => some (.error e)
  | none =>
      if x.hasError then some (.ok (x.firstError, []))
      else (engaged x.results).map fun values => .ok ({}, List.ofFn values)

/-- The result of `when_all` over a range of children without payloads. -/
def whenAllVoid (x : Shared (fun _ : Fin n => Unit) Exc) : Except Exc ErrorCode :=
  match x.firstException with
  | some e => .error e
  | none => if x.hasError then .ok x.firstError else .ok {}

/-- `build_when_all_results`. -/
def buildWhenAllResults (results : ∀ i, Results (P i)) : ErrorCode × (∀ i, P i) :=
  (((List.ofFn fun i => (results i).ec).find? ErrorCode.isError).getD {},
    fun i => (results i).payload)

/-- The result of the variadic `when_all`. -/
def whenAllVariadic (x : Shared (fun i => Results (P i)) Exc) :
    Option (Except Exc (ErrorCode × (∀ i, P i))) :=
  match x.firstException with
  | some e => some (.error e)
  | none => (engaged x.results).map fun results =>
      let r := buildWhenAllResults results
      .ok (if x.hasError then (x.firstError, r.2) else r)

end Capy.WhenAll
