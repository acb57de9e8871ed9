import Capy.WhenAllRecords

namespace Capy.WhenAll

open Function Capy.Join

variable {n : Nat} {P R : Fin n → Type} {T Exc : Type}

/-- The exception by which a child exits, for a child whose result is moved out
when `moved` holds of it. -/
def raises (moved : Results T → Bool) : Completion T Exc → Option Exc
  | .returned r throws => if moved r then throws else none
  | .threw e => some e

/-- The error code that a child reports and that is recorded. -/
def reports (moved : Results T → Bool) : Completion T Exc → Option ErrorCode
  | .returned r throws =>
      if moved r && throws.isSome then none else if r.ec.isError then some r.ec else none
  | .threw _ => none

/-- The runner for ranges moves the results of the children that succeed. -/
def movedInRange (r : Results T) : Bool := !r.ec.isError

/-- What the records say once the parent is resumed. -/
structure Recorded (moved : ∀ i, Results (P i) → Bool)
    (s : State (fun i => Completion (P i) Exc) (fun i => Work (R i) Exc) (Shared R Exc)) :
    Prop where
  exceptions : ∀ i e, (i, e) ∈ s.shared.exceptions ↔
    (s.branch i).outcome.bind (raises (moved i)) = some e
  errors : ∀ i ec, (i, ec) ∈ s.shared.errors ↔
    (s.branch i).outcome.bind (reports (moved i)) = some ec

/-- Stop is requested on the operation's source by the parent's stop request, by
a branch that is lost and by a child that fails. -/
structure StopsOnFailure (moved : ∀ i, Results (P i) → Bool)
    (s : State (fun i => Completion (P i) Exc) (fun i => Work (R i) Exc) (Shared R Exc)) :
    Prop where
  cause : s.core.stop = true → s.core.parentStop = true ∨ ∃ i, (s.branch i).lost = true ∨
    ∃ o, (s.branch i).outcome = some o ∧
      (raises (moved i) o ≠ none ∨ reports (moved i) o ≠ none)
  parent : s.core.parentStop = true → s.core.stop = true
  lost : ∀ i, (s.branch i).pc = .done → (s.branch i).lost = true → s.core.stop = true
  failed : ∀ i o, (s.branch i).pc = .done → (s.branch i).outcome = some o →
    raises (moved i) o ≠ none ∨ reports (moved i) o ≠ none → s.core.stop = true

/-- The result of `when_all` over a range. -/
structure RangeResult (s : RangeState n T Exc) : Prop where
  recorded : Recorded (fun _ => movedInRange) s
  rethrows : ∀ i e, s.shared.exceptions.head? = some (i, e) →
    whenAllRange s.shared = some (.error e)
  fails : s.shared.exceptions = [] → ∀ i ec, s.shared.errors.head? = some (i, ec) →
    whenAllRange s.shared = some (.ok (ec, []))
  succeeds : s.shared.exceptions = [] → s.shared.errors = [] → ∃ values : Fin n → T,
    (∀ i, ∃ ec, (s.branch i).outcome = some (.returned ⟨ec, values i⟩ none)) ∧
    whenAllRange s.shared = some (.ok ({}, List.ofFn values))

/-- The result of `when_all` over a range of children without payloads. -/
structure VoidResult (s : RangeState n Unit Exc) : Prop where
  recorded : Recorded (fun _ _ => false) s
  rethrows : ∀ i e, s.shared.exceptions.head? = some (i, e) →
    whenAllVoid s.shared = .error e
  fails : s.shared.exceptions = [] → ∀ i ec, s.shared.errors.head? = some (i, ec) →
    whenAllVoid s.shared = .ok ec
  succeeds : s.shared.exceptions = [] → s.shared.errors = [] → whenAllVoid s.shared = .ok {}

/-- The result of the variadic `when_all`. -/
structure VariadicResult (s : VariadicState P Exc) : Prop where
  recorded : Recorded (fun _ _ => true) s
  rethrows : ∀ i e, s.shared.exceptions.head? = some (i, e) →
    whenAllVariadic s.shared = some (.error e)
  returns : s.shared.exceptions = [] → ∃ r : ∀ i, Results (P i),
    (∀ i, (s.branch i).outcome = some (.returned (r i) none)) ∧
    whenAllVariadic s.shared = some (.ok
      ((s.shared.errors.head?.map Prod.snd).getD {}, fun i => (r i).payload))

/-- The runner records what the child gives rise to. -/
structure Describes (begin : ∀ i, Completion (P i) Exc → Option (Work (R i) Exc))
    (moved : ∀ i, Results (P i) → Bool) : Prop where
  begins : ∀ i o w, begin i o = some w → w.begins = true
  raises : ∀ i o, (begin i o).bind Work.raises = raises (moved i) o
  reports : ∀ i o, (begin i o).bind Work.reports = reports (moved i) o

theorem describes_range :
    Describes (fun _ : Fin n => @rangeRunner Exc T) fun _ => movedInRange where
  begins i o w h := by
    cases o with
    | returned r throws =>
        simp only [rangeRunner] at h
        split at h <;> obtain rfl := Option.some.inj h <;> rfl
    | threw e =>
        obtain rfl := Option.some.inj h
        rfl
  raises i o := by
    cases o with
    | returned r throws =>
        cases hec : r.ec.isError <;> simp [rangeRunner, raises, movedInRange, hec, Work.raises]
    | threw e => rfl
  reports i o := by
    cases o with
    | returned r throws =>
        cases hec : r.ec.isError <;> cases throws <;>
          simp [rangeRunner, reports, movedInRange, hec, Work.reports]
    | threw e => rfl

theorem describes_void :
    Describes (fun _ : Fin n => @voidRunner Exc) fun _ _ => false where
  begins i o w h := by
    cases o with
    | returned r throws =>
        simp only [voidRunner] at h
        split at h
        · obtain rfl := Option.some.inj h
          rfl
        · simp at h
    | threw e =>
        obtain rfl := Option.some.inj h
        rfl
  raises i o := by
    cases o with
    | returned r throws =>
        cases hec : r.ec.isError <;> simp [voidRunner, raises, hec, Work.raises]
    | threw e => rfl
  reports i o := by
    cases o with
    | returned r throws =>
        cases hec : r.ec.isError <;> simp [voidRunner, reports, hec, Work.reports]
    | threw e => rfl

theorem describes_results :
    Describes (fun i : Fin n => @resultsRunner Exc (P i)) fun _ _ => true where
  begins i o w h := by
    cases o <;> obtain rfl := Option.some.inj h <;> rfl
  raises i o := by
    cases o <;> rfl
  reports i o := by
    cases o with
    | returned r throws =>
        cases throws <;> simp [resultsRunner, reports, Work.reports]
    | threw e => rfl

section Resumed

variable {begin : ∀ i, Completion (P i) Exc → Option (Work (R i) Exc)}
  {moved : ∀ i, Results (P i) → Bool}
  {s : State (fun i => Completion (P i) Exc) (fun i => Work (R i) Exc) (Shared R Exc)}

theorem stopsOnFailure (hn : 0 < n) (hd : Describes begin moved)
    (h : Reachable (body begin) {} s) : StopsOnFailure moved s := by
  have hshares := shares_reachable hn h
  have hrecords := records_reachable begin hn hd.begins h
  constructor
  · intro hstop
    refine (hshares.stop.mp hstop).imp_right ?_
    rintro ⟨i, hi⟩
    refine ⟨i, ?_⟩
    by_cases hlost : (s.branch i).lost = true
    · exact .inl hlost
    · obtain ⟨-, v, hv, hfails⟩ := (hrecords.requested i (by simpa using hlost)).mp hi
      obtain ⟨o, ho, hbegin⟩ := Option.bind_eq_some_iff.mp hv
      refine .inr ⟨o, ho, ?_⟩
      rw [← hd.raises, ← hd.reports, hbegin]
      exact hfails
  · exact fun hparent => hshares.stop.mpr (.inl hparent)
  · intro i hdone hlost
    have hok := hshares.branches i
    simp only [BranchOk, hdone] at hok
    exact hshares.stop_of (hok.2 hlost)
  · intro i o hdone ho hfails
    have hfound : (s.branch i).lost = false := by
      by_contra hlost
      have := (hshares.ended hdone).mp (by simpa using hlost)
      simp [ho] at this
    refine hshares.stop_of ((hrecords.requested i hfound).mpr ⟨?_, ?_⟩)
    · simp [Branch.pending, hdone]
    · rw [← hd.raises, ← hd.reports] at hfails
      cases hbegin : begin i o with
      | none => simp [hbegin] at hfails
      | some v => exact ⟨v, by rw [ho]; exact hbegin, by simpa [hbegin] using hfails⟩

variable (hn : 0 < n) (hd : Describes begin moved) (h : Reachable (body begin) {} s)

include hn h in
theorem soFar_of_resumed (hresumed : s.core.resumed = 1) {α : Type} (i : Fin n)
    (f : Work (R i) Exc → Option α) :
    soFar f (begin i) (s.branch i) = ((s.branch i).outcome.bind (begin i)).bind f := by
  simp [soFar, (shares_reachable hn h).pending_of_resumed hresumed]

include hn hd h

theorem recorded_of_resumed (hresumed : s.core.resumed = 1) : Recorded moved s := by
  have hrecords := records_reachable begin hn hd.begins h
  constructor
  · intro i e
    rw [hrecords.exceptions, soFar_of_resumed hn h hresumed, Option.bind_assoc]
    simp only [hd.raises]
  · intro i ec
    rw [hrecords.errors, soFar_of_resumed hn h hresumed, Option.bind_assoc]
    simp only [hd.reports]

theorem firstException_of_resumed (hresumed : s.core.resumed = 1) :
    s.shared.firstException = s.shared.exceptions.head?.map Prod.snd := by
  have hrecords := records_reachable begin hn hd.begins h
  cases hlog : s.shared.exceptions with
  | nil => exact hrecords.noException hlog
  | cons p log =>
      rcases hrecords.firstException.written p.1 p.2 (by simp [hlog]) with hwrites | hwritten
      · simp [(shares_reachable hn h).pending_of_resumed hresumed] at hwrites
      · exact hwritten

theorem hasError_eq : s.shared.hasError = s.shared.errors.head?.isSome := by
  have hflag := (records_reachable begin hn hd.begins h).firstError.flag
  cases hlog : s.shared.errors <;> simp [hlog] at hflag ⊢ <;> exact hflag

theorem firstError_of_resumed (hresumed : s.core.resumed = 1) {i : Fin n} {ec : ErrorCode}
    (hhead : s.shared.errors.head? = some (i, ec)) : s.shared.firstError = ec := by
  have hrecords := records_reachable begin hn hd.begins h
  rcases hrecords.firstError.written i ec hhead with hwrites | hwritten
  · simp [(shares_reachable hn h).pending_of_resumed hresumed] at hwrites
  · exact hwritten

theorem results_of_resumed (hresumed : s.core.resumed = 1) (i : Fin n) :
    s.shared.results i = ((s.branch i).outcome.bind (begin i)).bind Work.stores := by
  rw [(records_reachable begin hn hd.begins h).results, soFar_of_resumed hn h hresumed]

theorem outcome_of_resumed (hresumed : s.core.resumed = 1)
    (hnone : s.shared.exceptions = []) (i : Fin n) :
    ∃ r throws, (s.branch i).outcome = some (.returned r throws) ∧
      (moved i r = true → throws = none) := by
  have hrecorded := recorded_of_resumed hn hd h hresumed
  obtain ⟨o, ho⟩ := (shares_reachable hn h).outcome_of_resumed hresumed i
  have hraises : ∀ e, raises (moved i) o ≠ some e := by
    intro e he
    have := (hrecorded.exceptions i e).mpr (by rw [ho]; exact he)
    simp [hnone] at this
  cases o with
  | threw e => exact absurd rfl (hraises e)
  | returned r throws =>
      refine ⟨r, throws, ho, fun hmoved => ?_⟩
      cases throws with
      | none => rfl
      | some e => exact absurd (by simp [raises, hmoved]) (hraises e)

theorem success_of_resumed (hresumed : s.core.resumed = 1) (hnone : s.shared.errors = [])
    {i : Fin n} {r : Results (P i)} {throws : Option Exc}
    (ho : (s.branch i).outcome = some (.returned r throws))
    (hthrows : moved i r = true → throws = none) : r.ec.isError = false := by
  by_contra hec
  have hmem := ((recorded_of_resumed hn hd h hresumed).errors i r.ec).mpr
    (by cases hm : moved i r <;> simp_all [reports])
  simp [hnone] at hmem

end Resumed

theorem engaged_eq {results : ∀ i, Option (R i)} {r : ∀ i, R i}
    (h : ∀ i, results i = some (r i)) : engaged results = some r := by
  simp [engaged, h]

theorem rangeResult (hn : 0 < n) {s : RangeState n T Exc}
    (h : Reachable (rangeBody n T Exc) {} s) (hresumed : s.core.resumed = 1) :
    RangeResult s := by
  have hd : Describes (fun _ : Fin n => @rangeRunner Exc T) fun _ => movedInRange :=
    describes_range
  have hexc := firstException_of_resumed hn hd h hresumed
  have hflag := hasError_eq hn hd h
  constructor
  · exact recorded_of_resumed hn hd h hresumed
  · intro i e hhead
    simp [whenAllRange, hexc, hhead]
  · intro hnone i ec hhead
    have hec := firstError_of_resumed hn hd h hresumed hhead
    simp [whenAllRange, hexc, hnone, hflag, hhead, hec]
  · intro hnone herr
    choose r throws ho hthrows using outcome_of_resumed hn hd h hresumed hnone
    have hec : ∀ i, (r i).ec.isError = false := fun i =>
      success_of_resumed hn hd h hresumed herr (ho i) (hthrows i)
    have hmoves : ∀ i, throws i = none := fun i => hthrows i (by simp [movedInRange, hec])
    have hresults : ∀ i, s.shared.results i = some (r i).payload := by
      intro i
      rw [results_of_resumed hn hd h hresumed, ho i, hmoves i]
      simp [rangeRunner, hec, Work.stores]
    refine ⟨fun i => (r i).payload, fun i => ⟨(r i).ec, by rw [ho i, hmoves i]⟩, ?_⟩
    simp [whenAllRange, hexc, hnone, hflag, herr, engaged_eq hresults]

theorem voidResult (hn : 0 < n) {s : RangeState n Unit Exc}
    (h : Reachable (voidBody n Exc) {} s) (hresumed : s.core.resumed = 1) :
    VoidResult s := by
  have hd : Describes (fun _ : Fin n => @voidRunner Exc) fun _ _ => false := describes_void
  have hexc := firstException_of_resumed hn hd h hresumed
  have hflag := hasError_eq hn hd h
  constructor
  · exact recorded_of_resumed hn hd h hresumed
  · intro i e hhead
    simp [whenAllVoid, hexc, hhead]
  · intro hnone i ec hhead
    have hec := firstError_of_resumed hn hd h hresumed hhead
    simp [whenAllVoid, hexc, hnone, hflag, hhead, hec]
  · intro hnone herr
    simp [whenAllVoid, hexc, hnone, hflag, herr]

theorem buildWhenAllResults_of_success {r : ∀ i, Results (P i)}
    (h : ∀ i, (r i).ec.isError = false) :
    buildWhenAllResults r = ({}, fun i => (r i).payload) := by
  have hfind : (List.ofFn fun i => (r i).ec).find? ErrorCode.isError = none := by
    rw [List.find?_eq_none]
    intro ec hec
    obtain ⟨i, rfl⟩ := List.mem_ofFn.mp hec
    simp [h i]
  simp [buildWhenAllResults, hfind]

theorem variadicResult (hn : 0 < n) {s : VariadicState P Exc}
    (h : Reachable (variadicBody P Exc) {} s) (hresumed : s.core.resumed = 1) :
    VariadicResult s := by
  have hd : Describes (fun i : Fin n => @resultsRunner Exc (P i)) fun _ _ => true :=
    describes_results
  have hexc := firstException_of_resumed hn hd h hresumed
  have hflag := hasError_eq hn hd h
  constructor
  · exact recorded_of_resumed hn hd h hresumed
  · intro i e hhead
    simp [whenAllVariadic, hexc, hhead]
  · intro hnone
    choose r throws ho hthrows using outcome_of_resumed hn hd h hresumed hnone
    have hmoves : ∀ i, throws i = none := fun i => hthrows i rfl
    have hresults : ∀ i, s.shared.results i = some (r i) := by
      intro i
      rw [results_of_resumed hn hd h hresumed, ho i, hmoves i]
      rfl
    refine ⟨r, fun i => by rw [ho i, hmoves i], ?_⟩
    cases hhead : s.shared.errors.head? with
    | none =>
        have hec : ∀ i, (r i).ec.isError = false := fun i =>
          success_of_resumed hn hd h hresumed (List.head?_eq_none_iff.mp hhead) (ho i)
            (hthrows i)
        simp [whenAllVariadic, hexc, hnone, hflag, hhead, engaged_eq hresults,
          buildWhenAllResults_of_success hec]
    | some p =>
        have hec := firstError_of_resumed hn hd h hresumed hhead
        simp [whenAllVariadic, hexc, hnone, hflag, hhead, engaged_eq hresults, hec,
          buildWhenAllResults]

/-- The join of `when_all`, in its three overloads. -/
theorem when_all_join (hn : 0 < n) (P : Fin n → Type) (T Exc : Type) :
    (∀ s, Reachable (rangeBody n T Exc) {} s → JoinsOnce (rangeBody n T Exc) s ∧
      StopsOnFailure (fun _ => movedInRange) s ∧ (s.core.resumed = 1 → RangeResult s)) ∧
    (∀ s, Reachable (voidBody n Exc) {} s → JoinsOnce (voidBody n Exc) s ∧
      StopsOnFailure (fun _ _ => false) s ∧ (s.core.resumed = 1 → VoidResult s)) ∧
    (∀ s, Reachable (variadicBody P Exc) {} s → JoinsOnce (variadicBody P Exc) s ∧
      StopsOnFailure (fun _ _ => true) s ∧ (s.core.resumed = 1 → VariadicResult s)) := by
  refine ⟨fun s h => ?_, fun s h => ?_, fun s h => ?_⟩
  · exact ⟨joinsOnce_reachable hn h, stopsOnFailure hn describes_range h, rangeResult hn h⟩
  · exact ⟨joinsOnce_reachable hn h, stopsOnFailure hn describes_void h, voidResult hn h⟩
  · exact ⟨joinsOnce_reachable hn h, stopsOnFailure hn describes_results h,
      variadicResult hn h⟩

/-- Of two children the second succeeds and then the first fails. -/
def failingRun : List (Event fun _ : Fin 2 => Completion Nat String) :=
  [.post, .post, .start 0, .start 1,
    .complete 1 (.returned ⟨{}, 7⟩ none), .run 1, .run 1, .run 1,
    .complete 0 (.returned ⟨{ value := 5 }, 0⟩ none), .run 0, .run 0, .run 0, .run 0,
    .run 0, .run 0]

theorem when_all_join_failingRun :
    ∃ s, runEvents (rangeBody 2 Nat String) (initial {}) failingRun = some s ∧
      s.core.resumed = 1 ∧ s.core.stop = true ∧
      whenAllRange s.shared = some (.ok ({ value := 5 }, [])) ∧ RangeResult s :=
  ⟨_, rfl, rfl, rfl, rfl,
    ((when_all_join (by decide) (fun _ => Nat) Nat String).1 _
      (Reachable.initial.runEvents failingRun rfl)).2.2 rfl⟩

end Capy.WhenAll
