import Capy.WhenAnyRace

namespace Capy.WhenAny

open Function Capy.Join

variable {n : Nat} {P : Fin n → Type} {R T Exc : Type}

/-- Stop is requested on the operation's source by the parent's stop request, by
a branch that is lost and by the child that claims the win. -/
structure StopsOnWin (s : RaceState P R Exc) : Prop where
  cause : s.core.stop = true → s.core.parentStop = true ∨
    ∃ i, (s.branch i).lost = true ∨ s.shared.wins.head? = some i
  parent : s.core.parentStop = true → s.core.stop = true
  lost : ∀ i, (s.branch i).pc = .done → (s.branch i).lost = true → s.core.stop = true
  won : ∀ i, s.shared.wins.head? = some i →
    (s.branch i).pending.elim false Work.beforeStop = false → s.core.stop = true

/-- What the parent gets of the winner: what `win` makes of its payload, or the
exception of moving it. -/
def prize {A : Type} (win : ∀ i, P i → A) (i : Fin n) (r : Results (P i)) :
    Option Exc → Except Exc (ErrorCode ⊕ A)
  | none => .ok (.inr (win i r.payload))
  | some e => .error e

/-- The result of a resumed `when_any`. The children that succeed are the ones
that tried to win; the first of them is reported. When there is none, a child has
failed with what is reported. -/
structure RaceResult {A : Type} (s : RaceState P R Exc)
    (prize : ∀ i, Results (P i) → Option Exc → Except Exc (ErrorCode ⊕ A))
    (result : Except Exc (ErrorCode ⊕ A)) : Prop where
  claims : ∀ i, i ∈ s.shared.wins ↔ Succeeds (s.branch i).outcome
  won : ∀ i, s.shared.wins.head? = some i → ∃ r throws,
    (s.branch i).outcome = some (.returned r throws) ∧ r.ec.isError = false ∧
      result = prize i r throws
  failed : s.shared.wins = [] →
    (∃ i r throws, (s.branch i).outcome = some (.returned r throws) ∧
      r.ec.isError = true ∧ result = .ok (.inl r.ec)) ∨
    ∃ i e, (s.branch i).outcome = some (.threw e) ∧ result = .error e

section Resumed

variable {keep : Option (∀ i, P i → R)} {s : RaceState P R Exc} (hn : 0 < n)
  (h : Reachable (body keep) {} s)

include hn h

theorem stopsOnWin : StopsOnWin s := by
  have hshares := shares_reachable hn h
  have hrace := race_reachable hn h
  constructor
  · intro hstop
    refine (hshares.stop.mp hstop).imp_right ?_
    rintro ⟨i, hi⟩
    refine ⟨i, ?_⟩
    by_cases hlost : (s.branch i).lost = true
    · exact .inl hlost
    · exact .inr (((hrace.runners i).requested (by simpa using hlost)).mp hi).1
  · exact fun hparent => hshares.stop.mpr (.inl hparent)
  · intro i hdone hlost
    have hok := hshares.branches i
    simp only [BranchOk, hdone] at hok
    exact hshares.stop_of (hok.2 hlost)
  · intro i hhead hstopped
    obtain ⟨⟨r, throws, ho, -⟩, -⟩ :=
      (hrace.runners i).claims.mp (List.mem_of_mem_head? hhead)
    have hfound : (s.branch i).lost = false := by
      by_contra hlost
      have hnone := hshares.outcome_of_lost (i := i) (by simpa using hlost)
      simp [ho] at hnone
    exact hshares.stop_of (((hrace.runners i).requested hfound).mpr ⟨hhead, hstopped⟩)

variable (hresumed : s.core.resumed = 1)

include hresumed

theorem claims_of_resumed (i : Fin n) :
    i ∈ s.shared.wins ↔ Succeeds (s.branch i).outcome := by
  rw [((race_reachable hn h).runners i).claims,
    (shares_reachable hn h).pending_of_resumed hresumed]
  simp

theorem winner_of_resumed {i : Fin n} (hhead : s.shared.wins.head? = some i) :
    s.shared.hasWinner = true ∧ s.shared.winnerIndex = i ∧ ∃ r throws,
      (s.branch i).outcome = some (.returned r throws) ∧ r.ec.isError = false ∧
      Produced keep s.shared i r throws := by
  have hrace := race_reachable hn h
  have hpending := (shares_reachable hn h).pending_of_resumed hresumed i
  have hmem := List.mem_of_mem_head? hhead
  obtain ⟨hindex, r, throws, ho, hproduced⟩ := (hrace.runners i).winner hhead hpending
  obtain ⟨r', throws', ho', hec⟩ := (claims_of_resumed hn h hresumed i).mp hmem
  obtain ⟨rfl, rfl⟩ : r = r' ∧ throws = throws' := by simpa [ho] using ho'
  exact ⟨hrace.flag.mpr (List.ne_nil_of_mem hmem), hindex, r, throws, ho, hec, hproduced⟩

/-- Without a winner some child has failed, and the last failure recorded is
reported. -/
theorem failure_of_resumed {A : Type} (hnone : s.shared.wins = []) :
    s.shared.hasWinner = false ∧ s.shared.result = none ∧
      s.shared.winnerException = none ∧
    ((∃ i r throws, (s.branch i).outcome = some (.returned r throws) ∧
      r.ec.isError = true ∧ failure (A := A) s.shared = .ok (.inl r.ec)) ∨
    ∃ i e, (s.branch i).outcome = some (.threw e) ∧
      failure (A := A) s.shared = .error e) := by
  have hrace := race_reachable hn h
  obtain ⟨hresult, hexception⟩ := hrace.unclaimed hnone
  have hflag : s.shared.hasWinner = false := by
    by_contra hflag
    exact hrace.flag.mp (by simpa using hflag) hnone
  refine ⟨hflag, hresult, hexception, ?_⟩
  have hlast := hrace.last
  unfold LastFailure at hlast
  split at hlast
  · rename_i hlog
    -- runner 0 has recorded its failure, so the log is not empty
    obtain ⟨o, ho⟩ := (shares_reachable hn h).outcome_of_resumed hresumed ⟨0, hn⟩
    have hfailed : failureOf o = none := by
      by_contra hf
      obtain ⟨f, hf⟩ := Option.ne_none_iff_exists'.mp hf
      have hmem := ((hrace.runners ⟨0, hn⟩).failures f).mpr
        ⟨(shares_reachable hn h).pending_of_resumed hresumed _, by rw [ho]; exact hf⟩
      simp [List.getLast?_eq_none_iff.mp hlog] at hmem
    have hmem : (⟨0, hn⟩ : Fin n) ∈ s.shared.wins := by
      rw [claims_of_resumed hn h hresumed, ho]
      cases o with
      | threw e => simp [failureOf] at hfailed
      | returned r throws => exact ⟨r, throws, rfl, by simpa [failureOf] using hfailed⟩
    simp [hnone] at hmem
  · rename_i i ec hlog
    obtain ⟨-, hf⟩ := ((hrace.runners i).failures _).mp (List.mem_of_getLast? hlog)
    obtain ⟨o, ho, hof⟩ := Option.bind_eq_some_iff.mp hf
    cases o with
    | threw e => simp [failureOf] at hof
    | returned r throws =>
        simp only [failureOf, Option.ite_none_right_eq_some, Option.some.injEq,
          Sum.inl.injEq] at hof
        refine .inl ⟨i, r, throws, ho, hof.1, ?_⟩
        simp [failure, hlast, hof.2]
  · rename_i i e hlog
    obtain ⟨-, hf⟩ := ((hrace.runners i).failures _).mp (List.mem_of_getLast? hlog)
    obtain ⟨o, ho, hof⟩ := Option.bind_eq_some_iff.mp hf
    cases o with
    | returned r throws => simp [failureOf] at hof
    | threw e' =>
        obtain rfl : e' = e := by simpa [failureOf] using hof
        exact .inr ⟨i, e', ho, by simp [failure, hlast]⟩

end Resumed

theorem variadicResult (hn : 0 < n) {s : RaceState P (Σ i, P i) Exc}
    (h : Reachable (body keepVariadic) {} s) (hresumed : s.core.resumed = 1) :
    RaceResult s (prize Sigma.mk) (whenAnyVariadic s.shared) := by
  constructor
  · exact claims_of_resumed hn h hresumed
  · intro i hhead
    obtain ⟨-, -, r, throws, ho, hec, hproduced⟩ := winner_of_resumed hn h hresumed hhead
    refine ⟨r, throws, ho, hec, ?_⟩
    cases throws with
    | none => simp [whenAnyVariadic, prize, hproduced.1]
    | some e => simp [whenAnyVariadic, prize, hproduced.1, hproduced.2]
  · intro hnone
    obtain ⟨-, hresult, hexception, hfailed⟩ := failure_of_resumed hn h hresumed hnone
    simpa [whenAnyVariadic, hresult, hexception] using hfailed

theorem rangeResult (hn : 0 < n) {s : RaceState (fun _ : Fin n => T) T Exc}
    (h : Reachable (body keepRange) {} s) (hresumed : s.core.resumed = 1) :
    ∃ result, whenAnyRange s.shared = some result ∧
      RaceResult s (prize fun i v => (i.val, v)) result := by
  cases hhead : s.shared.wins.head? with
  | none =>
      have hnone := List.head?_eq_none_iff.mp hhead
      obtain ⟨hflag, -, -, hfailed⟩ := failure_of_resumed hn h hresumed hnone
      refine ⟨failure s.shared, by simp [whenAnyRange, hflag], ?_⟩
      exact ⟨claims_of_resumed hn h hresumed, by simp [hhead], fun _ => hfailed⟩
  | some i =>
      obtain ⟨hflag, hindex, r, throws, ho, hec, hproduced⟩ :=
        winner_of_resumed hn h hresumed hhead
      refine ⟨prize (fun i v => (i.val, v)) i r throws, ?_, ?_⟩
      · cases throws with
        | none => simp [whenAnyRange, prize, hflag, hindex, hproduced.1, hproduced.2]
        | some e => simp [whenAnyRange, prize, hflag, hproduced.2]
      · refine ⟨claims_of_resumed hn h hresumed, fun j hj => ?_, fun hnil => ?_⟩
        · obtain rfl := Option.some.inj (hhead.symm.trans hj)
          exact ⟨r, throws, ho, hec, rfl⟩
        · simp [hnil] at hhead

theorem voidResult (hn : 0 < n) {s : RaceState (fun _ : Fin n => Unit) Unit Exc}
    (h : Reachable (body keepVoid) {} s) (hresumed : s.core.resumed = 1) :
    RaceResult s (fun i _ _ => .ok (.inr i.val)) (whenAnyVoid s.shared) := by
  constructor
  · exact claims_of_resumed hn h hresumed
  · intro i hhead
    obtain ⟨hflag, hindex, r, throws, ho, hec, hproduced⟩ :=
      winner_of_resumed hn h hresumed hhead
    exact ⟨r, throws, ho, hec, by simp [whenAnyVoid, hflag, hindex, hproduced.2]⟩
  · intro hnone
    obtain ⟨hflag, -, -, hfailed⟩ := failure_of_resumed hn h hresumed hnone
    simpa [whenAnyVoid, hflag] using hfailed

/-- The race of `when_any`, in its three overloads. -/
theorem when_any_race (hn : 0 < n) (P : Fin n → Type) (T Exc : Type) :
    (∀ s : RaceState P (Σ i, P i) Exc, Reachable (body keepVariadic) {} s →
      JoinsOnce (body keepVariadic) s ∧ StopsOnWin s ∧
      (s.core.resumed = 1 → RaceResult s (prize Sigma.mk) (whenAnyVariadic s.shared))) ∧
    (∀ s : RaceState (fun _ : Fin n => T) T Exc, Reachable (body keepRange) {} s →
      JoinsOnce (body keepRange) s ∧ StopsOnWin s ∧
      (s.core.resumed = 1 → ∃ result, whenAnyRange s.shared = some result ∧
        RaceResult s (prize fun i v => (i.val, v)) result)) ∧
    (∀ s : RaceState (fun _ : Fin n => Unit) Unit Exc, Reachable (body keepVoid) {} s →
      JoinsOnce (body keepVoid) s ∧ StopsOnWin s ∧
      (s.core.resumed = 1 →
        RaceResult s (fun i _ _ => .ok (.inr i.val)) (whenAnyVoid s.shared))) := by
  refine ⟨fun s h => ?_, fun s h => ?_, fun s h => ?_⟩
  · exact ⟨joinsOnce_reachable hn h, stopsOnWin hn h, variadicResult hn h⟩
  · exact ⟨joinsOnce_reachable hn h, stopsOnWin hn h, rangeResult hn h⟩
  · exact ⟨joinsOnce_reachable hn h, stopsOnWin hn h, voidResult hn h⟩

/-- Of three children the first fails, the last wins and the second succeeds
after it. -/
def winningRun : List (Event fun _ : Fin 3 => Completion Nat String) :=
  [.post, .post, .post, .start 0, .start 1, .start 2,
    .complete 0 (.returned ⟨{ value := 5 }, 0⟩ none), .run 0, .run 0, .run 0,
    .complete 1 (.returned ⟨{}, 7⟩ none), .complete 2 (.returned ⟨{}, 8⟩ none),
    .run 2, .run 1, .run 2, .run 2, .run 2, .run 1, .run 1, .run 2, .run 2, .run 2]

theorem when_any_race_winningRun :
    ∃ s, runEvents (body (P := fun _ : Fin 3 => Nat) keepRange) (initial {}) winningRun =
        some s ∧
      s.core.resumed = 1 ∧ s.core.stop = true ∧ s.shared.wins = [2, 1] ∧
      whenAnyRange s.shared = some (.ok (.inr (2, 8))) ∧
      ∃ result, whenAnyRange s.shared = some result ∧
        RaceResult s (prize fun i v => (i.val, v)) result :=
  ⟨_, rfl, rfl, rfl, rfl, rfl,
    ((when_any_race (by decide) (fun _ => Nat) Nat String).2.1 _
      (Reachable.initial.runEvents winningRun rfl)).2.2 rfl⟩

end Capy.WhenAny
