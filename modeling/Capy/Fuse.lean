import Mathlib.Data.List.Chain
import Capy.Buffers
import Capy.Join

namespace Capy.Fuse

open Buffers
open Join (ErrorCode)

/-- `fuse::state`. A source location and an exception pointer are numbers. -/
structure State where
  n : Nat := sizeMax
  i : Nat := 0
  triggered : Bool := false
  throws : Bool := false
  stopped : Bool := false
  inert : Bool := true
  ec : ErrorCode
  loc : Nat := 0
  ep : Option Nat := none

/-- `fuse::fuse(ec)`. -/
def fuse (ec : ErrorCode) : State := { ec := ec }

/-- `fuse::operator bool`. -/
def operatorBool (s : State) : Bool × State :=
  if s.n = sizeMax then (true, { s with n := 0 })
  else if s.triggered then
    (true, { s with n := (s.n + 1) % sizeValues, i := 0, triggered := false })
  else (false, s)

/-- What a call of `maybe_fail` does: it returns no error, returns the error code
or throws it. -/
inductive Reply where
  | none
  | code (ec : ErrorCode)
  | thrown (ec : ErrorCode)

def maybeFail (s : State) (loc : Nat) : Reply × State :=
  if s.inert then (.none, s)
  else
    let s := if s.i < s.n then { s with i := s.i + 1 } else s
    if s.i = s.n then
      let s := { s with triggered := true, loc := loc }
      if s.throws then (.thrown s.ec, s) else (.code s.ec, s)
    else (.none, s)

/-- How a call of the test function ends. -/
inductive Exit where
  | returned
  | systemError (code : ErrorCode)
  | exception

/-- One iteration: how it ends, the positions of the calls of `maybe_fail` that
injected a failure, and the state it leaves. -/
structure Iteration where
  exit : Exit
  injected : List Nat
  state : State

/-- Whether the loop of a phase gives up after an iteration. In the exception phase
a `std::system_error` with the code of the fuse is not a failure. -/
def failed (exceptions : Bool) (s : State) : Exit → Bool
  | .returned => s.stopped
  | .systemError code => !exceptions || code ≠ s.ec || s.stopped
  | .exception => true

/-- The loop of one phase: whether it completed, the failures injected in each of
its rounds, and the state after it; `none` when the steps run out. -/
def phase (exceptions : Bool) (fn : State → Iteration) :
    Nat → State → Option (Bool × List (List Nat) × State)
  | 0, _ => none
  | steps + 1, s =>
      if (operatorBool s).1 then
        let it := fn (operatorBool s).2
        if failed exceptions it.state it.exit then some (false, [it.injected], it.state)
        else (phase exceptions fn steps it.state).map fun r => (r.1, it.injected :: r.2.1, r.2.2)
      else some (true, [], (operatorBool s).2)

/-- The `result` of `armed`, the rounds of its phases and the state it leaves. -/
structure Armed where
  loc : Nat := 0
  ep : Option Nat := none
  success : Bool := true
  codeRounds : List (List Nat)
  exceptionRounds : List (List Nat)
  state : State

def armed (steps : Nat) (fn : State → Iteration) (s : State) : Option Armed :=
  -- Phase 1: error code mode
  (phase false fn steps { s with throws := false, inert := false, n := sizeMax }).bind fun p1 =>
    if p1.1 then
      -- Phase 2: exception mode
      (phase true fn steps
          { p1.2.2 with throws := true, n := sizeMax, i := 0, triggered := false }).map fun p2 =>
        if p2.1 then
          { codeRounds := p1.2.1, exceptionRounds := p2.2.1,
            state := { p2.2.2 with inert := true } }
        else
          { loc := p2.2.2.loc, ep := p2.2.2.ep, success := false, codeRounds := p1.2.1,
            exceptionRounds := p2.2.1, state := { p2.2.2 with inert := true } }
    else
      some
        { loc := p1.2.2.loc, ep := p1.2.2.ep, success := false, codeRounds := p1.2.1,
          exceptionRounds := [], state := { p1.2.2 with inert := true } }

/-- A test function that calls `maybe_fail` at each of `calls` and leaves at the
first failure, from its call number `k` on. -/
def testFrom : List Nat → Nat → State → Iteration
  | [], _, s => ⟨.returned, [], s⟩
  | loc :: calls, k, s =>
      match maybeFail s loc with
      | (.none, s) => testFrom calls (k + 1) s
      | (.code _, s) => ⟨.returned, [k], s⟩
      | (.thrown ec, s) => ⟨.systemError ec, [k], s⟩

/-- Runs of `armed` on the same fuse, one after the other. -/
def armedAll (steps : Nat) : State → List (List Nat) → Option (List Armed)
  | _, [] => some []
  | s, calls :: runs =>
      (armed steps (testFrom calls 0) s).bind fun a =>
        (armedAll steps a.state runs).map (a :: ·)

/-- Each round but the last injects exactly one failure, and the last injects none. -/
def Ends (rounds : List (List Nat)) : Prop :=
  ∃ init, rounds = init ++ [[]] ∧ ∀ r ∈ init, r.length = 1

/-- Every one of `m` call positions gets an injected failure in some round. -/
def Covers (m : Nat) (rounds : List (List Nat)) : Prop :=
  (∀ k < m, ∃ r ∈ rounds, k ∈ r) ∧ Ends rounds

/-- A run reports success and covers its call positions in both phases. -/
def Good (calls : List Nat) (a : Armed) : Prop :=
  a.success = true ∧ Covers calls.length a.codeRounds ∧ Covers calls.length a.exceptionRounds

/-- Every run terminates and is good. -/
def InjectsAll (ec : ErrorCode) (runs : List (List Nat)) : Prop :=
  ∃ steps outs, armedAll steps (fuse ec) runs = some outs ∧ List.Forall₂ Good runs outs

section Call

variable {s : State} (loc : Nat)

theorem maybeFail_past (hinert : s.inert = false) (hpast : s.n < s.i) :
    maybeFail s loc = (.none, s) := by
  have hless : ¬ s.i < s.n := by omega
  have hne : ¬ s.i = s.n := by omega
  simp [maybeFail, hinert, hless, hne]

theorem maybeFail_count (hinert : s.inert = false) (hless : s.i + 1 < s.n) :
    maybeFail s loc = (.none, { s with i := s.i + 1 }) := by
  have hlt : s.i < s.n := by omega
  have hne : ¬ s.i + 1 = s.n := by omega
  simp [maybeFail, hinert, hlt, hne]

theorem maybeFail_hit (hinert : s.inert = false) (hle : s.i ≤ s.n) (hhit : s.n ≤ s.i + 1) :
    maybeFail s loc = (if s.throws then .thrown s.ec else .code s.ec,
      { s with i := s.n, triggered := true, loc := loc }) := by
  rcases Nat.lt_or_ge s.i s.n with hlt | hge
  · have hlast : s.i + 1 = s.n := by omega
    simp only [maybeFail, hinert, hlt, hlast, if_true, Bool.false_eq_true, if_false]
    split_ifs <;> rfl
  · have hsame : s.i = s.n := by omega
    simp only [maybeFail, hinert, hsame, Nat.lt_irrefl, if_true, Bool.false_eq_true, if_false]
    split_ifs <;> rfl

end Call

section Round

variable (calls : List Nat) (k : Nat)

theorem testFrom_past {s : State} (hinert : s.inert = false) (hpast : s.n < s.i) :
    testFrom calls k s = ⟨.returned, [], s⟩ := by
  induction calls generalizing k with
  | nil => rfl
  | cons loc calls ih =>
      rw [testFrom, maybeFail_past loc hinert hpast]
      exact ih (k + 1)

theorem testFrom_short {s : State} (hinert : s.inert = false) (hle : s.i ≤ s.n)
    (hshort : calls.length < max 1 (s.n - s.i)) :
    testFrom calls k s = ⟨.returned, [], { s with i := s.i + calls.length }⟩ := by
  induction calls generalizing k s with
  | nil => rfl
  | cons loc calls ih =>
      rw [List.length_cons] at hshort
      rw [testFrom, maybeFail_count loc hinert (by omega)]
      simp only
      have hrest := ih (k + 1) (s := { s with i := s.i + 1 }) hinert (by simp only; omega)
        (by simp only; omega)
      rw [hrest, List.length_cons, Nat.add_assoc, Nat.add_comm 1]

theorem testFrom_hit {s : State} (hinert : s.inert = false) (hle : s.i ≤ s.n)
    (hhit : max 1 (s.n - s.i) ≤ calls.length) :
    ∃ loc, testFrom calls k s =
      ⟨if s.throws then .systemError s.ec else .returned, [k + (s.n - s.i - 1)],
        { s with i := s.n, triggered := true, loc := loc }⟩ := by
  induction calls generalizing k s with
  | nil =>
      simp only [List.length_nil] at hhit
      omega
  | cons loc calls ih =>
      rw [List.length_cons] at hhit
      rcases Nat.lt_or_ge (s.i + 1) s.n with hless | hge
      · obtain ⟨loc', hrest⟩ := ih (k + 1) (s := { s with i := s.i + 1 }) hinert
          (by simp only; omega) (by simp only; omega)
        refine ⟨loc', ?_⟩
        rw [testFrom, maybeFail_count loc hinert hless]
        simp only
        rw [hrest]
        simp only [Iteration.mk.injEq, List.cons.injEq, and_true, true_and]
        omega
      · refine ⟨loc, ?_⟩
        have hzero : s.n - s.i - 1 = 0 := by omega
        rw [testFrom, maybeFail_hit loc hinert hle hge, hzero]
        cases s.throws <;> rfl

end Round

/-- The state in a phase of a test that does not call `fail`. -/
structure Running (exceptions : Bool) (ec : ErrorCode) (s : State) : Prop where
  inert : s.inert = false
  stopped : s.stopped = false
  throws : s.throws = exceptions
  ec_eq : s.ec = ec

theorem Running.operatorBool {exceptions : Bool} {ec : ErrorCode} {s : State}
    (h : Running exceptions ec s) : Running exceptions ec (operatorBool s).2 := by
  unfold Fuse.operatorBool
  split_ifs <;> exact ⟨h.inert, h.stopped, h.throws, h.ec_eq⟩

theorem Running.update {exceptions : Bool} {ec : ErrorCode} {s : State}
    (h : Running exceptions ec s) (i : Nat) (triggered : Bool) (loc : Nat) :
    Running exceptions ec { s with i := i, triggered := triggered, loc := loc } :=
  ⟨h.inert, h.stopped, h.throws, h.ec_eq⟩

section Phase

variable {exceptions : Bool} {ec : ErrorCode} {s s₁ : State} (calls : List Nat) (steps : Nat)

/-- The round of an iteration, put before the rounds of the rest of a phase. -/
def addRound (injected : List Nat) (r : Bool × List (List Nat) × State) :
    Bool × List (List Nat) × State :=
  (r.1, injected :: r.2.1, r.2.2)

theorem phase_done (hn : s.n ≠ sizeMax) (htriggered : s.triggered = false)
    (fn : State → Iteration) : phase exceptions fn (steps + 1) s = some (true, [], s) := by
  simp [phase, operatorBool, hn, htriggered]

theorem phase_past (h : Running exceptions ec s) (hgo : operatorBool s = (true, s₁))
    (hpast : s₁.n < s₁.i) :
    phase exceptions (testFrom calls 0) (steps + 1) s =
      (phase exceptions (testFrom calls 0) steps s₁).map (addRound []) := by
  have h₁ : Running exceptions ec s₁ := by simpa only [hgo] using h.operatorBool
  simp only [phase, hgo, if_true, testFrom_past calls 0 h₁.inert hpast, failed, h₁.stopped,
    Bool.false_eq_true, if_false]
  rfl

theorem phase_short (h : Running exceptions ec s) (hgo : operatorBool s = (true, s₁))
    (hle : s₁.i ≤ s₁.n) (hshort : calls.length < max 1 (s₁.n - s₁.i)) :
    phase exceptions (testFrom calls 0) (steps + 1) s =
      (phase exceptions (testFrom calls 0) steps
        { s₁ with i := s₁.i + calls.length }).map (addRound []) := by
  have h₁ : Running exceptions ec s₁ := by simpa only [hgo] using h.operatorBool
  simp only [phase, hgo, if_true, testFrom_short calls 0 h₁.inert hle hshort, failed, h₁.stopped,
    Bool.false_eq_true, if_false]
  rfl

theorem phase_hit (h : Running exceptions ec s) (hgo : operatorBool s = (true, s₁))
    (hle : s₁.i ≤ s₁.n) (hhit : max 1 (s₁.n - s₁.i) ≤ calls.length) :
    ∃ loc, phase exceptions (testFrom calls 0) (steps + 1) s =
      (phase exceptions (testFrom calls 0) steps
        { s₁ with i := s₁.n, triggered := true, loc := loc }).map
          (addRound [s₁.n - s₁.i - 1]) := by
  have h₁ : Running exceptions ec s₁ := by simpa only [hgo] using h.operatorBool
  obtain ⟨loc, htest⟩ := testFrom_hit calls 0 h₁.inert hle hhit
  refine ⟨loc, ?_⟩
  -- the exception that leaves the test is the one the phase expects
  have hgoes : failed exceptions { s₁ with i := s₁.n, triggered := true, loc := loc }
      (if s₁.throws = true then .systemError s₁.ec else .returned) = false := by
    rw [h₁.throws]
    cases exceptions <;> simp [failed, h₁.stopped]
  simp only [phase, hgo, if_true, htest, hgoes, Bool.false_eq_true, if_false, Nat.zero_add]
  rfl

theorem operatorBool_first (hn : s.n = sizeMax) :
    operatorBool s = (true, { s with n := 0 }) := by
  simp [operatorBool, hn]

theorem operatorBool_next (hn : s.n < sizeMax) (htriggered : s.triggered = true) :
    operatorBool s = (true, { s with n := s.n + 1, i := 0, triggered := false }) := by
  have hmax : sizeMax < sizeValues := by decide
  have hmod : (s.n + 1) % sizeValues = s.n + 1 := Nat.mod_eq_of_lt (by omega)
  simp [operatorBool, Nat.ne_of_lt hn, htriggered, hmod]

end Phase

theorem phase_mono {exceptions : Bool} {fn : State → Iteration} {steps steps' : Nat} {s : State}
    {r : Bool × List (List Nat) × State} (h : phase exceptions fn steps s = some r)
    (hle : steps ≤ steps') : phase exceptions fn steps' s = some r := by
  induction steps generalizing s r steps' with
  | zero => simp [phase] at h
  | succ steps ih =>
      obtain ⟨more, rfl⟩ : ∃ more, steps' = more + 1 := ⟨steps' - 1, by omega⟩
      simp only [phase] at h ⊢
      split_ifs at h ⊢ with hgo hfail
      · exact h
      · obtain ⟨r', hrest, rfl⟩ := Option.map_eq_some_iff.mp h
        rw [ih hrest (by omega)]
        rfl
      · exact h

/-- The rounds that are left once the failure point `n` has been hit. -/
def roundsFrom (n m : Nat) : List (List Nat) := (List.range' n (m - n)).map (fun k => [k]) ++ [[]]

theorem phase_rest {exceptions : Bool} {ec : ErrorCode} (calls : List Nat)
    (hbound : calls.length + 1 < sizeMax) (left : Nat) (s : State) (h : Running exceptions ec s)
    (htriggered : s.triggered = true) (hleft : s.n + left = calls.length) :
    ∃ s', phase exceptions (testFrom calls 0) (left + 2) s =
        some (true, roundsFrom s.n calls.length, s') ∧
      Running exceptions ec s' ∧ s'.i = calls.length ∧ s'.triggered = false := by
  induction left generalizing s with
  | zero =>
      have hgo := operatorBool_next (s := s) (by omega) htriggered
      have hround := phase_short calls 1 h hgo (Nat.zero_le _) (by simp only; omega)
      have hrun : Running exceptions ec { s with n := s.n + 1, i := 0, triggered := false } := by
        simpa only [hgo] using h.operatorBool
      refine ⟨{ s with n := s.n + 1, i := 0 + calls.length, triggered := false }, ?_,
        hrun.update _ _ _, Nat.zero_add _, rfl⟩
      rw [hround, phase_done 0 (by simp only; omega) rfl]
      have hrounds : roundsFrom s.n calls.length = [[]] := by
        simp [roundsFrom, ← hleft]
      rw [hrounds]
      rfl
  | succ left ih =>
      have hgo := operatorBool_next (s := s) (by omega) htriggered
      have hrun : Running exceptions ec { s with n := s.n + 1, i := 0, triggered := false } := by
        simpa only [hgo] using h.operatorBool
      obtain ⟨loc, hround⟩ := phase_hit calls (left + 2) h hgo (Nat.zero_le _)
        (by simp only; omega)
      obtain ⟨s', hrest, hrun', hi, htriggered'⟩ := ih
        { s with n := s.n + 1, i := s.n + 1, triggered := true, loc := loc } (hrun.update _ _ _)
        rfl (by simp only; omega)
      refine ⟨s', ?_, hrun', hi, htriggered'⟩
      have hcount : calls.length - s.n = calls.length - (s.n + 1) + 1 := by omega
      have hrounds : roundsFrom s.n calls.length =
          [s.n] :: roundsFrom (s.n + 1) calls.length := by
        rw [roundsFrom, hcount, List.range'_succ]
        rfl
      rw [hround, hrest, hrounds]
      rfl

theorem ends_cons {x : List Nat} {rounds : List (List Nat)} :
    Ends (x :: rounds) ↔ (x = [] ∧ rounds = []) ∨ (x.length = 1 ∧ Ends rounds) := by
  constructor
  · rintro ⟨init, hrounds, hone⟩
    rcases init with _ | ⟨y, init⟩
    · simp only [List.nil_append, List.cons.injEq] at hrounds
      exact .inl hrounds
    · simp only [List.cons_append, List.cons.injEq] at hrounds
      obtain ⟨rfl, rfl⟩ := hrounds
      rw [List.forall_mem_cons] at hone
      exact .inr ⟨hone.1, init, rfl, hone.2⟩
  · rintro (⟨rfl, rfl⟩ | ⟨hx, init, rfl, hone⟩)
    · exact ⟨[], rfl, by simp⟩
    · exact ⟨x :: init, rfl, List.forall_mem_cons.mpr ⟨hx, hone⟩⟩

theorem ends_roundsFrom (n m : Nat) : Ends (roundsFrom n m) := by
  refine ⟨_, rfl, ?_⟩
  intro r hr
  obtain ⟨k, -, rfl⟩ := List.mem_map.mp hr
  rfl

/-- A phase that starts with its counter at zero covers every call. -/
theorem phase_covers {exceptions : Bool} {ec : ErrorCode} (calls : List Nat)
    (hbound : calls.length + 1 < sizeMax) (s : State) (h : Running exceptions ec s)
    (hn : s.n = sizeMax) (hi : s.i = 0) (htriggered : s.triggered = false) :
    ∃ rounds s', phase exceptions (testFrom calls 0) (calls.length + 3) s =
        some (true, rounds, s') ∧ Covers calls.length rounds ∧
      Running exceptions ec s' ∧ s'.i = calls.length ∧ s'.triggered = false := by
  have hgo := operatorBool_first hn
  have hrun : Running exceptions ec { s with n := 0 } := by simpa only [hgo] using h.operatorBool
  rcases calls.eq_nil_or_concat with rfl | ⟨init, last, hcalls⟩
  · have hround := phase_short [] 2 h hgo (by simp [hi]) (by simp)
    refine ⟨[[]], { s with n := 0, i := s.i + 0 }, ?_, ⟨by simp, [], rfl, by simp⟩,
      hrun.update _ _ _, hi, htriggered⟩
    have hdone : phase exceptions (testFrom [] 0) (1 + 1) { s with n := 0, i := s.i + 0 } =
        some (true, [], { s with n := 0, i := s.i + 0 }) :=
      phase_done (s := { s with n := 0, i := s.i + 0 }) 1 (by simp only; decide) htriggered _
    exact hround.trans (congrArg (Option.map (addRound [])) hdone)
  · have hsome : calls ≠ [] := by simp [hcalls]
    have hpos : 0 < calls.length := List.length_pos_iff.mpr hsome
    obtain ⟨loc, hround⟩ := phase_hit calls (calls.length + 2) h hgo (by simp [hi])
      (by simp only [hi]; omega)
    obtain ⟨s', hrest, hrun', hi', htriggered'⟩ := phase_rest calls hbound calls.length
      { s with n := 0, i := 0, triggered := true, loc := loc } (hrun.update _ _ _) rfl
      (Nat.zero_add _)
    refine ⟨[0] :: roundsFrom 0 calls.length, s', ?_, ⟨?_, ?_⟩, hrun', hi', htriggered'⟩
    · rw [hround, hrest]
      simp only [hi]
      rfl
    · intro k hk
      refine ⟨[k], List.mem_cons_of_mem _ (List.mem_append_left _ (List.mem_map.mpr
        ⟨k, List.mem_range'_1.mpr ⟨Nat.zero_le _, by omega⟩, rfl⟩)), by simp⟩
    · exact ends_cons.mpr (.inr ⟨rfl, ends_roundsFrom 0 calls.length⟩)

/-- A phase that starts with its counter above zero is one round and injects
nothing. -/
theorem phase_stale {exceptions : Bool} {ec : ErrorCode} (calls : List Nat) (s : State)
    (h : Running exceptions ec s) (hn : s.n = sizeMax) (hi : s.i ≠ 0)
    (htriggered : s.triggered = false) (steps : Nat) :
    phase exceptions (testFrom calls 0) (steps + 2) s = some (true, [[]], { s with n := 0 }) := by
  have hround := phase_past calls (steps + 1) h (operatorBool_first hn) (by simp only; omega)
  have hdone : phase exceptions (testFrom calls 0) (steps + 1) { s with n := 0 } =
      some (true, [], { s with n := 0 }) :=
    phase_done (s := { s with n := 0 }) steps (by simp only; decide) htriggered _
  exact hround.trans (congrArg (Option.map (addRound [])) hdone)

theorem exists_of_map_addRound {r : Bool × List (List Nat) × State} {injected : List Nat}
    {o : Option (Bool × List (List Nat) × State)} (h : o.map (addRound injected) = some r) :
    ∃ r', o = some r' ∧ r.2.1 = injected :: r'.2.1 := by
  obtain ⟨r', hr', rfl⟩ := Option.map_eq_some_iff.mp h
  exact ⟨r', hr', rfl⟩

theorem rounds_ne_nil {exceptions : Bool} {fn : State → Iteration} {steps : Nat} {s : State}
    {r : Bool × List (List Nat) × State} (h : phase exceptions fn steps s = some r)
    (hgo : (operatorBool s).1 = true) : r.2.1 ≠ [] := by
  cases steps with
  | zero => simp [phase] at h
  | succ steps =>
      simp only [phase, hgo, if_true] at h
      split_ifs at h
      · obtain rfl := Option.some.inj h
        simp
      · obtain ⟨r', -, rfl⟩ := Option.map_eq_some_iff.mp h
        simp

theorem exists_succ_of_phase {exceptions : Bool} {fn : State → Iteration} {steps : Nat}
    {s : State} {r : Bool × List (List Nat) × State}
    (h : phase exceptions fn steps s = some r) : ∃ k, steps = k + 1 := by
  cases steps with
  | zero => simp [phase] at h
  | succ k => exact ⟨k, rfl⟩

theorem not_ends_nil_cons {rounds : List (List Nat)} (h : rounds ≠ []) : ¬ Ends ([] :: rounds) := by
  rw [ends_cons]
  rintro (⟨-, hnil⟩ | ⟨hone, -⟩)
  · exact h hnil
  · simp at hone

theorem not_ends_cons {k : Nat} {rounds : List (List Nat)} (h : ¬ Ends rounds) :
    ¬ Ends ([k] :: rounds) := by
  rw [ends_cons]
  rintro (⟨hnil, -⟩ | ⟨-, hends⟩)
  · simp at hnil
  · exact h hends

section Overflow

variable {exceptions : Bool} {ec : ErrorCode} {calls : List Nat}

/-- The failure point `SIZE_MAX` is taken for the start of a phase, with the counter
above zero: the round after it injects nothing and is not the last. -/
theorem not_ends_at_sizeMax (hlong : sizeMax ≤ calls.length + 1) {steps : Nat} {s : State}
    (h : Running exceptions ec s) (hn : s.n + 1 = sizeMax) (htriggered : s.triggered = true)
    {r : Bool × List (List Nat) × State}
    (hrun : phase exceptions (testFrom calls 0) steps s = some r) : ¬ Ends r.2.1 := by
  have hmax : 1 < sizeMax := by decide
  have hgo := operatorBool_next (s := s) (by omega) htriggered
  have hrunning : Running exceptions ec { s with n := s.n + 1, i := 0, triggered := false } := by
    simpa only [hgo] using h.operatorBool
  obtain ⟨steps, rfl⟩ := exists_succ_of_phase hrun
  rcases Nat.lt_or_ge calls.length sizeMax with hshort | hall
  · rw [phase_short calls steps h hgo (Nat.zero_le _) (by simp only; omega)] at hrun
    obtain ⟨r', hrest, hrounds⟩ := exists_of_map_addRound hrun
    rw [hrounds]
    refine not_ends_nil_cons (rounds_ne_nil hrest ?_)
    rw [operatorBool_first]
    exact hn
  · obtain ⟨loc, hround⟩ := phase_hit calls steps h hgo (Nat.zero_le _) (by simp only; omega)
    rw [hround] at hrun
    obtain ⟨r', hrest, hrounds⟩ := exists_of_map_addRound hrun
    obtain ⟨steps, rfl⟩ := exists_succ_of_phase hrest
    rw [phase_past calls steps (hrunning.update _ _ _) (operatorBool_first hn)
      (by simp only; omega)] at hrest
    obtain ⟨r'', hlater, hrounds'⟩ := exists_of_map_addRound hrest
    rw [hrounds, hrounds']
    refine not_ends_cons (not_ends_nil_cons (rounds_ne_nil hlater ?_))
    rw [operatorBool_next (by simp only; omega) rfl]

theorem not_ends_of_long (hlong : sizeMax ≤ calls.length + 1) (left : Nat) {steps : Nat}
    {s : State} (h : Running exceptions ec s) (hleft : s.n + left + 1 = sizeMax)
    (htriggered : s.triggered = true) {r : Bool × List (List Nat) × State}
    (hrun : phase exceptions (testFrom calls 0) steps s = some r) : ¬ Ends r.2.1 := by
  induction left generalizing s steps r with
  | zero => exact not_ends_at_sizeMax hlong h hleft htriggered hrun
  | succ left ih =>
      have hgo := operatorBool_next (s := s) (by omega) htriggered
      have hrunning : Running exceptions ec { s with n := s.n + 1, i := 0, triggered := false } :=
        by simpa only [hgo] using h.operatorBool
      obtain ⟨steps, rfl⟩ := exists_succ_of_phase hrun
      obtain ⟨loc, hround⟩ := phase_hit calls steps h hgo (Nat.zero_le _) (by simp only; omega)
      rw [hround] at hrun
      obtain ⟨r', hrest, hrounds⟩ := exists_of_map_addRound hrun
      rw [hrounds]
      exact not_ends_cons (ih (hrunning.update _ _ _) (by simp only; omega) rfl hrest)

theorem of_phase_covers {steps : Nat} {s : State} (h : Running exceptions ec s)
    (hn : s.n = sizeMax) (htriggered : s.triggered = false)
    {r : Bool × List (List Nat) × State}
    (hrun : phase exceptions (testFrom calls 0) steps s = some r)
    (hcovers : Covers calls.length r.2.1) :
    calls.length + 1 < sizeMax ∧ (s.i = 0 ∨ calls = []) := by
  rcases eq_or_ne s.i 0 with hi | hi
  · refine ⟨?_, .inl hi⟩
    by_contra hlong
    have hmax : 1 < sizeMax := by decide
    obtain ⟨steps, rfl⟩ := exists_succ_of_phase hrun
    have hgo := operatorBool_first hn
    have hrunning : Running exceptions ec { s with n := 0 } := by
      simpa only [hgo] using h.operatorBool
    obtain ⟨loc, hround⟩ := phase_hit calls steps h hgo (by simp [hi])
      (by simp only [hi]; omega)
    rw [hround] at hrun
    obtain ⟨r', hrest, hrounds⟩ := exists_of_map_addRound hrun
    have hnot : ¬ Ends r'.2.1 := not_ends_of_long (by omega) (sizeMax - 1)
      (hrunning.update _ _ _) (by simp only; omega) rfl hrest
    rw [hrounds] at hcovers
    exact not_ends_cons hnot hcovers.2
  · have hstale := phase_stale calls s h hn hi htriggered steps
    have hsame : r = (true, [[]], { s with n := 0 }) :=
      Option.some.inj ((phase_mono hrun (by omega)).symm.trans hstale)
    rw [hsame] at hcovers
    have hnone : calls = [] := by
      by_contra hsome
      obtain ⟨r', hr', hmem⟩ := hcovers.1 0 (List.length_pos_iff.mpr hsome)
      simp only [List.mem_singleton] at hr'
      simp [hr'] at hmem
    refine ⟨?_, .inr hnone⟩
    rw [hnone]
    decide

end Overflow

/-- The fuse between runs of `armed`. -/
structure Idle (ec : ErrorCode) (s : State) : Prop where
  stopped : s.stopped = false
  triggered : s.triggered = false
  ec_eq : s.ec = ec

theorem Idle.running {ec : ErrorCode} {s : State} (h : Idle ec s) :
    Running false ec { s with throws := false, inert := false, n := sizeMax } :=
  ⟨rfl, h.stopped, rfl, h.ec_eq⟩

theorem armed_mono {fn : State → Iteration} {steps steps' : Nat} {s : State} {a : Armed}
    (h : armed steps fn s = some a) (hle : steps ≤ steps') : armed steps' fn s = some a := by
  obtain ⟨p1, hp1, hrest⟩ := Option.bind_eq_some_iff.mp h
  rw [armed, phase_mono hp1 hle, Option.bind_some]
  split_ifs at hrest ⊢ with hok
  · obtain ⟨p2, hp2, rfl⟩ := Option.map_eq_some_iff.mp hrest
    rw [phase_mono hp2 hle]
    rfl
  · exact hrest

theorem armed_good {ec : ErrorCode} {calls : List Nat} {s : State} (h : Idle ec s)
    (hbound : calls.length + 1 < sizeMax) (hi : s.i = 0 ∨ calls = []) :
    ∃ a, armed (calls.length + 3) (testFrom calls 0) s = some a ∧ Good calls a ∧
      Idle ec a.state ∧ a.state.i = calls.length := by
  obtain ⟨rounds1, s1, hp1, hcovers1, hrun1⟩ : ∃ rounds s',
      phase false (testFrom calls 0) (calls.length + 3)
        { s with throws := false, inert := false, n := sizeMax } = some (true, rounds, s') ∧
      Covers calls.length rounds ∧ Running false ec s' := by
    rcases eq_or_ne s.i 0 with hzero | hstale
    · obtain ⟨rounds, s', hp, hcovers, hrun, -⟩ :=
        phase_covers calls hbound _ h.running rfl hzero h.triggered
      exact ⟨rounds, s', hp, hcovers, hrun⟩
    · obtain rfl := hi.resolve_left hstale
      exact ⟨_, _, phase_stale [] _ h.running rfl hstale h.triggered 1,
        ⟨by simp, [], rfl, by simp⟩, rfl, h.stopped, rfl, h.ec_eq⟩
  obtain ⟨rounds2, s2, hp2, hcovers2, hrun2, hi2, htriggered2⟩ :=
    phase_covers calls hbound
      { s1 with throws := true, n := sizeMax, i := 0, triggered := false }
      ⟨hrun1.inert, hrun1.stopped, rfl, hrun1.ec_eq⟩ rfl rfl rfl
  refine ⟨{ codeRounds := rounds1, exceptionRounds := rounds2, state := { s2 with inert := true } },
    ?_, ⟨rfl, hcovers1, hcovers2⟩, ⟨hrun2.stopped, htriggered2, hrun2.ec_eq⟩, hi2⟩
  rw [armed, hp1, Option.bind_some, if_pos rfl, hp2]
  rfl

theorem of_armed_good {ec : ErrorCode} {calls : List Nat} {s : State} {steps : Nat} {a : Armed}
    (h : Idle ec s) (hrun : armed steps (testFrom calls 0) s = some a) (hgood : Good calls a) :
    calls.length + 1 < sizeMax ∧ (s.i = 0 ∨ calls = []) := by
  obtain ⟨p1, hp1, hrest⟩ := Option.bind_eq_some_iff.mp hrun
  have hrounds : a.codeRounds = p1.2.1 := by
    split_ifs at hrest
    · obtain ⟨p2, -, rfl⟩ := Option.map_eq_some_iff.mp hrest
      split_ifs <;> rfl
    · obtain rfl := Option.some.inj hrest
      rfl
  exact of_phase_covers (s := { s with throws := false, inert := false, n := sizeMax })
    h.running rfl h.triggered hp1 (hrounds ▸ hgood.2.1)

/-- The runs are each short enough, and none that calls `maybe_fail` follows one
that does; `i` is the counter before them. -/
def Apart (i : Nat) : List (List Nat) → Prop
  | [] => True
  | calls :: runs =>
      calls.length + 1 < sizeMax ∧ (i = 0 ∨ calls = []) ∧ Apart calls.length runs

theorem armedAll_mono {steps steps' : Nat} {s : State} {runs : List (List Nat)}
    {outs : List Armed} (h : armedAll steps s runs = some outs) (hle : steps ≤ steps') :
    armedAll steps' s runs = some outs := by
  induction runs generalizing s outs with
  | nil => exact h
  | cons calls runs ih =>
      obtain ⟨a, ha, hrest⟩ := Option.bind_eq_some_iff.mp h
      obtain ⟨outs', houts, rfl⟩ := Option.map_eq_some_iff.mp hrest
      rw [armedAll, armed_mono ha hle, Option.bind_some, ih houts]
      rfl

theorem armedAll_good {ec : ErrorCode} {runs : List (List Nat)} {s : State} (h : Idle ec s)
    (hruns : Apart s.i runs) :
    ∃ steps outs, armedAll steps s runs = some outs ∧ List.Forall₂ Good runs outs := by
  induction runs generalizing s with
  | nil => exact ⟨0, [], rfl, .nil⟩
  | cons calls runs ih =>
      obtain ⟨hbound, hi, hrest⟩ := hruns
      obtain ⟨a, ha, hgood, hidle, hia⟩ := armed_good h hbound hi
      obtain ⟨steps, outs, houts, hall⟩ := ih hidle (hia ▸ hrest)
      refine ⟨max (calls.length + 3) steps, a :: outs, ?_, .cons hgood hall⟩
      rw [armedAll, armed_mono ha (Nat.le_max_left ..), Option.bind_some,
        armedAll_mono houts (Nat.le_max_right ..)]
      rfl

theorem apart_of_good {ec : ErrorCode} {runs : List (List Nat)} {s : State} {steps : Nat}
    {outs : List Armed} (h : Idle ec s) (hrun : armedAll steps s runs = some outs)
    (hall : List.Forall₂ Good runs outs) : Apart s.i runs := by
  induction runs generalizing s outs with
  | nil => trivial
  | cons calls runs ih =>
      obtain ⟨a, ha, hrest⟩ := Option.bind_eq_some_iff.mp hrun
      obtain ⟨outs', houts, rfl⟩ := Option.map_eq_some_iff.mp hrest
      obtain ⟨hgood, hall'⟩ := List.forall₂_cons.mp hall
      obtain ⟨hbound, hi⟩ := of_armed_good h ha hgood
      obtain ⟨a', ha', -, hidle, hia⟩ := armed_good h hbound hi
      obtain rfl : a = a' := by
        have h1 := armed_mono ha (Nat.le_max_left steps (calls.length + 3))
        have h2 := armed_mono ha' (Nat.le_max_right steps (calls.length + 3))
        exact Option.some.inj (h1.symm.trans h2)
      exact ⟨hbound, hi, hia ▸ ih hidle houts hall'⟩

theorem apart_iff (i : Nat) (runs : List (List Nat)) :
    Apart i runs ↔ (∀ calls ∈ runs, calls.length + 2 < sizeValues) ∧
      (∀ calls ∈ runs.head?, i = 0 ∨ calls = []) ∧
      runs.IsChain fun first second => first = [] ∨ second = [] := by
  have hmax : sizeMax + 1 = sizeValues := by decide
  induction runs generalizing i with
  | nil => simp [Apart]
  | cons calls runs ih =>
      have hlength : calls.length + 1 < sizeMax ↔ calls.length + 2 < sizeValues := by omega
      simp only [Apart, ih calls.length, List.isChain_cons, List.forall_mem_cons, hlength,
        List.length_eq_zero_iff, List.head?_cons, Option.mem_some_iff, forall_eq']
      tauto

theorem idle_fuse (ec : ErrorCode) : Idle ec (fuse ec) := ⟨rfl, rfl, rfl⟩

theorem fuse_injects_all_iff (ec : ErrorCode) (runs : List (List Nat)) :
    InjectsAll ec runs ↔ (∀ calls ∈ runs, calls.length + 2 < sizeValues) ∧
      runs.IsChain fun first second => first = [] ∨ second = [] := by
  have happart : Apart (fuse ec).i runs ↔ (∀ calls ∈ runs, calls.length + 2 < sizeValues) ∧
      runs.IsChain fun first second => first = [] ∨ second = [] := by
    rw [apart_iff]
    simp [fuse]
  rw [← happart]
  constructor
  · rintro ⟨steps, outs, hrun, hall⟩
    exact apart_of_good (idle_fuse ec) hrun hall
  · exact armedAll_good (idle_fuse ec)

/-- Two runs with one call each: the first phase of the second injects nothing. -/
theorem fuse_second_run_injects_nothing :
    (armedAll 5 (fuse ⟨1, 0⟩) [[0], [0]]).map (List.map Armed.codeRounds) =
        some [[[0], [0], []], [[]]] ∧
      ¬ InjectsAll ⟨1, 0⟩ [[0], [0]] := by
  refine ⟨by decide, ?_⟩
  rintro ⟨steps, outs, hrun, hall⟩
  obtain ⟨-, -, -, hsecond, -⟩ := apart_of_good (idle_fuse _) hrun hall
  simp at hsecond

end Capy.Fuse
